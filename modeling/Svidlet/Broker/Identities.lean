import Svidlet.Broker.Limit

/-!
# How many identities a node can ask for

`Distinct` is to cap the different identities one node obtains in an hour. It keeps one start time
and one set for a node. Once the start is a window old, the next call starts over with an empty
set, and a sweep drops the node. So inside one window the cap holds, but **a span that has the end
of one window and the beginning of the next in it can have twice as many** in it:

> start over at `r` · forget what was granted in `(r - window, r)` · grant as many again.

The log of a run has every call that was answered with `true`. `Tracked` is the invariant: of each
grant in the log, the node's entry still has the identity, or the grant is a window older than the
entry. A call keeps it unless it forgets a grant that is less than a window old (`Forgets`).
-/

namespace Svidlet.Broker

/-! ## 1. Calls and grants -/

inductive LimitCall where
  | allow (node identity : String) (now : Int64)
  | sweep (now : Int64)

namespace LimitCall

def time : LimitCall → Int
  | .allow _ _ now => now.toInt
  | .sweep now => now.toInt

end LimitCall

/-- A call of `allow` that was answered with `true`. -/
structure Allowed where
  node : String
  identity : String
  time : Int64

namespace Distinct

/-- One call, and what it adds to the log. -/
def serve (d : Distinct) : LimitCall → List Allowed × Distinct
  | .allow node identity now =>
    let (allowed, d') := d.allow node identity now
    (if allowed then [⟨node, identity, now⟩] else [], d')
  | .sweep now => ([], d.sweep now)

/-- The log, and the limiter, after some calls. -/
def after (d : Distinct) (calls : List LimitCall) : List Allowed × Distinct :=
  calls.foldl (fun run call => ((run.1 ++ (run.2.serve call).1), (run.2.serve call).2)) ([], d)

theorem after_snoc (d : Distinct) (calls : List LimitCall) (call : LimitCall) :
    d.after (calls ++ [call]) =
      ((d.after calls).1 ++ ((d.after calls).2.serve call).1, ((d.after calls).2.serve call).2) := by
  unfold after
  rw [List.foldl_append]
  rfl

/-- The node's entry is a window old. -/
def Expired (d : Distinct) (node : String) (now : Int64) : Prop :=
  (d.seen node).any (fun entry => d.window ≤ now - entry.1) = true

theorem Expired.intro {d : Distinct} {node : String} {now start : Int64} {set : List String}
    (hseen : d.seen node = some (start, set)) (hold : d.window ≤ now - start) :
    d.Expired node now := by
  unfold Expired
  rw [hseen]
  exact decide_eq_true hold

/-- The call drops an entry while a grant of its node is less than a window old. -/
def Forgets (d : Distinct) (log : List Allowed) : LimitCall → Prop
  | .allow node _ now => d.Expired node now ∧
      ∃ g ∈ log, g.node = node ∧ now.toInt - g.time.toInt < d.window.toInt
  | .sweep now => ∃ g ∈ log, d.Expired g.node now ∧ now.toInt - g.time.toInt < d.window.toInt

instance (d : Distinct) (node : String) (now : Int64) : Decidable (d.Expired node now) :=
  inferInstanceAs (Decidable (_ = true))

instance (d : Distinct) (log : List Allowed) (call : LimitCall) : Decidable (d.Forgets log call) :=
  match call with
  | .allow node _ now => inferInstanceAs (Decidable (d.Expired node now ∧
      ∃ g ∈ log, g.node = node ∧ now.toInt - g.time.toInt < d.window.toInt))
  | .sweep now => inferInstanceAs (Decidable
      (∃ g ∈ log, d.Expired g.node now ∧ now.toInt - g.time.toInt < d.window.toInt))

end Distinct

/-- The different identities granted to a node from `a` to `b`. -/
def identitiesIn (log : List Allowed) (node : String) (a b : Int) : List String :=
  ((log.filter fun g => g.node = node ∧ a ≤ g.time.toInt ∧ g.time.toInt ≤ b).map
    Allowed.identity).dedup

theorem mem_identitiesIn {log : List Allowed} {node identity : String} {a b : Int} :
    identity ∈ identitiesIn log node a b ↔
      ∃ g ∈ log, g.node = node ∧ a ≤ g.time.toInt ∧ g.time.toInt ≤ b ∧ g.identity = identity := by
  simp only [identitiesIn, List.mem_dedup, List.mem_map, List.mem_filter, decide_eq_true_eq]
  constructor
  · intro ⟨g, ⟨hg, hnode, ha, hb⟩, hid⟩
    exact ⟨g, hg, hnode, ha, hb, hid⟩
  · intro ⟨g, hg, hnode, ha, hb, hid⟩
    exact ⟨g, ⟨hg, hnode, ha, hb⟩, hid⟩

/-- A list has room for all identities of a span. -/
theorem identitiesIn_length_le {log : List Allowed} {node : String} {a b : Int} {set : List String}
    (h : ∀ g ∈ log, g.node = node → a ≤ g.time.toInt → g.time.toInt ≤ b → g.identity ∈ set) :
    (identitiesIn log node a b).length ≤ set.length := by
  refine (List.Nodup.subperm (List.nodup_dedup _) ?_).length_le
  intro identity hid
  obtain ⟨g, hg, hnode, ha, hb, rfl⟩ := mem_identitiesIn.mp hid
  exact h g hg hnode ha hb

/-- In every span shorter than the window a node has at most `limit` identities. -/
def Capped (limit : Nat) (window : Int64) (log : List Allowed) : Prop :=
  ∀ node a b, b - a < window.toInt → (identitiesIn log node a b).length ≤ limit

/-! ## 2. The invariant -/

/-- What a node's entry says about a grant to it: the identity is in it, or the grant is a window
    older. Without an entry the grant is a window old. -/
def Accounted (window : Int64) (clock : Int) (g : Allowed) : Option (Int64 × List String) → Prop
  | none => g.time.toInt + window.toInt ≤ clock
  | some (start, set) => g.identity ∈ set ∨ g.time.toInt + window.toInt ≤ start.toInt

structure Tracked (limit : Nat) (window : Int64) (clock : Int) (log : List Allowed) (d : Distinct) :
    Prop where
  limit_eq : d.limit = limit
  window_eq : d.window = window
  entries : ∀ node start set, d.seen node = some (start, set) →
    set.length ≤ limit ∧ start.toInt ≤ clock
  accounted : ∀ g ∈ log, Accounted window clock g (d.seen g.node)
  capped : Capped limit window log

section

variable {limit : Nat} {window : Int64} {clock : Int} {log : List Allowed} {d : Distinct}

/-- The entry with which a call for the node goes on. -/
def Distinct.entry (d : Distinct) (node : String) (now : Int64) : Int64 × List String :=
  let (start, set) := (d.seen node).getD (now, [])
  if d.window ≤ now - start then (now, []) else (start, set)

def Distinct.put (d : Distinct) (node : String) (entry : Int64 × List String) : Distinct :=
  { d with seen := Function.update d.seen node (some entry) }

theorem Distinct.allow_eq (d : Distinct) (node identity : String) (now : Int64)
    (hlimit : d.limit ≠ 0) : d.allow node identity now =
      let (start, set) := d.entry node now
      if identity ∈ set then (true, d.put node (start, set))
      else if d.limit ≤ set.length % 2 ^ 32 then (false, d.put node (start, set))
      else (true, d.put node (start, identity :: set)) := by
  unfold Distinct.allow Distinct.entry
  rw [if_neg hlimit]
  rfl

/-- The entry is new, or it is the one that was there. -/
theorem Distinct.entry_cases (d : Distinct) (node : String) (now : Int64) :
    (d.entry node now = (now, []) ∧ (d.seen node = none ∨ d.Expired node now)) ∨
      d.seen node = some (d.entry node now) := by
  unfold Distinct.entry
  cases hseen : d.seen node with
  | none =>
    left
    simp
  | some entry =>
    obtain ⟨start, set⟩ := entry
    by_cases hold : d.window ≤ now - start
    · left
      rw [Option.getD_some]
      exact ⟨if_pos hold, .inr (.intro hseen hold)⟩
    · right
      simp only [Option.getD_some, if_neg hold]

theorem Accounted.later {clock' : Int} {g : Allowed} {entry : Option (Int64 × List String)}
    (h : Accounted window clock g entry) (hclock : clock ≤ clock') :
    Accounted window clock' g entry := by
  cases entry with
  | none => exact Int.le_trans h hclock
  | some entry => exact h

theorem Tracked.later {clock' : Int} (h : Tracked limit window clock log d)
    (hclock : clock ≤ clock') : Tracked limit window clock' log d :=
  ⟨h.limit_eq, h.window_eq,
    fun node start set hseen => ⟨(h.entries node start set hseen).1,
      Int.le_trans (h.entries node start set hseen).2 hclock⟩,
    fun g hg => (h.accounted g hg).later hclock, h.capped⟩

variable {node : String} {start : Int64} {set : List String}

/-- Replacing one entry. -/
theorem Tracked.put (h : Tracked limit window clock log d) (hset : set.length ≤ limit)
    (hstart : start.toInt ≤ clock)
    (haccounted : ∀ g ∈ log, g.node = node → Accounted window clock g (some (start, set))) :
    Tracked limit window clock log (d.put node (start, set)) := by
  refine ⟨h.limit_eq, h.window_eq, ?_, ?_, h.capped⟩
  · intro node' start' set' hseen
    by_cases hnode : node' = node
    · simp only [Distinct.put, hnode, Function.update_self, Option.some.injEq, Prod.mk.injEq] at hseen
      obtain ⟨rfl, rfl⟩ := hseen
      exact ⟨hset, hstart⟩
    · simp only [Distinct.put, Function.update_of_ne hnode] at hseen
      exact h.entries node' start' set' hseen
  · intro g hg
    by_cases hnode : g.node = node
    · simp only [Distinct.put, hnode, Function.update_self]
      exact haccounted g hg hnode
    · simp only [Distinct.put, Function.update_of_ne hnode]
      exact h.accounted g hg

variable {identity : String} {now : Int64}

/-- A call takes up the node's entry, or starts a new one without forgetting anything recent. -/
theorem Tracked.enter (h : Tracked limit window now.toInt log d)
    (hkeeps : ¬ d.Forgets log (.allow node identity now)) :
    Tracked limit window now.toInt log (d.put node (d.entry node now)) := by
  rcases d.entry_cases node now with ⟨hentry, hwhy⟩ | hseen
  · rw [hentry]
    refine h.put (Nat.zero_le _) (Int.le_refl _) ?_
    intro g hg hnode
    right
    rcases hwhy with hnone | hexpired
    · have haccounted := h.accounted g hg
      rwa [hnode, hnone] at haccounted
    by_contra hrecent
    refine hkeeps ⟨hexpired, g, hg, hnode, ?_⟩
    rw [h.window_eq]
    omega
  · have hentry := h.entries node _ _ hseen
    refine h.put hentry.1 hentry.2 ?_
    intro g hg hnode
    have haccounted := h.accounted g hg
    rwa [hnode, hseen] at haccounted

/-- The set takes in one more identity. -/
theorem Tracked.learn (h : Tracked limit window clock log d)
    (hseen : d.seen node = some (start, set)) (hroom : set.length < limit) :
    Tracked limit window clock log (d.put node (start, identity :: set)) := by
  refine h.put hroom (h.entries node start set hseen).2 ?_
  intro g hg hnode
  have haccounted := h.accounted g hg
  rw [hnode, hseen] at haccounted
  exact haccounted.imp (List.mem_cons_of_mem _) id

/-- **Granting an identity that is in the set.** A span that reaches up to now has no grants from
    before the entry in it, so its identities are all in the set. -/
theorem Tracked.grant (h : Tracked limit window now.toInt log d)
    (hseen : d.seen node = some (start, set)) (hknown : identity ∈ set) :
    Tracked limit window now.toInt (log ++ [⟨node, identity, now⟩]) d := by
  obtain ⟨hset, hstart⟩ := h.entries node start set hseen
  refine ⟨h.limit_eq, h.window_eq, h.entries, ?_, ?_⟩
  · intro g hg
    rcases List.mem_append.mp hg with hg | hg
    · exact h.accounted g hg
    · obtain rfl := List.mem_singleton.mp hg
      rw [hseen]
      exact .inl hknown
  intro node' a b hspan
  by_cases hin : node = node' ∧ a ≤ now.toInt ∧ now.toInt ≤ b
  · obtain ⟨rfl, ha, hb⟩ := hin
    refine Nat.le_trans (identitiesIn_length_le ?_) hset
    intro g hg hnode hfrom hto
    rcases List.mem_append.mp hg with hg | hg
    · have haccounted := h.accounted g hg
      rw [hnode, hseen] at haccounted
      rcases haccounted with hmem | hold
      · exact hmem
      · omega
    · obtain rfl := List.mem_singleton.mp hg
      exact hknown
  · have hsame : identitiesIn (log ++ [⟨node, identity, now⟩]) node' a b
        = identitiesIn log node' a b := by
      simp [identitiesIn, List.filter_append, hin]
    rw [hsame]
    exact h.capped node' a b hspan

theorem Tracked.sweep (h : Tracked limit window now.toInt log d)
    (hkeeps : ¬ d.Forgets log (.sweep now)) : Tracked limit window now.toInt log (d.sweep now) := by
  refine ⟨h.limit_eq, h.window_eq, ?_, ?_, h.capped⟩
  · intro node start set hseen
    obtain ⟨hseen, _⟩ := Option.filter_eq_some_iff.mp hseen
    exact h.entries node start set hseen
  intro g hg
  have haccounted := h.accounted g hg
  cases hseen : d.seen g.node with
  | none =>
    simp only [Distinct.sweep, hseen, Option.filter_none]
    rwa [hseen] at haccounted
  | some entry =>
    obtain ⟨start, set⟩ := entry
    by_cases hfresh : now - start < d.window
    · simp only [Distinct.sweep, hseen, Option.filter_some, hfresh, decide_true, if_true]
      rwa [hseen] at haccounted
    simp only [Distinct.sweep, hseen, Option.filter_some, hfresh, decide_false]
    show g.time.toInt + window.toInt ≤ now.toInt
    by_contra hrecent
    refine hkeeps ⟨g, hg, .intro hseen (Int64.not_lt.mp hfresh), ?_⟩
    rw [h.window_eq]
    omega

/-- **One call.** -/
theorem Tracked.serve {call : LimitCall} (hlimit : limit ≠ 0) (hlt : limit < 2 ^ 32)
    (h : Tracked limit window call.time log d) (hkeeps : ¬ d.Forgets log call) :
    Tracked limit window call.time (log ++ (d.serve call).1) (d.serve call).2 := by
  cases call with
  | sweep now =>
    simp only [Distinct.serve, List.append_nil]
    exact h.sweep hkeeps
  | allow node identity now =>
    have hentered := h.enter hkeeps
    cases hentry : d.entry node now with
    | mk start set =>
      have hseen : (d.put node (start, set)).seen node = some (start, set) := by
        simp [Distinct.put]
      rw [hentry] at hentered
      simp only [Distinct.serve, d.allow_eq node identity now (h.limit_eq ▸ hlimit), hentry]
      by_cases hknown : identity ∈ set
      · simp only [if_pos hknown, if_true]
        exact hentered.grant hseen hknown
      have hset := (hentered.entries node start set hseen).1
      have hsmall : set.length % 2 ^ 32 = set.length := Nat.mod_eq_of_lt (by omega)
      simp only [if_neg hknown, hsmall, h.limit_eq]
      by_cases hfull : limit ≤ set.length
      · simp only [if_pos hfull, Bool.false_eq_true, if_false, List.append_nil]
        exact hentered
      simp only [if_neg hfull, if_true]
      have hlearned : Tracked limit window now.toInt log
          ((d.put node (start, set)).put node (start, identity :: set)) :=
        hentered.learn hseen (by omega)
      have hput : (d.put node (start, set)).put node (start, identity :: set)
          = d.put node (start, identity :: set) := by
        simp [Distinct.put]
      rw [hput] at hlearned
      have hnow : (d.put node (start, identity :: set)).seen node
          = some (start, identity :: set) := by
        simp [Distinct.put]
      exact hlearned.grant hnow (.head _)

end

/-! ## 3. Runs -/

end Svidlet.Broker
