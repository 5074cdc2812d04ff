import Svidlet.Lib.Pool

/-!
# Limits that are checked in one step and counted in another

A limiter keeps, for each key, the times of what was recorded in the last `window` seconds. Programs
**check** first and **record** later, and other programs may run in between. The check compares what
has been recorded with the limit; it does not see those who have passed it and have not recorded yet.

    Crowded  :=  recorded < limit ≤ recorded + those who may still record

In a run in which nobody passes a check that is crowded, and checks come in the order of their times,
no window ever holds more records than the limit (`Metered.within`). The invariant counts those who may
still record together with the records.
-/

namespace Svidlet.Lib

/-- What a call is to a limiter; `foreign` are calls that change it otherwise. -/
inductive Use (κ : Type) where
  | check (key : κ) (now : Int)
  | record (key : κ) (now : Int)
  | other
  | foreign

structure Meter (S : Sig) (κ : Type) where
  use : S.Op → Use κ
  /-- Whether a check was passed, by its answer. -/
  passed : (op : S.Op) → S.Ans op → Bool

/-! ## 1. Programs that record what they have checked -/

section

variable {S : Sig} {κ α β ε : Type} (m : Meter S κ)

/-- The program records only under a check it has passed; `held` is the one it has passed. -/
def Prog.Obeys : Option (κ × Int) → Prog S α → Prop
  | _, .pure _ => True
  | held, .call op k =>
    match m.use op with
    | .check key now => ∀ ans, Obeys (if m.passed op ans then some (key, now) else none) (k ans)
    | .record key now => held = some (key, now) ∧ ∀ ans, Obeys none (k ans)
    | .other => ∀ ans, Obeys held (k ans)
    | .foreign => False

/-- The program may still record, without another check. -/
def Prog.MayRecord (key : κ) : Prog S α → Prop
  | .pure _ => False
  | .call op k =>
    match m.use op with
    | .check _ _ => False
    | .record key' _ => key' = key
    | .other => ∃ ans, (k ans).MayRecord key
    | .foreign => False

variable {m}

section

variable {held : Option (κ × Int)} {op : S.Op} {k : S.Ans op → Prog S α} {key : κ} {now : Int}

theorem Prog.obeys_call : (Prog.call op k).Obeys m held ↔
    match m.use op with
    | .check key now => ∀ ans, (k ans).Obeys m (if m.passed op ans then some (key, now) else none)
    | .record key now => held = some (key, now) ∧ ∀ ans, (k ans).Obeys m none
    | .other => ∀ ans, (k ans).Obeys m held
    | .foreign => False := by
  rw [Prog.Obeys]

theorem Prog.obeys_check (huse : m.use op = .check key now) : (Prog.call op k).Obeys m held ↔
    ∀ ans, (k ans).Obeys m (if m.passed op ans then some (key, now) else none) := by
  rw [Prog.obeys_call, huse]

theorem Prog.obeys_record (huse : m.use op = .record key now) :
    (Prog.call op k).Obeys m held ↔ held = some (key, now) ∧ ∀ ans, (k ans).Obeys m none := by
  rw [Prog.obeys_call, huse]

theorem Prog.obeys_other (huse : m.use op = .other) :
    (Prog.call op k).Obeys m held ↔ ∀ ans, (k ans).Obeys m held := by
  rw [Prog.obeys_call, huse]

theorem Prog.Obeys.not_foreign (h : (Prog.call op k).Obeys m held) (huse : m.use op = .foreign) :
    False := by
  rw [Prog.obeys_call, huse] at h
  exact h

theorem Prog.mayRecord_call : (Prog.call op k).MayRecord m key ↔
    match m.use op with
    | .check _ _ => False
    | .record key' _ => key' = key
    | .other => ∃ ans, (k ans).MayRecord m key
    | .foreign => False := by
  rw [Prog.MayRecord]

theorem Prog.MayRecord.of_record (huse : m.use op = .record key now) :
    (Prog.call op k).MayRecord m key := by
  rw [Prog.mayRecord_call, huse]

theorem Prog.MayRecord.of_other (huse : m.use op = .other) {ans : S.Ans op}
    (h : (k ans).MayRecord m key) : (Prog.call op k).MayRecord m key := by
  rw [Prog.mayRecord_call, huse]
  exact ⟨ans, h⟩

end

variable {p : Prog S α}

/-- A check that has been passed need not be used. -/
theorem Prog.Obeys.of_none (h : p.Obeys m none) (held : Option (κ × Int)) : p.Obeys m held := by
  induction p with
  | pure a => trivial
  | call op k ih =>
    cases huse : m.use op with
    | check key now => exact (obeys_check huse).mpr ((obeys_check huse).mp h)
    | record key now => cases ((obeys_record huse).mp h).1
    | other =>
      apply (obeys_other huse).mpr
      intro ans
      exact ih ans ((obeys_other huse).mp h ans)
    | foreign => exact (h.not_foreign huse).elim

variable {key : κ} {now : Int}

/-- A program that cannot record any more holds nothing. -/
theorem Prog.Obeys.to_none (h : p.Obeys m (some (key, now))) (hno : ¬ p.MayRecord m key) :
    p.Obeys m none := by
  induction p with
  | pure a => trivial
  | call op k ih =>
    cases huse : m.use op with
    | check key' now' => exact (obeys_check huse).mpr ((obeys_check huse).mp h)
    | record key' now' =>
      obtain ⟨hheld, -⟩ := (obeys_record huse).mp h
      cases hheld
      exact absurd (.of_record huse) hno
    | other =>
      apply (obeys_other huse).mpr
      intro ans
      exact ih ans ((obeys_other huse).mp h ans) fun hmay => hno (.of_other huse hmay)
    | foreign => exact (h.not_foreign huse).elim

variable {held : Option (κ × Int)}

theorem Prog.Obeys.bind {f : α → Prog S β} (hp : p.Obeys m held) (hf : ∀ a, (f a).Obeys m none) :
    (p >>= f).Obeys m held := by
  induction p generalizing held with
  | pure a => exact (hf a).of_none held
  | call op k ih =>
    show (Prog.call op fun ans => (k ans) >>= f).Obeys m held
    cases huse : m.use op with
    | check key now =>
      apply (obeys_check huse).mpr
      exact fun ans => ih ans ((obeys_check huse).mp hp ans)
    | record key now =>
      obtain ⟨hheld, hk⟩ := (obeys_record huse).mp hp
      exact (obeys_record huse).mpr ⟨hheld, fun ans => ih ans (hk ans)⟩
    | other =>
      apply (obeys_other huse).mpr
      exact fun ans => ih ans ((obeys_other huse).mp hp ans)
    | foreign => exact (hp.not_foreign huse).elim

variable {f : α → Fallible S ε β}

theorem Prog.Obeys.run_bind {x : Fallible S ε α} (hx : x.run.Obeys m held)
    (hf : ∀ a, (f a).run.Obeys m none) :
    (x >>= f).run.Obeys m held := by
  rw [ExceptT.run_bind]
  refine hx.bind ?_
  intro r
  cases r with
  | ok a => exact hf a
  | error e => trivial

variable {op : S.Op}

theorem Prog.Obeys.check_bind {f : S.Ans op → Fallible S ε β} (huse : m.use op = .check key now)
    (h : ∀ ans, (f ans).run.Obeys m (if m.passed op ans then some (key, now) else none)) :
    ((ExceptT.lift (Prog.op op) : Fallible S ε (S.Ans op)) >>= f).run.Obeys m held := by
  rw [ExceptT.run_bind_lift]
  exact (obeys_check huse).mpr h

theorem Prog.Obeys.record_bind {f : S.Ans op → Fallible S ε β} (huse : m.use op = .record key now)
    (h : ∀ ans, (f ans).run.Obeys m none) :
    ((ExceptT.lift (Prog.op op) : Fallible S ε (S.Ans op)) >>= f).run.Obeys m (some (key, now)) := by
  rw [ExceptT.run_bind_lift]
  exact (obeys_record huse).mpr ⟨rfl, h⟩

theorem Prog.Obeys.result_bind {x : Except ε α} (h : ∀ a, x = .ok a → (f a).run.Obeys m held) :
    ((ExceptT.mk (Pure.pure x) : Fallible S ε α) >>= f).run.Obeys m held := by
  cases x with
  | ok a => exact h a rfl
  | error e => trivial

/-- A program that makes no call of the limiter. -/
theorem Prog.Obeys.of_makes (h : p.Makes fun op => m.use op = .other) (held : Option (κ × Int)) :
    p.Obeys m held := by
  induction p with
  | pure a => trivial
  | call op k ih =>
    exact (obeys_other h.1).mpr fun ans => ih ans (h.2 ans)

end

/-! ## 2. What was checked and recorded -/

section

variable {S : Sig} {κ : Type} [DecidableEq κ] (m : Meter S κ)

/-- The times recorded for a key. -/
def Meter.recorded (key : κ) (log : List (Event S)) : List Int := log.filterMap fun ev =>
    match m.use ev.op with
    | .record key' now => if key' = key then some now else none
    | _ => none

/-- The times of the checks for a key. -/
def Meter.checked (key : κ) (log : List (Event S)) : List Int := log.filterMap fun ev =>
    match m.use ev.op with
    | .check key' now => if key' = key then some now else none
    | _ => none

variable {m} {op : S.Op} {ans : S.Ans op} {key : κ} {now : Int} {log : List (Event S)}

theorem Meter.recorded_cons (key' : κ) : m.recorded key' (⟨op, ans⟩ :: log) = (match m.use op with
      | .record key now => if key = key' then some now else none
      | _ => none).toList ++ m.recorded key' log := by
  rw [Meter.recorded, List.filterMap_cons]
  split <;> simp_all [Meter.recorded]

theorem Meter.recorded_record (huse : m.use op = .record key now) (key' : κ) :
    m.recorded key' (⟨op, ans⟩ :: log) =
      if key = key' then now :: m.recorded key' log else m.recorded key' log := by
  rw [Meter.recorded_cons, huse]
  by_cases hkey : key = key'
  · simp [hkey]
  · simp [hkey]

theorem Meter.recorded_check (huse : m.use op = .check key now) (key' : κ) :
    m.recorded key' (⟨op, ans⟩ :: log) = m.recorded key' log := by
  rw [Meter.recorded_cons, huse]
  rfl

theorem Meter.recorded_other (huse : m.use op = .other) (key' : κ) :
    m.recorded key' (⟨op, ans⟩ :: log) = m.recorded key' log := by
  rw [Meter.recorded_cons, huse]
  rfl

theorem Meter.mem_checked (huse : m.use op = .check key now) :
    now ∈ m.checked key (⟨op, ans⟩ :: log) := by
  refine List.mem_filterMap.mpr ⟨⟨op, ans⟩, .head _, ?_⟩
  show (match m.use op with
    | .check key' now => if key' = key then some now else none
    | _ => none) = some now
  rw [huse]
  exact if_pos rfl

theorem Meter.of_mem_checked {t : Int} (h : t ∈ m.checked key (⟨op, ans⟩ :: log)) :
    m.use op = .check key t ∨ t ∈ m.checked key log := by
  obtain ⟨ev, hmem, hev⟩ := List.mem_filterMap.mp h
  obtain rfl | hmem := List.mem_cons.mp hmem
  · cases huse : m.use op with
    | check key' now' =>
      simp only [huse] at hev
      split at hev
      · rename_i hkey
        subst hkey
        exact .inl (by rw [Option.some.inj hev])
      · cases hev
    | _ => simp [huse] at hev
  · exact .inr (List.mem_filterMap.mpr ⟨ev, hmem, hev⟩)

theorem Meter.checked_mono (ev : Event S) {t : Int} (h : t ∈ m.checked key log) :
    t ∈ m.checked key (ev :: log) := by
  obtain ⟨ev', hmem, hev⟩ := List.mem_filterMap.mp h
  exact List.mem_filterMap.mpr ⟨ev', .tail _ hmem, hev⟩

variable (m)

/-- How many were recorded in the `window` seconds after `start`. -/
def Meter.countIn (key : κ) (window start : Int) (log : List (Event S)) : Nat :=
  (m.recorded key log).countP fun t => decide (start < t ∧ t ≤ start + window)

end

/-- A limiter behind the calls of a world. -/
structure Limiter {S : Sig} {κ σ : Type} [DecidableEq κ] (m : Meter S κ) (W : World S σ) where
  limit : Nat
  window : Int
  queue : σ → κ → List Int
  /-- What is always so of the states. -/
  Good : σ → Prop
  good : ∀ {op s ans s'}, W op s ans s' → Good s → Good s'
  /-- A check drops what is too old from the front, and passes only below the limit. -/
  check : ∀ {op key now s ans s'}, m.use op = .check key now → 0 ≤ now → Good s → W op s ans s' →
    queue s' = Function.update (queue s) key ((queue s key).dropWhile (· ≤ now - window)) ∧
    ((queue s key).length ≤ limit → m.passed op ans = true →
      ((queue s key).dropWhile (· ≤ now - window)).length < limit)
  record : ∀ {op key now s ans s'}, m.use op = .record key now → Good s → W op s ans s' →
    queue s' = Function.update (queue s) key (queue s key ++ [now])
  other : ∀ {op s ans s'}, m.use op = .other → Good s → W op s ans s' → queue s' = queue s

namespace Limiter

variable {S : Sig} {κ σ τ ρ : Type} [DecidableEq κ] {m : Meter S κ} {W : World S σ}
  (L : Limiter m W)

/-- What a check at `now` leaves of the queue. -/
def kept (s : σ) (key : κ) (now : Int) : List Int := (L.queue s key).dropWhile (· ≤ now - L.window)

/-- There is room for one more, but not for those as well who have passed their check and may still
    record. -/
def Crowded (P : Pool S (σ × List (Event S)) τ ρ) (i : Nat) (key : κ) (now : Int) : Prop :=
  (L.kept P.state.1 key now).length < L.limit ∧
    ∃ J : Finset Nat, (∀ j ∈ J, j ≠ i ∧ ∃ task p, P.threads j = some (task, p) ∧ p.MayRecord m key) ∧
      L.limit ≤ (L.kept P.state.1 key now).length + J.card

/-- Checks come in the order of their times, and none is made in a crowd. -/
def Orderly (P : Pool S (σ × List (Event S)) τ ρ) : Move S τ ρ → Prop
  | .call i op _ => ∀ key now, m.use op = .check key now →
      0 ≤ now ∧ (∀ t ∈ m.checked key P.state.2, t ≤ now) ∧ ¬ L.Crowded P i key now
  | _ => True

/-! ## 3. The invariant -/

/-- `n`, and those who hold a check of the key at a time that counts, are within the limit together. -/
def Covers (held : Nat → Option (κ × Int)) (key : κ) (φ : Int → Prop) (n : Nat) : Prop :=
  ∀ J : Finset Nat, (∀ j ∈ J, ∃ now, held j = some (key, now) ∧ φ now) → n + J.card ≤ L.limit

/-- What was recorded and is not in the queue is too old for a check that was made. -/
def Accounts (log : List (Event S)) (key : κ) (queue : List Int) : Prop :=
  ∃ old, (m.recorded key log).Perm (old ++ queue) ∧ ∀ t ∈ old, ∃ t' ∈ m.checked key log, t ≤ t' - L.window

/-- `held i` is the check that the program in slot `i` has passed and may still use. -/
structure Metered (P : Pool S (σ × List (Event S)) τ ρ) (held : Nat → Option (κ × Int)) : Prop where
  good : L.Good P.state.1
  obeys : ∀ i task p, P.threads i = some (task, p) → p.Obeys m (held i)
  may : ∀ i key now, held i = some (key, now) →
    ∃ task p, P.threads i = some (task, p) ∧ p.MayRecord m key
  room : ∀ key, L.Covers held key (fun _ => True) (L.queue P.state.1 key).length
  dropped : ∀ key, L.Accounts P.state.2 key (L.queue P.state.1 key)
  within : ∀ key start, L.Covers held key (fun t => start < t ∧ t ≤ start + L.window)
    (m.countIn key L.window start P.state.2)

section

variable {L} {P : Pool S (σ × List (Event S)) τ ρ} {held : Nat → Option (κ × Int)} {i : Nat}
  {task : τ} {op : S.Op} {k : S.Ans op → Prog S ρ} {ans : S.Ans op} {s' : σ × List (Event S)}
  {key key' : κ} {now : Int} {x : Option (κ × Int)} {φ : Int → Prop} {n n' : Nat}

omit [DecidableEq κ] in
/-- Who holds what after a program has made a step. -/
theorem held_update {held : Nat → Option (κ × Int)} {j : Nat} {t : Int}
    (h : Function.update held i x j = some (key, t)) :
    j = i ∧ x = some (key, t) ∨ j ≠ i ∧ held j = some (key, t) := by
  by_cases hji : j = i
  · subst hji
    exact .inl ⟨rfl, by simpa using h⟩
  · exact .inr ⟨hji, by simpa [hji] using h⟩

/-- Nobody holds more, and there is no more to count. -/
theorem Covers.mono {held' : Nat → Option (κ × Int)} (h : L.Covers held key φ n)
    (hheld : ∀ j t, held' j = some (key, t) → held j = some (key, t)) (hn : n' ≤ n) :
    L.Covers held' key φ n' := by
  intro J hJ
  have := h J fun j hj => (hJ j hj).imp fun t => And.imp_left (hheld j t)
  omega

/-- Who records what they hold is counted instead. -/
theorem Covers.record (h : L.Covers held key φ n) (hi : held i = some (key, now)) (hφ : φ now) :
    L.Covers (Function.update held i none) key φ (n + 1) := by
  intro J hJ
  have hout : ∀ j ∈ J, j ≠ i ∧ ∃ t, held j = some (key, t) ∧ φ t := by
    intro j hj
    obtain ⟨t, ht, hφ⟩ := hJ j hj
    obtain ⟨-, he⟩ | ⟨hji, hold⟩ := held_update ht
    · cases he
    · exact ⟨hji, t, hold, hφ⟩
  have hall := h (insert i J) (Finset.forall_mem_insert _ _ _ |>.mpr
    ⟨⟨now, hi, hφ⟩, fun j hj => (hout j hj).2⟩)
  rw [Finset.card_insert_of_notMem fun hin => (hout i hin).1 rfl] at hall
  omega

/-- Who has passed a check may hold it, if there is room for them beside the others. -/
theorem Covers.check (h : L.Covers held key' φ n) (hn : n' ≤ n)
    (hx : ∀ key' t, x = some (key', t) → key' = key ∧ t = now)
    (hfits : x ≠ none → key' = key → φ now → ∀ J : Finset Nat,
      (∀ j ∈ J, j ≠ i ∧ ∃ t, held j = some (key, t)) → n' + J.card < L.limit) :
    L.Covers (Function.update held i x) key' φ n' := by
  intro J hJ
  have hothers : ∀ j ∈ J, j ≠ i → ∃ t, held j = some (key', t) ∧ φ t := by
    intro j hj hji
    obtain ⟨t, ht, hφ⟩ := hJ j hj
    obtain ⟨he, -⟩ | ⟨-, hold⟩ := held_update ht
    · exact absurd he hji
    · exact ⟨t, hold, hφ⟩
  by_cases hiJ : i ∈ J
  · obtain ⟨t, ht, hφ⟩ := hJ i hiJ
    obtain ⟨-, heq⟩ | ⟨hne, -⟩ := held_update ht
    · obtain ⟨rfl, rfl⟩ := hx _ t heq
      have := hfits (by simp [heq]) rfl hφ (J.erase i) fun j hj =>
        ⟨Finset.ne_of_mem_erase hj, (hothers j (Finset.mem_of_mem_erase hj)
          (Finset.ne_of_mem_erase hj)).imp fun _ => And.left⟩
      rw [← Finset.card_erase_add_one hiJ]
      omega
    · exact absurd rfl hne
  · have := h J fun j hj => hothers j hj fun he => hiJ (he ▸ hj)
    omega

/-- Another event accounts for what is in the queue then, if what is too old stays so. -/
theorem Accounts.cons {log : List (Event S)} {queue queue' : List Int} (h : L.Accounts log key queue)
    (hperm : ∀ old, (m.recorded key log).Perm (old ++ queue) →
      (m.recorded key (⟨op, ans⟩ :: log)).Perm (old ++ queue')) :
    L.Accounts (⟨op, ans⟩ :: log) key queue' := by
  obtain ⟨old, hold, hgone⟩ := h
  refine ⟨old, hperm old hold, fun t ht => ?_⟩
  obtain ⟨t', ht', hle⟩ := hgone t ht
  exact ⟨t', Meter.checked_mono _ ht', hle⟩

/-- After a step of slot `i` that leaves `x` with it. -/
theorem Metered.next (h : L.Metered P held) (task : τ) (hw : W.logged op P.state ans s')
    (hobeys : (k ans).Obeys m x) (hmay : ∀ key now, x = some (key, now) → (k ans).MayRecord m key)
    (hroom : ∀ key, L.Covers (Function.update held i x) key (fun _ => True) (L.queue s'.1 key).length)
    (hdropped : ∀ key, L.Accounts (⟨op, ans⟩ :: P.state.2) key (L.queue s'.1 key))
    (hwithin : ∀ key start, L.Covers (Function.update held i x) key
      (fun t => start < t ∧ t ≤ start + L.window)
      (m.countIn key L.window start (⟨op, ans⟩ :: P.state.2))) :
    ∃ held', L.Metered { P.setThread i (some (task, k ans)) with state := s' } held' := by
  refine ⟨Function.update held i x, L.good hw.1 h.good, ?_, ?_, hroom, ?_, ?_⟩
  · intro j task' p hj
    obtain ⟨rfl, heq⟩ | ⟨hji, hold⟩ := Pool.of_setThread_some hj
    · cases heq
      simpa using hobeys
    · simpa [hji] using h.obeys j task' p hold
  · intro j key now hj
    obtain ⟨rfl, hx⟩ | ⟨hji, hold⟩ := held_update hj
    · exact ⟨task, k ans, Pool.setThread_same _ _ _, hmay key now hx⟩
    · obtain ⟨task', p, hp, hrec⟩ := h.may j key now hold
      exact ⟨task', p, (Pool.setThread_other _ _ hji).trans hp, hrec⟩
  · show ∀ key, L.Accounts s'.2 key (L.queue s'.1 key)
    rwa [hw.2]
  · show ∀ key start, L.Covers _ key _ (m.countIn key L.window start s'.2)
    rwa [hw.2]

/-- Of the records in a window that reaches up to `now`, a check at `now` has dropped none. -/
theorem Metered.countIn_le_kept (h : L.Metered P held)
    (hpast : ∀ t ∈ m.checked key P.state.2, t ≤ now) {start : Int} (hstart : now ≤ start + L.window) :
    m.countIn key L.window start P.state.2 ≤ (L.kept P.state.1 key now).length := by
  obtain ⟨old, hperm, hold⟩ := h.dropped key
  have hsplit : L.queue P.state.1 key =
      (L.queue P.state.1 key).takeWhile (· ≤ now - L.window) ++ L.kept P.state.1 key now :=
    List.takeWhile_append_dropWhile.symm
  have hzero : ∀ list : List Int, (∀ t ∈ list, t ≤ now - L.window) →
      list.countP (fun t => decide (start < t ∧ t ≤ start + L.window)) = 0 := by
    intro list hlist
    refine List.countP_eq_zero.mpr fun t ht => ?_
    have := hlist t ht
    simp only [decide_eq_true_eq, not_and]
    intro hlt
    omega
  rw [Meter.countIn, hperm.countP_eq, hsplit, List.countP_append, List.countP_append, hzero old,
    hzero (List.takeWhile _ _)]
  · simpa using List.countP_le_length
  · intro t ht
    simpa using List.mem_takeWhile_imp ht
  intro t ht
  obtain ⟨t', ht', hle⟩ := hold t ht
  have := hpast t' ht'
  omega

open Classical in
theorem Metered.check_step (h : L.Metered P held) (hi : P.threads i = some (task, .call op k))
    (hw : W.logged op P.state ans s') (huse : m.use op = .check key now) (hnow : 0 ≤ now)
    (hpast : ∀ t ∈ m.checked key P.state.2, t ≤ now) (hroom : ¬ L.Crowded P i key now) :
    ∃ held', L.Metered { P.setThread i (some (task, k ans)) with state := s' } held' := by
  obtain ⟨hqueue, hpassed⟩ := L.check huse hnow h.good hw.1
  have hshort : (L.queue P.state.1 key).length ≤ L.limit := by simpa using h.room key ∅ (by simp)
  have hkept : (L.kept P.state.1 key now).length ≤ (L.queue P.state.1 key).length :=
    (List.dropWhile_sublist _).length_le
  -- who has passed, and those who may still record, fit together
  have hfits : m.passed op ans = true → ∀ J : Finset Nat,
      (∀ j ∈ J, j ≠ i ∧ ∃ now, held j = some (key, now)) →
        (L.kept P.state.1 key now).length + J.card < L.limit := by
    intro hpass J hJ
    by_contra hno
    refine hroom ⟨hpassed hshort hpass, J, fun j hj => ?_, by omega⟩
    obtain ⟨hji, t, ht⟩ := hJ j hj
    exact ⟨hji, h.may j key t ht⟩
  -- what the program holds now: the check it has passed, if it may still use it
  obtain ⟨x, hobeys, hpass, hx, hmay⟩ : ∃ x : Option (κ × Int), (k ans).Obeys m x ∧
      (x ≠ none → m.passed op ans = true) ∧ (∀ key' t, x = some (key', t) → key' = key ∧ t = now) ∧
        ∀ key' t, x = some (key', t) → (k ans).MayRecord m key' := by
    have hafter := (Prog.obeys_check huse).mp (h.obeys i task _ hi) ans
    by_cases hpass : m.passed op ans = true
    · rw [if_pos hpass] at hafter
      by_cases hmay : (k ans).MayRecord m key
      · refine ⟨some (key, now), hafter, fun _ => hpass, ?_, ?_⟩
        all_goals
          intro key' t heq
          cases heq
        · exact ⟨rfl, rfl⟩
        · exact hmay
      · exact ⟨none, hafter.to_none hmay, by simp, by simp, by simp⟩
    · rw [if_neg hpass] at hafter
      exact ⟨none, hafter, by simp, by simp, by simp⟩
  refine h.next task hw hobeys hmay ?_ ?_ ?_
  · intro key'
    rw [hqueue]
    refine (h.room key').check ?_ hx ?_
    · by_cases hkey : key' = key
      · subst hkey
        rwa [Function.update_self]
      · rw [Function.update_of_ne hkey]
    · rintro hsome rfl -
      rw [Function.update_self]
      exact hfits (hpass hsome)
  · intro key'
    rw [hqueue]
    by_cases hkey : key' = key
    · subst hkey
      have hlog : L.Accounts (⟨op, ans⟩ :: P.state.2) key' (L.queue P.state.1 key') :=
        (h.dropped key').cons fun _ hperm => by rwa [Meter.recorded_check huse]
      obtain ⟨old, hperm, hold⟩ := hlog
      refine ⟨old ++ (L.queue P.state.1 key').takeWhile (· ≤ now - L.window), ?_, fun t ht => ?_⟩
      · rw [Function.update_self, List.append_assoc, List.takeWhile_append_dropWhile]
        exact hperm
      obtain ht | ht := List.mem_append.mp ht
      · exact hold t ht
      · exact ⟨now, Meter.mem_checked huse, by simpa using List.mem_takeWhile_imp ht⟩
    · rw [Function.update_of_ne hkey]
      exact (h.dropped key').cons fun _ hperm => by rwa [Meter.recorded_check huse]
  · intro key' start
    rw [Meter.countIn, Meter.recorded_check huse]
    refine (h.within key' start).check le_rfl hx ?_
    rintro hsome rfl ⟨-, hlast⟩ J hJ
    exact (Nat.add_le_add_right (h.countIn_le_kept hpast hlast) _).trans_lt (hfits (hpass hsome) J hJ)

theorem Metered.record_step (h : L.Metered P held) (hi : P.threads i = some (task, .call op k))
    (hw : W.logged op P.state ans s') (huse : m.use op = .record key now) :
    ∃ held', L.Metered { P.setThread i (some (task, k ans)) with state := s' } held' := by
  have hqueue := L.record huse h.good hw.1
  obtain ⟨hheld, hafter⟩ := (Prog.obeys_record huse).mp (h.obeys i task _ hi)
  -- slot `i` has left the holders
  have hleft : ∀ key' j t, Function.update held i none j = some (key', t) → held j = some (key', t) := by
    intro key' j t ht
    obtain ⟨-, heq⟩ | ⟨-, hold⟩ := held_update ht
    · cases heq
    · exact hold
  refine h.next task hw (hafter ans) (by simp) ?_ ?_ ?_
  · intro key'
    rw [hqueue]
    by_cases hkey : key' = key
    · subst hkey
      rw [Function.update_self, List.length_append]
      exact (h.room key').record hheld trivial
    · rw [Function.update_of_ne hkey]
      exact (h.room key').mono (hleft key') le_rfl
  · intro key'
    rw [hqueue]
    refine (h.dropped key').cons fun old hperm => ?_
    rw [Meter.recorded_record huse]
    by_cases hkey : key = key'
    · subst hkey
      rw [if_pos rfl, Function.update_self, ← List.append_assoc]
      exact (hperm.cons now).trans (List.perm_append_singleton now _).symm
    · rwa [if_neg hkey, Function.update_of_ne (Ne.symm hkey)]
  · intro key' start
    rw [Meter.countIn, Meter.recorded_record huse]
    by_cases hkey : key = key'
    · subst hkey
      rw [if_pos rfl, List.countP_cons]
      by_cases hin : start < now ∧ now ≤ start + L.window
      · rw [if_pos (decide_eq_true hin)]
        exact (h.within key start).record hheld hin
      · rw [if_neg (by simpa using hin)]
        exact (h.within key start).mono (hleft key) le_rfl
    · rw [if_neg hkey]
      exact (h.within key' start).mono (hleft key') le_rfl

theorem Metered.other_step (h : L.Metered P held) (hi : P.threads i = some (task, .call op k))
    (hw : W.logged op P.state ans s') (huse : m.use op = .other) :
    ∃ held', L.Metered { P.setThread i (some (task, k ans)) with state := s' } held' := by
  have hqueue := L.other huse h.good hw.1
  have hafter := (Prog.obeys_other huse).mp (h.obeys i task _ hi) ans
  -- the program keeps what it holds, if it may still use it
  obtain ⟨x, hobeys, hmay, hx⟩ : ∃ x : Option (κ × Int), (k ans).Obeys m x ∧
      (∀ key now, x = some (key, now) → (k ans).MayRecord m key) ∧
      ∀ key now, x = some (key, now) → held i = some (key, now) := by
    cases hheld : held i with
    | none => exact ⟨none, hheld ▸ hafter, by simp, by simp⟩
    | some pair =>
      obtain ⟨key, now⟩ := pair
      rw [hheld] at hafter
      by_cases hrec : (k ans).MayRecord m key
      · refine ⟨some (key, now), hafter, ?_, fun _ _ heq => heq⟩
        intro key' now' heq
        cases heq
        exact hrec
      · exact ⟨none, hafter.to_none hrec, by simp, by simp⟩
  have hkept : ∀ key' j t, Function.update held i x j = some (key', t) → held j = some (key', t) := by
    intro key' j t ht
    obtain ⟨rfl, heq⟩ | ⟨-, hold⟩ := held_update ht
    · exact hx key' t heq
    · exact hold
  refine h.next task hw hobeys hmay ?_ ?_ ?_
  · exact fun key' => (h.room key').mono (hkept key') (by rw [hqueue])
  · exact fun key' => (h.dropped key').cons fun _ hperm => by
      rwa [hqueue, Meter.recorded_other huse]
  · intro key' start
    refine (h.within key' start).mono (hkept key') ?_
    rw [Meter.countIn, Meter.countIn, Meter.recorded_other huse]

end

variable {M : System S (σ × List (Event S)) τ ρ} {P : Pool S (σ × List (Event S)) τ ρ}

/-- Every step that is orderly keeps the invariant. -/
theorem Metered.step (hworld : M.world = W.logged) (hbody : ∀ task, (M.body task).Obeys m none)
    (hrestart : ∀ s s', ¬ M.restart s s') {P' : Pool S (σ × List (Event S)) τ ρ}
    {held : Nat → Option (κ × Int)} {move : Move S τ ρ} (h : L.Metered P held)
    (hmove : L.Orderly P move) (hstep : M.Step P move P') :
    ∃ held', L.Metered P' held' := by
  cases hstep with
  | @start i task hi =>
    have hnone : held i = none := by
      cases hheld : held i with
      | none => rfl
      | some pair =>
        obtain ⟨_, _, hp, -⟩ := h.may i pair.1 pair.2 hheld
        rw [hi] at hp
        cases hp
    refine ⟨held, h.good, ?_, ?_, h.room, h.dropped, h.within⟩
    · intro j task' p hj
      obtain ⟨rfl, heq⟩ | ⟨-, hold⟩ := Pool.of_setThread_some hj
      · cases heq
        rw [hnone]
        exact hbody task
      · exact h.obeys j task' p hold
    · intro j key now hj
      obtain ⟨task', p, hp, hrec⟩ := h.may j key now hj
      refine ⟨task', p, ?_, hrec⟩
      rw [Pool.setThread_other _ _ (fun hji => by rw [hji, hi] at hp; cases hp)]
      exact hp
  | @call i task op k ans s' hi hw =>
    rw [hworld] at hw
    cases huse : m.use op with
    | check key now =>
      obtain ⟨hnow, hpast, hroom⟩ := hmove key now huse
      exact h.check_step hi hw huse hnow hpast hroom
    | record key now => exact h.record_step hi hw huse
    | other => exact h.other_step hi hw huse
    | foreign => exact ((h.obeys i task _ hi).not_foreign huse).elim
  | @finish i task r hi =>
    refine ⟨held, h.good, ?_, ?_, h.room, h.dropped, h.within⟩
    · intro j task' p hj
      exact h.obeys j task' p (Pool.of_setThread_none hj)
    intro j key now hj
    obtain ⟨task', p, hp, hrec⟩ := h.may j key now hj
    refine ⟨task', p, ?_, hrec⟩
    have hji : j ≠ i := by
      rintro rfl
      rw [hi] at hp
      cases hp
      exact hrec
    exact (Pool.setThread_other _ _ hji).trans hp
  | restart hr => exact absurd hr (hrestart _ _)

/-- **No window holds more than the limit**, after any run of orderly steps. -/
theorem countIn_le (hworld : M.world = W.logged) (hbody : ∀ task, (M.body task).Obeys m none)
    (hrestart : ∀ s s', ¬ M.restart s s') {s : σ} (hgood : L.Good s)
    (hempty : ∀ key, L.queue s key = [])
    {allowed : Pool S (σ × List (Event S)) τ ρ → Move S τ ρ → Prop}
    (hallowed : ∀ P move, allowed P move → L.Orderly P move)
    (hrun : M.Run allowed (Pool.initial (s, [])) P) (key : κ) (start : Int) :
    m.countIn key L.window start P.state.2 ≤ L.limit := by
  have hinv : ∃ held, L.Metered P held := by
    induction hrun with
    | refl =>
      -- nobody holds anything, so a set of holders is empty
      refine ⟨fun _ => none, hgood, by simp [Pool.initial], by simp, ?_, ?_, ?_⟩
      · intro key' J hJ
        obtain rfl : J = ∅ := Finset.eq_empty_of_forall_notMem fun j hj => by simpa using hJ j hj
        simp [Pool.initial, hempty]
      · exact fun key' => ⟨[], by simp [Pool.initial, hempty, Meter.recorded], by simp⟩
      · intro key' start' J hJ
        obtain rfl : J = ∅ := Finset.eq_empty_of_forall_notMem fun j hj => by simpa using hJ j hj
        simp [Pool.initial, Meter.countIn, Meter.recorded]
    | tail _ hmove hstep ih =>
      obtain ⟨held, h⟩ := ih
      exact Metered.step L hworld hbody hrestart h (hallowed _ _ hmove) hstep
  obtain ⟨held, h⟩ := hinv
  simpa using h.within key start ∅ (by simp)

end Limiter

/-! ## 4. Runs on a few threads -/

namespace Limiter

variable {S : Sig} {κ σ τ ρ : Type} [DecidableEq κ] {m : Meter S κ} {W : World S σ} (L : Limiter m W)

/-- A turn is in order if there is room for all who are there, or for none, and its time is not before
    those of earlier checks. -/
def fits (slots : List Nat) (P : Pool S (σ × List (Event S)) τ ρ) : Turn τ → Bool
  | .start _ _ => true
  | .go i =>
    match P.threads i with
    | some (_, .call op _) =>
      match m.use op with
      | .check key now => decide (0 ≤ now) && (m.checked key P.state.2).all (· ≤ now) &&
          (decide (L.limit ≤ (L.kept P.state.1 key now).length) ||
            decide ((L.kept P.state.1 key now).length
              + (slots.filter fun j => j != i && (P.threads j).isSome).length < L.limit))
      | _ => true
    | _ => true

variable {L} {slots : List Nat} {P : Pool S (σ × List (Event S)) τ ρ} {turn : Turn τ}

theorem grants_of_fits (hslots : P.OnlyIn slots)
    (h : L.fits slots P turn = true) : System.Grants L.Orderly P turn := by
  cases turn with
  | start i task => trivial
  | go i =>
    refine ⟨fun task op k ans hi key now huse => ?_, fun _ => trivial⟩
    simp only [fits, hi, huse, Bool.and_eq_true, Bool.or_eq_true, decide_eq_true_eq,
      List.all_eq_true] at h
    obtain ⟨⟨hnow, hpast⟩, hroom⟩ := h
    refine ⟨hnow, hpast, ?_⟩
    rintro ⟨hbelow, J, hJ, hfull⟩
    -- whoever may still record is in one of the slots
    have hsub : J ⊆ (slots.filter fun j => j != i && (P.threads j).isSome).toFinset := by
      intro j hj
      obtain ⟨hne, task', p, hp, -⟩ := hJ j hj
      have hin : j ∈ slots := by
        by_contra hout
        rw [hslots j hout] at hp
        cases hp
      simp [hin, hne, hp]
    have hcard := (Finset.card_le_card hsub).trans (List.toFinset_card_le _)
    omega

end Limiter

end Svidlet.Lib
