import Svidlet.Lib.Session
import Svidlet.Volume.Publications

/-!
# A publish that stops

A publish may stop before any of its calls: because one has failed, or because the process has died.
`Stops` is all the states this can leave, and `Left` the volumes that any number of such calls, of
all three kinds, can leave behind.

> **Between two calls** every chain is sound, and no generation has the number 0 (`Left.inv`).
> **Where a call stops**, what is seen through its link is as it was or is the new generation,
> whole; as long as the link has not been renamed it is as it was.
> **The next call** finds a free number whatever was left, so it succeeds if nothing fails.

The last is where the numbers matter. A volume that has used up the numbers has no free one after
them; below that the count may wrap to 0 once, and 0 is free.
-/

namespace Svidlet.Volume

open Lib Lib.FileTree Policy

/-! ## 1. The chains have nothing in common -/

def chains : List Chain := [identityChain, policyChain, tokenChain]

theorem Publication.chain_mem (p : Publication) : p.chain ∈ chains := by
  cases p <;> simp [chain, chains]

theorem prefix_of_versionOf {name pre : String} (h : (versionOf name pre).isSome) :
    pre.toList <+: name.toList := by
  unfold versionOf at h
  cases hstrip : stripPrefix name pre with
  | none =>
    rw [hstrip] at h
    cases h
  | some rest => exact ⟨rest.toList, (toList_of_stripPrefix hstrip).symm⟩

/-- No name belongs to two chains. -/
theorem owns_apart {c c' : Chain} (hc : c ∈ chains) (hc' : c' ∈ chains) (hne : c ≠ c') {x : String}
    (h : c.Owns x) : ¬ c'.Owns x := by
  have hnames : ∀ c ∈ chains, ∀ c' ∈ chains, c ≠ c' → ∀ x ∈ c.link :: tmpName c.link :: c.visible,
        x ∉ c'.link :: tmpName c'.link :: c'.visible ∧ versionOf x c'.pre = none := by decide
  have hpre : ∀ c ∈ chains, ∀ c' ∈ chains, c ≠ c' → ¬ c.pre.toList <+: c'.pre.toList := by decide
  rintro (h' | h')
  · rcases h with h | h
    · exact (hnames c hc c' hc' hne x h).1 h'
    · have hnone := (hnames c' hc' c hc hne.symm x h').2
      rw [Chain.IsVersion, hnone] at h
      cases h
  rcases h with h | h
  · rw [Chain.IsVersion, (hnames c hc c' hc' hne x h).2] at h'
    cases h'
  rcases List.prefix_or_prefix_of_prefix (prefix_of_versionOf h) (prefix_of_versionOf h') with
    hle | hle
  · exact hpre c hc c' hc' hne hle
  · exact hpre c' hc' c hc hne.symm hle

/-- What one chain does is elsewhere for the others. -/
theorem elsewhere_of_within {c c' : Chain} (hc : c ∈ chains) (hc' : c' ∈ chains) (hne : c ≠ c')
    {a b : VolTree} (h : Within c.Mine a b) : Elsewhere c'.Mine a b := by
  refine h.elsewhere ?_
  rintro q ⟨x, rest, rfl, hx⟩ ⟨y, rest', he, hy⟩
  obtain rfl := (List.cons.inj he).1
  exact owns_apart hc hc' hne hy hx

/-! ## 2. What earlier calls leave -/

/-- The volumes that calls of the three functions leave, however they have ended. Each call found
    the numbers of its chain below the last one. -/
inductive Left : VolTree → Prop where
  | fresh (mode : Nat) : Left ⟨[([], .dir mode)], 0⟩
  | stop {p : Publication} {t t' : VolTree} : Left t → p.chain.Below t →
      Stops (Faulty fun _ => True) p.run.run t t' → Left t'

theorem Left.inv {t : VolTree} (h : Left t) : ∀ c ∈ chains, c.Sound t ∧ c.Positive t := by
  induction h with
  | fresh mode =>
    have hnone : ∀ x : String, (⟨[([], .dir mode)], 0⟩ : VolTree).get [x] = none :=
      fun x => get_fresh (by simp)
    intro c _
    refine ⟨⟨wellFormed_fresh mode 0, ?_, ?_, ?_⟩, ?_⟩
    · intro node hnode
      rw [hnone] at hnode
      cases hnode
    · intro node hnode
      rw [hnone] at hnode
      cases hnode
    · intro x _ node hnode
      rw [hnone] at hnode
      cases hnode
    · intro name hne
      exact absurd (hnone name) hne
  | @stop p t t' _ hbelow hstop ih =>
    have hmem := p.chain_mem
    obtain ⟨hsound, hpos⟩ := ih p.chain hmem
    obtain ⟨n, hlt, hn, hstep⟩ := p.stops hsound hstop
    intro c hc
    by_cases hpc : p.chain = c
    · subst hpc
      refine ⟨hstep.sound, ?_⟩
      intro name hne hzero
      have hver : p.chain.IsVersion name := by
        rw [Chain.IsVersion, hzero]
        rfl
      rcases hstep.versions name hver hne with rfl | hold
      · rw [versionOf_versionName hlt] at hzero
        exact hn hbelow (Option.some.inj hzero)
      · exact hpos name hold hzero
    · have hR := elsewhere_of_within hmem hc hpc hstep.within
      exact ⟨Chain.Sound.stable t t' hR (ih c hc).1, Chain.Positive.stable t t' hR (ih c hc).2⟩

/-! ## 3. What a reader sees -/

namespace Chain

/-- What a reader finds at a path below the chain's link. -/
def seen (c : Chain) (t : VolTree) (rest : Path) : Option (Node ByteArray) :=
  match t.resolve true [c.link] with
  | .ok dir => t.get (dir ++ rest)
  | .error _ => none

/-- Readers see nothing new. -/
def Unseen (c : Chain) (t t' : VolTree) : Prop := ∀ rest, c.seen t' rest = c.seen t rest

/-- The link leads to exactly these directories and files, and so do the visible names. -/
def Displays (c : Chain) (t : VolTree) (dirs : List Path) (files : List (Path × ByteArray)) : Prop :=
  ∃ dir, t.resolve true [c.link] = .ok dir ∧ Built t dir dirs files ∧
    ∀ x ∈ c.visible, t.resolve true [x] = .ok (dir ++ [x])

variable {c : Chain} {t t' : VolTree} {v : String} {dirs : List Path}
  {files : List (Path × ByteArray)}

theorem resolve_link {d : String} (hroot : t.IsDir []) (hlink : t.get [c.link] = some (.symlink [d]))
    (hdir : t.IsDir [d]) : t.resolve true [c.link] = .ok [d] := by
  obtain ⟨rootMode, hroot⟩ := hroot
  obtain ⟨mode, hdir⟩ := hdir
  unfold resolve
  rw [hroot]
  simp [walkLimit, walk, hlink, hdir]

theorem seen_of_link {d : String} (h : c.Sound t) (hlink : t.get [c.link] = some (.symlink [d]))
    (rest : Path) : c.seen t rest = t.get (d :: rest) := by
  obtain ⟨d', hd, -, hdir⟩ := h.link _ hlink
  obtain rfl : d = d' := by simpa using hd
  simp [seen, resolve_link h.wellFormed.root hlink hdir]

theorem seen_of_none (h : c.Sound t) (hlink : t.get [c.link] = none) (rest : Path) :
    c.seen t rest = none := by
  have hr : t.resolve true [c.link] = .ok [c.link] :=
    t.resolve_of_dirs h.wellFormed.root (by simp [walkLimit]) trivial (by simp [hlink])
  rw [seen, hr]
  exact h.wellFormed.none_of_none hlink (List.prefix_append _ rest)

theorem Same.unseen (h : c.Same t t') (hs : c.Sound t) (hs' : c.Sound t') : c.Unseen t t' := by
  intro rest
  cases hlink : t.get [c.link] with
  | none => rw [seen_of_none hs hlink, seen_of_none hs' (h.link.trans hlink)]
  | some node =>
    obtain ⟨d, rfl, -⟩ := hs.link node hlink
    rw [seen_of_link hs hlink, seen_of_link hs' (h.link.trans hlink)]
    exact h.behind d hlink rest

theorem Shows.displays (h : c.Shows t v dirs files) : c.Displays t dirs files := by
  have hroot := h.built.wellFormed.root
  refine ⟨[v], resolve_link hroot h.link h.built.top, h.built, ?_⟩
  intro x hx
  obtain ⟨rootMode, hroot⟩ := hroot
  obtain ⟨mode, hdir⟩ := h.built.top
  have hnolink : ∀ dest, t.get [v, x] ≠ some (.symlink dest) := h.built.holds.noLinks [x]
  unfold resolve
  rw [hroot]
  cases hget : t.get [v, x] with
  | none => simp [walkLimit, walk, h.visible x hx, h.link, hdir, hget]
  | some node =>
    cases node with
    | symlink dest => exact absurd hget (hnolink dest)
    | dir m => simp [walkLimit, walk, h.visible x hx, h.link, hdir, hget]
    | file ino content m g => simp [walkLimit, walk, h.visible x hx, h.link, hdir, hget]

end Chain

/-! ## 4. One call that stops, and the next -/

/-- A publish with valid content that meets no fault succeeds and shows its content. -/
theorem Publication.succeeds (q : Publication) (hvalid : q.Valid) {t t' : VolTree}
    (hs : q.chain.Sound t) (hpos : q.chain.Positive t) {tr : List (Event (FsSig ByteArray))}
    {r : Except IoError Unit} (hrun : Exec Exact q.run.run t tr r t') :
    r = .ok () ∧ q.chain.Displays t' q.dirs q.files := by
  have hfaulty : Sat (Faulty fun _ => False) (Elsewhere q.chain.Mine) q.Step
      (fun r t' => Ends (q.Sure (fun _ => False) t) r fun _ => q.IsShown t') q.run.run t := q.sat hs
  have hexact : Sat Exact (Elsewhere q.chain.Mine) q.Step
      (fun r t' => Ends (q.Sure (fun _ => False) t) r fun _ => q.IsShown t') q.run.run t :=
    hfaulty.mono_world fun _ _ _ _ hw => .inl hw
  obtain ⟨hshown, hok⟩ := hexact.post (Elsewhere.refl _) hrun
  obtain ⟨u, rfl⟩ := hok ⟨fun _ hm => hm, hvalid, hpos⟩
  obtain ⟨v, -, hshows⟩ := hshown u rfl
  exact ⟨rfl, hshows.displays⟩

theorem exact_answers (op : FsOp ByteArray) (t : VolTree) : Exact op t (t.exec op).1 (t.exec op).2 :=
  ⟨SameAnswer.refl op _, rfl⟩

/-- Wherever a publish stops, readers see what they saw before or all of the new content; before the
    rename it is what they saw before; and the next publish, of any of the chains, succeeds if its
    content is valid and nothing fails, and then shows exactly that. -/
theorem publish_stops_whole (p : Publication) {t t' : VolTree} (hleft : Left t)
    (hbelow : p.chain.Below t) (hstop : Stops (Faulty fun _ => True) p.run.run t t') :
    (p.chain.Unseen t t' ∨ p.chain.Displays t' p.dirs p.files) ∧
      (t'.get [p.chain.link] = t.get [p.chain.link] → p.chain.Unseen t t') ∧
      ∀ q : Publication, q.Valid → (∃ tr r t'', Exec Exact q.run.run t' tr r t'') ∧
          ∀ tr r t'', Exec Exact q.run.run t' tr r t'' →
            r = .ok () ∧ q.chain.Displays t'' q.dirs q.files := by
  have hsound := (hleft.inv p.chain p.chain_mem).1
  obtain ⟨n, -, -, hstep⟩ := p.stops hsound hstop
  refine ⟨?_, ?_, ?_⟩
  · rcases hstep.shows with hsame | ⟨-, hshows⟩
    · exact .inl (hsame.unseen hsound hstep.sound)
    · exact .inr hshows.displays
  · intro hlink
    rcases hstep.shows with hsame | ⟨hhidden, hshows⟩
    · exact hsame.unseen hsound hstep.sound
    · exact absurd (hlink ▸ hshows.link) hhidden
  · intro q hvalid
    obtain ⟨hs, hpos⟩ := (hleft.stop hbelow hstop).inv q.chain q.chain_mem
    exact ⟨⟨_, _, _, Prog.play_exec exact_answers q.run.run t'⟩,
      fun tr r t'' hrun => q.succeeds hvalid hs hpos hrun⟩

def firstIdentity : Publication := .identity ⟨"key 1", "chain 1", "ca 1"⟩ ⟨0o640, 0o644, none⟩

/-- The volume after a first publish. -/
def afterFirst : VolTree :=
  (firstIdentity.run.run.play (fun op t => t.exec op) ⟨[([], .dir 0o755)], 0⟩).2.2

/-- A volume without room for a file. -/
def noRoom : (op : FsOp ByteArray) → VolTree → op.Ans × VolTree
  | .openTruncate _ _, t => (.error (.other "No space left on device"), t)
  | op, t => t.exec op

theorem noRoom_faulty (op : FsOp ByteArray) (t : VolTree) :
    Faulty (fun _ => True) op t (noRoom op t).1 (noRoom op t).2 := by
  cases op with
  | openTruncate p mode => exact .inr ⟨trivial, ⟨_, rfl⟩, rfl⟩
  | _ => exact .inl (exact_answers _ t)

def nextIdentity : Publication := .identity ⟨"key 2", "chain 2", "ca 2"⟩ ⟨0o640, 0o644, none⟩

/-- The volume after a publish, and one that has found no room. -/
def afterFull : VolTree := (nextIdentity.run.run.play noRoom afterFirst).2.2

/-- And then one that the process has not survived: it had made the temporary link. -/
def afterCrash : VolTree := nextIdentity.run.run.playFor (fun op t => t.exec op) 21 afterFull

theorem Chain.below_of_entries {c : Chain} {t : VolTree}
    (h : ∀ e ∈ t.entries, ∀ name ∈ e.1, (versionOf name c.pre).all (· < 2 ^ 64 - 1) = true) :
    c.Below t := by
  intro name n hne hn
  obtain ⟨node, hnode⟩ := Option.ne_none_iff_exists'.mp hne
  simpa [hn] using h _ (find_mem hnode) name (by simp)

theorem afterFull_left : Left afterFull := by
  have hfirst : Left afterFirst := by
    refine .stop (.fresh 0o755) ?_ (Prog.play_exec (fun op t => .inl (exact_answers op t)) _ _).stops
    intro name n hne
    exact absurd (get_fresh (by simp)) hne
  exact hfirst.stop (Chain.below_of_entries (by decide +kernel)) (Prog.play_exec noRoom_faulty _ _).stops

/-- With a generation on show and what a failed publish has left beside it, a publish stops before its
    rename. -/
theorem publish_stops_whole_crash :
    afterFull.get [dataLink] = some (.symlink ["..svidlet.1"]) ∧ afterFull.IsDir ["..svidlet.2"] ∧
      afterCrash.get [tmpName dataLink] = some (.symlink ["..svidlet.3"]) ∧
      identityChain.Unseen afterFull afterCrash ∧
      ∀ q : Publication, q.Valid → (∃ tr r t'', Exec Exact q.run.run afterCrash tr r t'') ∧
          ∀ tr r t'', Exec Exact q.run.run afterCrash tr r t'' →
            r = .ok () ∧ q.chain.Displays t'' q.dirs q.files := by
  obtain ⟨-, hbefore, hnext⟩ := publish_stops_whole nextIdentity afterFull_left
    (Chain.below_of_entries (by decide +kernel))
    (Prog.playFor_stops (fun op t => .inl (exact_answers op t)) _ 21 _)
  exact ⟨by decide, ⟨0o755, by decide⟩, by decide, hbefore (by decide), hnext⟩

end Svidlet.Volume
