import Svidlet.Lib.Pool
import Svidlet.Volume.Atomic

/-!
# Several publishes on one volume

The renewal loop, the CA refresh and a `NodePublishVolume` call all publish into a volume, from
different threads and with no lock. Each chain has one temporary link, `..data_tmp`, and each
publish collects every generation but its own and the one before: between two publishes that
overlap neither is private.

`publish_race_dangles` is such an overlap. The first publish has made its temporary link; the
second removes it and makes its own; the first renames *that* one into place, and then deletes, as
a version that is neither its own nor the one before, the very generation `..data` now points at.

With a publish starting only when none is in progress the property holds in every run, whatever
was published before (`locked_publishes_show_one_call`). The token chain of the same file is
written under such a lock.
-/

namespace Svidlet.Volume

open Lib Lib.FileTree

/-- A call of `publish_identity`: what it publishes and with which modes. -/
abbrev PublishCall := Identity × Modes

/-- Calls of `publish_identity` on one volume, where filesystem calls fail only because of what
    other calls have done. -/
def publishSystem : System (FsSig ByteArray) VolTree PublishCall (Except IoError Unit) where
  world := Exact
  body call := (publishIdentity call.1 call.2).run
  restart _ _ := False

/-- The pools of such calls. -/
abbrev PublishPool := Pool (FsSig ByteArray) VolTree PublishCall (Except IoError Unit)

/-- The call has been made in this run. -/
def Made (P : PublishPool) (call : PublishCall) : Prop :=
  (∃ r, (call, r) ∈ P.returned) ∨ ∃ i p, P.threads i = some (call, p)

/-- Some call has returned `Ok`. -/
def SomeOk (P : PublishPool) : Prop := ∃ call, (call, Except.ok ()) ∈ P.returned

/-- A call starts only when no other is in progress. -/
def OneAtATime (P : PublishPool) : Move (FsSig ByteArray) PublishCall (Except IoError Unit) → Prop
  | .start _ _ => P.Idle fun _ => True
  | _ => True

/-- A volume as `ensure_tmpfs` leaves it. -/
def emptyVolume : VolTree := ⟨[([], .dir 0o755)], 0⟩

theorem emptyVolume_sound : Sound emptyVolume := by
  intro dest h
  cases h

theorem exact_exec (o : FsOp ByteArray) (t : VolTree) :
    publishSystem.world o t (t.exec o).1 (t.exec o).2 := ⟨SameAnswer.refl o _, rfl⟩

/-- Play a schedule of calls on an empty volume. -/
def playPublishes (turns : List (Turn PublishCall)) : PublishPool :=
  publishSystem.play (fun o t => t.exec o) (Pool.initial emptyVolume) turns

def firstCall : PublishCall := (⟨"key 1", "chain 1", "ca 1"⟩, ⟨0o640, 0o644, none⟩)
def secondCall : PublishCall := (⟨"key 2", "chain 2", "ca 2"⟩, ⟨0o640, 0o644, none⟩)

/-! ## 1. One at a time -/

/-- Nobody else writes while a call runs; each of its steps keeps what is on show, whole. -/
def publishContract : Contract VolTree PublishCall (Except IoError Unit) where
  rely _ := (· = ·)
  guar call := Guar call.1
  post call r t := r = .ok () → Published t call.1
  rely_refl _ _ := rfl
  rely_trans _ _ _ _ h₁ h₂ := h₁.trans h₂

/-- A sound volume, at most one call, and after the first success a whole identity on show. -/
structure LockInv (P : PublishPool) : Prop where
  sound : Sound P.state
  alone : ∀ i j, P.threads i ≠ none → P.threads j ≠ none → i = j
  shown : SomeOk P → ∃ call, Made P call ∧ Published P.state call.1

theorem publishContract_sound : publishContract.Sound publishSystem OneAtATime LockInv where
  start := by
    intro P i call hI _ hidle hfree
    have hnone : ∀ j, P.threads j = none := by
      intro j
      cases hj : P.threads j with
      | none => rfl
      | some th => exact absurd trivial (hidle j th.1 th.2 hj)
    refine ⟨⟨hI.sound, ?_, ?_⟩, ?_⟩
    · intro j j' hj hj'
      by_contra hne
      rcases ne_or_eq j i with h | h
      · exact hj (by rw [P.setThread_other _ h]; exact hnone j)
      · refine hj' ?_
        rw [P.setThread_other _ fun h' => hne (h.trans h'.symm)]
        exact hnone j'
    · intro hok
      obtain ⟨call', hmade, hpub⟩ := hI.shown hok
      refine ⟨call', ?_, hpub⟩
      rcases hmade with hr | ⟨j, p, hj⟩
      · exact .inl hr
      · rw [hnone j] at hj
        cases hj
    · have hwatch : Watch (Faulty fun _ => False) (Guar call.1)
          (fun r t => r = .ok () → Published t call.1) (publishIdentity call.1 call.2).run P.state :=
        publishIdentity_watch hI.sound
      exact .mono_world (fun _ _ _ _ hw => .inl hw) hwatch
  call := by
    intro P i call o k ans t' hI _ _ hi hw hguar
    have halone : ∀ j, j ≠ i → P.threads j = none := by
      intro j hji
      by_contra hj
      exact hji (hI.alone j i hj (by rw [hi]; simp))
    obtain ⟨hsound, hkeep⟩ := hguar hI.sound
    have hmade : ∀ call', Made P call' →
        Made { P.setThread i (some (call, k ans)) with state := t' } call' :=
      fun _ hmade => (System.Step.call hi hw).started (fun _ _ h => h) hmade
    refine ⟨⟨hsound, ?_, ?_⟩, ?_⟩
    · intro j j' hj hj'
      have hto : ∀ j, (P.setThread i (some (call, k ans))).threads j ≠ none → j = i := by
        intro j hj
        by_contra hji
        exact hj (by rw [P.setThread_other _ hji]; exact halone j hji)
      exact (hto j hj).trans (hto j' hj').symm
    · intro hok
      obtain ⟨call', hm, hpub⟩ := hI.shown hok
      rcases hkeep _ hpub with hpub | hpub
      · exact ⟨call', hmade call' hm, hpub⟩
      · exact ⟨call, .inr ⟨i, k ans, P.setThread_same i _⟩, hpub⟩
    · intro j call' p hji hj
      rw [halone j hji] at hj
      cases hj
  finish := by
    intro P i call r hI _ _ hi hpost
    refine ⟨hI.sound, ?_, ?_⟩
    · intro j j' hj hj'
      have hback : ∀ j, (P.setThread i none).threads j ≠ none → P.threads j ≠ none := by
        intro j hj
        by_cases hji : j = i
        · subst hji
          simp at hj
        · rwa [P.setThread_other _ hji] at hj
      exact hI.alone j j' (hback j hj) (hback j' hj')
    · rintro ⟨call', hmem⟩
      rcases List.mem_cons.mp hmem with he | hmem
      · obtain ⟨rfl, rfl⟩ : call' = call ∧ .ok () = r := by simpa using he
        exact ⟨call', .inl ⟨_, .head _⟩, hpost rfl⟩
      obtain ⟨call'', hm, hpub⟩ := hI.shown ⟨call', hmem⟩
      exact ⟨call'', (System.Step.finish (M := publishSystem) hi).started (fun _ _ h => h) hm, hpub⟩
  restart := by
    intro P t' _ _ hr
    exact hr.elim

/-- When each call starts only after the one before has ended, `..data` resolves, at every moment
    after the first success, to a directory with the whole identity of one call. -/
theorem locked_publishes_show_one_call {t : VolTree} {P : PublishPool} (hsound : Sound t)
    (hrun : publishSystem.Run OneAtATime (Pool.initial t) P) (hok : SomeOk P) :
    ∃ call, Made P call ∧ Shows P.state call.1 := by
  have hinit : LockInv (Pool.initial t) := by
    refine ⟨hsound, fun _ _ h => absurd rfl h, ?_⟩
    rintro ⟨call, hmem⟩
    cases hmem
  have hinv := (hrun.safe publishContract_sound hinit (publishContract.kept_initial _ _)).1
  obtain ⟨call, hmade, hpub⟩ := hinv.shown hok
  exact ⟨call, hmade, hpub.shows⟩

/-- Two calls have returned and a third has begun to fill its generation. -/
def inTurn : List (Turn PublishCall) :=
  .start 0 firstCall :: List.replicate 28 (.go 0) ++ .start 0 secondCall :: List.replicate 28 (.go 0) ++
    .start 0 firstCall :: List.replicate 12 (.go 0)

theorem locked_publishes_show_one_call_third :
    (playPublishes inTurn).returned = [(secondCall, .ok ()), (firstCall, .ok ())] ∧
      ∃ call, Made (playPublishes inTurn) call ∧ Shows (playPublishes inTurn).state call.1 := by
  have hreturned : (playPublishes inTurn).returned = [(secondCall, .ok ()), (firstCall, .ok ())] := by
    decide +kernel
  have hpass : publishSystem.passes (fun o t => t.exec o) [0] (Pool.beside [0] fun _ _ => false)
      (Pool.initial emptyVolume) inTurn = true := by decide +kernel
  refine ⟨hreturned, locked_publishes_show_one_call emptyVolume_sound (System.play_run exact_exec ?_
    .refl (fun _ _ => rfl) hpass).1 ⟨firstCall, by simp [hreturned]⟩⟩
  refine fun P turn hP h => hP.grants h ?_ (fun _ _ _ => trivial) fun _ _ => trivial
  intro i call hnone j other p hj
  cases hnone j other p hj

/-! ## 2. Overlapping -/

/-- The first call runs up to its rename; the second starts and runs up to its own; the first
    renames, collects and returns. -/
def raceSchedule : List (Turn PublishCall) := .start 0 firstCall :: List.replicate 24 (.go 0) ++
    .start 1 secondCall :: List.replicate 21 (.go 1) ++ List.replicate 5 (.go 0)

/-- Two overlapping calls: the first has returned `Ok`, and `..data` points at nothing. -/
theorem publish_race_dangles :
    publishSystem.Run (fun _ _ => True) (Pool.initial emptyVolume) (playPublishes raceSchedule) ∧
      SomeOk (playPublishes raceSchedule) ∧
      ¬ ∃ identity, Shows (playPublishes raceSchedule).state identity := by
  have hpass : publishSystem.passes (fun o t => t.exec o) [0, 1] (fun _ _ => true)
      (Pool.initial emptyVolume) raceSchedule = true := by decide +kernel
  refine ⟨(System.play_run exact_exec (fun _ _ _ _ => System.grants_all _ _) .refl (fun _ _ => rfl)
    hpass).1, ⟨firstCall, ?_⟩, ?_⟩
  · have hreturned : (playPublishes raceSchedule).returned = [(firstCall, .ok ())] := by
      decide
    rw [hreturned]
    exact .head _
  rintro ⟨identity, dir, hres, ⟨mode, hdir⟩, _⟩
  have hlink : (playPublishes raceSchedule).state.resolve true [dataLink]
      = .ok ["..svidlet.2"] := by decide
  have hgone : ((playPublishes raceSchedule).state.get ["..svidlet.2"]).isNone := by
    decide
  rw [hlink] at hres
  cases hres
  rw [hdir] at hgone
  cases hgone

end Svidlet.Volume
