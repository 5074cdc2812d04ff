import Svidlet.Daemon.Applied
import Svidlet.Lib.Trim

/-!
# A second pass

`Daemon::apply` runs at every scan, and is to cost nothing when nothing has changed: a volume that shows its
bundle's revision is skipped. The revision goes to disk as a line and comes back without the white space
around it, and an empty one comes back as none. So what was just written need not look written:

> a second pass skips every volume  ⇔  every bundle it would write has a revision that is not empty and
> neither begins nor ends with white space (`Bare`).

The proof looks at what the first pass left. A volume that it skipped showed the revision, which then is bare
(`Marked.bare`), and a volume that it wrote shows the bundle, which reads as its revision exactly if that is
bare (`marked_iff_bare`).

A revision is opaque to svidlet by its own description: it is compared for equality only, and never parsed.
-/

namespace Svidlet.Daemon

open Lib Lib.FileTree Issue Policy Volume

/-! ## 1. Revisions that are read as they were written -/

def Bare (revision : String) : Prop := trim revision = revision ∧ revision ≠ ""

theorem trim_line (revision : String) : trim (revision ++ "\n") = trim revision :=
  trim_append (List.all_eq_true.mp (by decide))

section

variable {may : FsOp ByteArray → Prop} {t t' : VolTree} {bundle : PolicyBundle}

/-- A revision that was read is bare. -/
theorem Marked.bare (h : Marked bundle t) : Bare bundle.revision := by
  obtain ⟨shown, -, htrim, hne⟩ := h
  refine ⟨?_, hne⟩
  rw [← htrim, trim_trim]

theorem Published.marked (h : Published bundle t) (hbare : Bare bundle.revision) : Marked bundle t := by
  refine ⟨bundle, h, ?_, hbare.2⟩
  rw [trim_line, hbare.1]

/-- After a pass a volume looks current exactly if the revision of its bundle is bare. -/
theorem Settled.marked_iff_bare (h : Settled may bundle t t') :
    Marked bundle t' ↔ Bare bundle.revision := by
  refine ⟨Marked.bare, fun hbare => ?_⟩
  rcases h with ⟨hsame, hmarked⟩ | ⟨hshown, -⟩
  · rw [hsame]
    exact hmarked
  · exact hshown.marked hbare

end

/-! ## 2. A pass that writes nothing -/

section

variable {E : RegexEngine} {settings : Settings E} {may : FsOp ByteArray → Prop}
  {s s' : DaemonState} {tr : List (Event DaemonSig)}

/-- The volume looks current to the daemon. -/
def LooksCurrent (s : DaemonState) (target : String) (id : SpiffeId) : Prop :=
  ∀ bundle, s.bundle id = some bundle → Marked bundle (s.disk target)

/-- One round writes nothing exactly if the volume looks current, and then changes nothing. -/
theorem AppliedTo.idle_iff {target : String} {id : SpiffeId} {wrote : Bool}
    (hread : ∀ p, ¬ may (.readFile p)) (hno : NoFailure tr)
    (h : AppliedTo may s target id tr wrote s') :
    (wrote = false ↔ LooksCurrent s target id) ∧ (wrote = false → s' = s) := by
  cases h with
  | nothing hnone =>
    refine ⟨⟨fun _ bundle hb => ?_, fun _ => rfl⟩, fun _ => rfl⟩
    rw [hnone] at hb
    cases hb
  | skipped hheld hmarked =>
    refine ⟨⟨fun _ bundle hb => ?_, fun _ => rfl⟩, fun _ => rfl⟩
    obtain rfl := Option.some.inj (hheld.symm.trans hb)
    exact hmarked
  | written hheld _ _ hnot =>
    refine ⟨⟨nofun, fun hall => ?_⟩, nofun⟩
    exact absurd (hall _ hheld) (hnot hread)
  | failed _ hfailed => exact absurd hno hfailed

/-- A pass over some of the volumes counts up, and stays where it was exactly if all of them look
    current; then it changes nothing. -/
theorem applyEach_idle_iff {volumes : List (String × SpiffeId)} {written n : Nat}
    (hread : ∀ p, ¬ may (.readFile p)) (h : Inv s) (hno : NoFailure tr)
    (hrun : Exec (daemonWorld may) (applyEach settings volumes written) s tr n s') :
    written ≤ n ∧ (n = written ↔ ∀ volume ∈ volumes, LooksCurrent s volume.1 volume.2) ∧
      (n = written → s' = s) := by
  induction volumes generalizing s tr written with
  | nil =>
    cases hrun
    exact ⟨Nat.le_refl _, ⟨fun _ _ hin => absurd hin List.not_mem_nil, fun _ => rfl⟩, fun _ => rfl⟩
  | cons volume volumes ih =>
    obtain ⟨target, id⟩ := volume
    unfold applyEach at hrun
    obtain ⟨tr1, tr2, wrote, s1, rfl, hone, hrest⟩ := Exec.bind_inv hrun
    have hcases := applyTo_cases h hone
    have hno1 : NoFailure tr1 := fun ev hev => hno ev (List.mem_append_left _ hev)
    have hno2 : NoFailure tr2 := fun ev hev => hno ev (List.mem_append_right _ hev)
    obtain ⟨hidle, hsame⟩ := hcases.idle_iff hread hno1
    rw [List.forall_mem_cons]
    cases wrote with
    | true =>
      -- the count has gone up, and never comes back
      obtain ⟨t1, rfl, htidy, -⟩ := hcases.settles h
      obtain ⟨hle, -⟩ := ih (h.withDisk htidy) hno2 hrest
      have hnot : ¬ LooksCurrent s target id := fun hlooks => by cases hidle.mpr hlooks
      exact ⟨by omega, ⟨fun heq => by omega, fun hall => absurd hall.1 hnot⟩, fun heq => by omega⟩
    | false =>
      obtain rfl := hsame rfl
      obtain ⟨hle, hiff, hback⟩ := ih h hno2 hrest
      refine ⟨hle, ?_, hback⟩
      rw [hiff]
      exact ⟨fun hall => ⟨hidle.mp rfl, hall⟩, fun hall => hall.2⟩

/-- **The second of two passes rewrites no volume exactly when the revisions are bare**: those of the
    bundles that the manager has for the volumes of the node. No write fails in either pass, and the
    revision on disk can be read. -/
theorem second_pass_writes_nothing_iff {s₁ s₂ : DaemonState} {tr₁ tr₂ : List (Event DaemonSig)}
    {n₁ n₂ : Nat} (hreached : Reached settings may s) (hread : ∀ p, ¬ may (.readFile p))
    (hfirst : Exec (daemonWorld may) (apply settings) s tr₁ n₁ s₁) (hno₁ : NoFailure tr₁)
    (hsecond : Exec (daemonWorld may) (apply settings) s₁ tr₂ n₂ s₂) (hno₂ : NoFailure tr₂) :
    (n₂ = 0 ∧ s₂ = s₁) ↔
      ∀ target id, (target, id) ∈ s.known.entries → ∀ bundle, s.bundle id = some bundle →
        Bare bundle.revision := by
  obtain ⟨tr₁', hpass₁, hkept₁⟩ := apply_run hfirst
  obtain ⟨tr₂', hpass₂, hkept₂⟩ := apply_run hsecond
  obtain ⟨hinv, hstream, hknown, -, hsettled⟩ := applyEach_run s.known.once hreached.inv hpass₁
  obtain ⟨-, hidle, hsame⟩ := applyEach_idle_iff hread hinv (hkept₂ hno₂) hpass₂
  have hbundle : ∀ id, s₁.bundle id = s.bundle id := by
    intro id
    rw [DaemonState.bundle, hstream]
    rfl
  have hboth : (n₂ = 0 ∧ s₂ = s₁) ↔ n₂ = 0 := ⟨fun h => h.1, fun h => ⟨h, hsame h⟩⟩
  rw [hboth, hidle, hknown]
  constructor
  · intro hall target id hin bundle hb
    have hmarked := hall (target, id) hin bundle ((hbundle id).trans hb)
    exact hmarked.bare
  · intro hall volume hin bundle hb
    rw [hbundle] at hb
    have hset := hsettled (hkept₁ hno₁) volume.1 volume.2 hin bundle hb
    exact hset.marked_iff_bare.mpr (hall volume.1 volume.2 hin bundle hb)

end

/-! One volume, whose identity is sent one bundle. -/

/-- A pass over the one volume. -/
def passFrom (s : DaemonState) : List (Event DaemonSig) × Nat × DaemonState :=
  (apply oneSettings).play (DaemonOp.answer ["a"]) s

theorem passFrom_exec (may : FsOp ByteArray → Prop) (s : DaemonState) :
    Exec (daemonWorld may) (apply oneSettings) s (passFrom s).1 (passFrom s).2.1 (passFrom s).2.2 :=
  Prog.play_exec (DaemonOp.answer_does ["a"] may) (apply oneSettings) s

/-- The daemon after a scan and an update. -/
def informed (revision : String) : DaemonState := daemonAfter [.scan, sendsRevision revision]

theorem informed_reached (may : FsOp ByteArray → Prop) (revision : String) :
    Reached oneSettings may (informed revision) := daemonAfter_reached may _

/-- The daemon after a pass as well. -/
def onceApplied (revision : String) : DaemonState := (passFrom (informed revision)).2.2

theorem second_pass_writes_nothing_r1 : (passFrom (onceApplied "r1")).2.1 = 0 := by
  have hends : (passFrom (informed "r1")).1.all (fun ev => !isFailure ev.op) = true ∧
      (passFrom (onceApplied "r1")).1.all (fun ev => !isFailure ev.op) = true ∧
      (informed "r1").known.entries = [("a", oneId)] ∧
      (informed "r1").bundle oneId = some ⟨"r1", [⟨"x", [1]⟩]⟩ := by
    decide
  obtain ⟨hno₁, hno₂, hknown, hbundle⟩ := hends
  refine ((second_pass_writes_nothing_iff (informed_reached (fun _ => False) "r1") (fun _ => id)
    (passFrom_exec _ (informed "r1")) (noFailure_of_all hno₁) (passFrom_exec _ (onceApplied "r1"))
    (noFailure_of_all hno₂)).mpr ?_).1
  intro target id hin bundle hb
  rw [hknown] at hin
  obtain ⟨rfl, rfl⟩ := Prod.mk.inj (List.mem_singleton.mp hin)
  obtain rfl := Option.some.inj (hbundle.symm.trans hb)
  exact ⟨by decide, by decide⟩

/-- A revision with a blank in front is written again by every pass. -/
theorem blank_revision_is_rewritten :
    ∃ (s s₁ s₂ : DaemonState) (tr₁ tr₂ : List (Event DaemonSig)) (n₁ n₂ : Nat),
      Reached oneSettings (fun _ => False) s ∧
      Exec (daemonWorld fun _ => False) (apply oneSettings) s tr₁ n₁ s₁ ∧ NoFailure tr₁ ∧
      Exec (daemonWorld fun _ => False) (apply oneSettings) s₁ tr₂ n₂ s₂ ∧ NoFailure tr₂ ∧ n₂ = 1 := by
  have hends : (passFrom (informed " r1")).1.all (fun ev => !isFailure ev.op) = true ∧
      (passFrom (onceApplied " r1")).1.all (fun ev => !isFailure ev.op) = true ∧ (passFrom (onceApplied " r1")).2.1 = 1 := by
    decide
  obtain ⟨hno₁, hno₂, hcount⟩ := hends
  exact ⟨_, _, _, _, _, _, _, informed_reached _ " r1", passFrom_exec _ (informed " r1"),
    noFailure_of_all hno₁, passFrom_exec _ (onceApplied " r1"), noFailure_of_all hno₂, hcount⟩

end Svidlet.Daemon
