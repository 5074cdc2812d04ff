import Svidlet.Daemon.Program
import Svidlet.Node.World
import Svidlet.Policy.Inside
import Svidlet.Volume.Reading

/-!
# What a pass leaves

`Daemon::apply` is to leave every volume with the bundle the manager has for it. It looks at one file,
`policy.revision`, and skips a volume that shows the bundle's revision already. The manager tells two
bundles apart by their documents as well, so the two disagree about what a change is:

> **The shortcut.** A volume that shows the revision and other documents is skipped (`Marked`), and it
> stays as it is until the revision changes. The revision is read without the blanks around it, so
> `" r1"` on show counts as `"r1"`.
>
> **Everything else.** A volume that is not skipped shows the bundle after a write that succeeded,
> whatever was there before (`applyTo_cases`).

The histories are those of the daemon from its start: scans, updates of the stream, bundles of the
registry and passes, in any order, with calls that fail, and with svidlet writing the other chains of the
volumes or replacing a volume in between.
-/

namespace Svidlet.Daemon

open Lib Lib.FileTree Issue Policy Volume

/-! ## 1. What a volume shows -/

/-- The volume has on show exactly the bundle's documents and its revision. -/
def Published (bundle : PolicyBundle) (t : VolTree) : Prop :=
  ∃ v, policyChain.Shows t v (policyDirs bundle) (policyFiles bundle)

def Plain (bundle : PolicyBundle) : Prop := ∀ doc ∈ bundle.documents, PlainPath doc.name

/-- The policy of a volume between any two calls of the daemon. -/
structure Tidy (t : VolTree) : Prop where
  sound : policyChain.Sound t
  shown : t.get [policyLink] = none ∨ ∃ bundle, Published bundle t

/-- What is on show has the bundle's revision, as far as a reader of the file can tell. -/
def Marked (bundle : PolicyBundle) (t : VolTree) : Prop :=
  ∃ shown, Published shown t ∧ trim (shown.revision ++ "\n") = bundle.revision ∧ bundle.revision ≠ ""

section

variable {may : FsOp ByteArray → Prop} {t t' : VolTree} {bundle : PolicyBundle}

theorem Tidy.elsewhere (h : Tidy t) (hR : Elsewhere policyChain.Mine t t') : Tidy t' := by
  refine ⟨Chain.Sound.stable t t' hR h.sound, ?_⟩
  rcases h.shown with hnone | ⟨bundle, v, hshows⟩
  · exact .inl ((hR.2 _ Chain.mine_link).trans hnone)
  · exact .inr ⟨bundle, v, Chain.Shows.stable t t' hR hshows⟩

theorem Tidy.step {v : String} (h : Tidy t)
    (hstep : policyChain.Step v (policyDirs bundle) (policyFiles bundle) t t') : Tidy t' := by
  refine ⟨hstep.sound, ?_⟩
  rcases hstep.shows with hsame | ⟨-, hshows⟩
  · rcases h.shown with hnone | ⟨old, w, hshows⟩
    · exact .inl (hsame.link.trans hnone)
    · exact .inr ⟨old, w, hshows.of_same hsame hstep.sound.wellFormed⟩
  · exact .inr ⟨bundle, v, hshows⟩

/-- A volume that publishes have left, wherever they stopped, is tidy. -/
theorem Tidy.of_left (h : Left t) : Tidy t := by
  induction h with
  | fresh mode =>
    exact ⟨((Left.fresh mode).inv policyChain (by simp [chains])).1, .inl (get_fresh (by simp))⟩
  | @stop p t t' hleft hbelow hstop ih =>
    obtain ⟨n, -, -, hstep⟩ := p.stops (hleft.inv p.chain p.chain_mem).1 hstop
    cases p with
    | policy bundle plain mode => exact ih.step hstep
    | identity content modes =>
      exact ih.elsewhere (elsewhere_of_within (by simp [chains]) (by simp [chains])
        (by decide : identityChain ≠ policyChain) hstep.within)
    | tokens entries once modes =>
      exact ih.elsewhere (elsewhere_of_within (by simp [chains]) (by simp [chains])
        (by decide : tokenChain ≠ policyChain) hstep.within)

variable {tr : List (Event (FsSig ByteArray))}

/-- A publish leaves a tidy volume, and if it succeeds the volume shows the bundle. -/
theorem publishPolicy_run {mode : Nat} {r : Except IoError Unit} (h : Tidy t)
    (hplain : Plain bundle) (hrun : Exec (Faulty may) (publishPolicy bundle mode).run t tr r t') :
    Tidy t' ∧ (r = .ok () → Published bundle t') := by
  have hrun : Exec (Faulty may) (Publication.policy bundle hplain mode).run.run t tr r t' := hrun
  constructor
  · obtain ⟨n, -, -, hstep⟩ := (Publication.policy bundle hplain mode).stops h.sound hrun.stops
    exact h.step hstep
  · intro hr
    have hends := ((Publication.policy bundle hplain mode).sat h.sound).post (Elsewhere.refl _) hrun
    obtain ⟨v, hshown⟩ := hends.1 () hr
    exact ⟨v, hshown.2⟩

/-! ## 2. The revision that is read -/

/-- What `published_revision` makes of the answer to its one call. -/
def revisionIn : Except IoError ByteArray → Option String
  | .ok bytes => (String.fromUTF8? bytes).bind fun text =>
    if trim text = "" then none else some (trim text)
  | .error _ => none

theorem publishedRevision_run {r : Option String}
    (hrun : Exec (Faulty may) publishedRevision t tr r t') :
    t' = t ∧ ∃ ans, Faulty may (.readFile [policyLink, revisionFile]) t ans t ∧ r = revisionIn ans := by
  refine hrun.post (Q := fun r t' => t' = t ∧ ∃ ans,
    Faulty may (.readFile [policyLink, revisionFile]) t ans t ∧ r = revisionIn ans) ?_
  unfold publishedRevision readToString
  rw [wp_bind, wp_run_bind]
  refine (wp_op (S := FsSig ByteArray) (o := .readFile [policyLink, revisionFile])).mpr ?_
  intro ans t1 hw
  obtain rfl := Faulty.readFile_same hw
  cases ans with
  | error e => exact ⟨rfl, _, hw, rfl⟩
  | ok bytes =>
    dsimp only
    cases htext : String.fromUTF8? bytes with
    | none => exact ⟨rfl, _, hw, by simp [revisionIn, htext]⟩
    | some text => exact ⟨rfl, _, hw, by simp [revisionIn, htext]⟩

theorem revisionIn_published {shown : PolicyBundle} {ans : Except IoError ByteArray}
    (h : Published shown t) (hw : Faulty may (.readFile [policyLink, revisionFile]) t ans t) :
    ∀ bytes, ans = .ok bytes → bytes = (shown.revision ++ "\n").toUTF8 := by
  intro bytes hans
  subst hans
  obtain ⟨v, hshows⟩ := h
  obtain ⟨q, hr, hfile⟩ := hw.readFile_at
  rw [hshows.through hr] at hfile
  have hcontent := (hshows.built.holds.files [revisionFile] bytes).mp hfile
  simp only [policyFiles, contentOf, if_true, Option.some.injEq] at hcontent
  exact hcontent.symm

/-- A revision that is read is the one of the bundle on show. -/
theorem marked_of_revision (h : Tidy t)
    (hrun : Exec (Faulty may) publishedRevision t tr (some bundle.revision) t') :
    t' = t ∧ Marked bundle t := by
  obtain ⟨rfl, ans, hw, hr⟩ := publishedRevision_run hrun
  refine ⟨rfl, ?_⟩
  cases ans with
  | error e => cases hr
  | ok bytes =>
    rcases h.shown with hnone | ⟨shown, hpublished⟩
    · -- without the link there is no file to read
      obtain ⟨q, hres, hfile⟩ := hw.readFile_at
      have hbelow : ∀ rest, t'.get (policyLink :: rest) = none := fun rest =>
        h.sound.wellFormed.none_of_none hnone (List.prefix_append [policyLink] rest)
      have hl : t'.Linkless [policyLink, revisionFile] := by
        intro a ha dest hlink
        rcases List.prefix_cons_iff.mp ha with rfl | ⟨u, rfl, -⟩
        · obtain ⟨mode, hroot⟩ := h.sound.wellFormed.root
          rw [hroot] at hlink
          cases hlink
        · rw [hbelow u] at hlink
          cases hlink
      rw [resolve_linkless hl hres] at hfile
      obtain ⟨ino, mode, gid, hget⟩ := holdsFile_iff_get.mp hfile
      rw [hbelow] at hget
      cases hget
    · obtain rfl := revisionIn_published hpublished hw bytes rfl
      refine ⟨shown, hpublished, ?_⟩
      rw [revisionIn, fromUTF8_toUTF8, Option.bind_some] at hr
      split at hr
      · cases hr
      rename_i hne
      obtain hr := Option.some.inj hr
      rw [← hr] at hne
      exact ⟨hr.symm, hne⟩

/-- If reads do not fail, a bundle that is marked is read as such. -/
theorem revision_of_marked {r : Option String} (hread : ∀ p, ¬ may (.readFile p))
    (h : Marked bundle t) (hrun : Exec (Faulty may) publishedRevision t tr r t') :
    r = some bundle.revision := by
  obtain ⟨shown, ⟨v, hshows⟩, htrim, hne⟩ := h
  obtain ⟨rfl, ans, hw, rfl⟩ := publishedRevision_run hrun
  rcases hw with hexact | ⟨hmay, -⟩
  · have hcontent : contentOf (policyFiles shown) [revisionFile]
        = some (shown.revision ++ "\n").toUTF8 := by simp [policyFiles, contentOf]
    have hlen : (policyChain.link :: [revisionFile]).length < walkLimit := by simp [walkLimit]
    have hans : ans = .ok (shown.revision ++ "\n").toUTF8 :=
      ((readFile_returns hshows hlen).2 _ ans _ (.call hexact .pure) _).mpr hcontent
    rw [hans, revisionIn, fromUTF8_toUTF8, Option.bind_some, htrim, if_neg hne]
  · exact absurd hmay (hread _)

end

/-! ## 3. One volume -/

/-- The bundles of the manager have plain names. -/
structure PlainManager (m : PolicyManager) : Prop where
  bundles : ∀ id bundle, m.bundles id = some bundle → Plain bundle
  fleet : ∀ bundle, m.fleet = some bundle → Plain bundle

theorem PlainManager.bundle {m : PolicyManager} (h : PlainManager m) {id : String}
    {bundle : PolicyBundle} (hb : m.bundle id = some bundle) : Plain bundle := by
  unfold PolicyManager.bundle at hb
  cases hown : m.bundles id with
  | none =>
    rw [hown] at hb
    exact h.fleet bundle hb
  | some own =>
    rw [hown] at hb
    obtain rfl := Option.some.inj hb
    exact h.bundles id own hown

variable {bundle : PolicyBundle}

structure Inv (s : DaemonState) : Prop where
  tidy : ∀ target, Tidy (s.disk target)
  plain : PlainManager s.stream.manager

theorem Inv.withDisk {s : DaemonState} {target : String} {t : VolTree} (h : Inv s) (ht : Tidy t) :
    Inv (s.withDisk target t) := by
  refine ⟨fun x => ?_, h.plain⟩
  by_cases hx : x = target
  · rw [hx, DaemonState.withDisk_disk]
    exact ht
  · rw [DaemonState.withDisk_other _ _ _ hx]
    exact h.tidy x

/-- What has become of a volume for which there is a bundle and no write failed. -/
def Settled (may : FsOp ByteArray → Prop) (bundle : PolicyBundle) (t t' : VolTree) : Prop :=
  (t' = t ∧ Marked bundle t) ∨
    (Published bundle t' ∧ ((∀ p, ¬ may (.readFile p)) → ¬ Marked bundle t))

def NoFailure (tr : List (Event DaemonSig)) : Prop := ∀ ev ∈ tr, ev.op ≠ .addFailure

section

variable {E : RegexEngine} {settings : Settings E} {may : FsOp ByteArray → Prop}
  {s s' : DaemonState} {tr : List (Event DaemonSig)}

variable {target : String}

theorem onVolume_run {α : Type} {p : Prog (FsSig ByteArray) α} {a : α}
    (h : Exec (daemonWorld may) (onVolume target p) s tr a s') :
    ∃ t tr', Exec (Faulty may) p (s.disk target) tr' a t ∧ s' = s.withDisk target t := by
  refine Exec.handle_inv (fun s : DaemonState => s.disk target)
    (fun s t => s.withDisk target t) ?_ ?_ ?_ ?_ h
  · exact fun s t => s.withDisk_disk target t
  · exact fun s t t' => s.withDisk_twice target t t'
  · exact fun s => s.withDisk_self target
  · intro op s tr ans s' hrun
    exact (Exec.op_inv (S := DaemonSig) hrun).2

/-- What one round of the loop can do. -/
inductive AppliedTo (may : FsOp ByteArray → Prop) (s : DaemonState) (target : String) (id : SpiffeId)
    (tr : List (Event DaemonSig)) : Bool → DaemonState → Prop where
  | nothing : s.bundle id = none → AppliedTo may s target id tr false s
  | skipped {bundle : PolicyBundle} : s.bundle id = some bundle → Marked bundle (s.disk target) →
      AppliedTo may s target id tr false s
  | written {bundle : PolicyBundle} {t : VolTree} : s.bundle id = some bundle → Tidy t →
      Published bundle t → ((∀ p, ¬ may (.readFile p)) → ¬ Marked bundle (s.disk target)) →
      AppliedTo may s target id tr true (s.withDisk target t)
  | failed {t : VolTree} : Tidy t → ¬ NoFailure tr →
      AppliedTo may s target id tr false (s.withDisk target t)

theorem applyTo_cases {id : SpiffeId} {wrote : Bool} (h : Inv s)
    (hrun : Exec (daemonWorld may) (applyTo settings target id) s tr wrote s') :
    AppliedTo may s target id tr wrote s' := by
  unfold applyTo at hrun
  obtain ⟨tr1, tr2, held, s1, rfl, hask, hrest⟩ := Exec.bind_inv hrun
  obtain ⟨-, hheld, rfl⟩ := Exec.op_inv (S := DaemonSig) hask
  have hheld : held = s1.bundle id := hheld
  cases held with
  | none =>
    cases hrest
    exact .nothing hheld.symm
  | some bundle =>
    have hplain : Plain bundle := h.plain.bundle hheld.symm
    obtain ⟨tr3, tr4, published, s2, rfl, hread, hrest⟩ := Exec.bind_inv hrest
    obtain ⟨t1, tr5, hreads, rfl⟩ := onVolume_run hread
    obtain ⟨rfl, -⟩ := publishedRevision_run hreads
    rw [DaemonState.withDisk_self] at hrest
    split at hrest
    · rename_i hsame
      cases hrest
      rw [hsame] at hreads
      exact .skipped hheld.symm (marked_of_revision (h.tidy target) hreads).2
    rename_i hdiff
    obtain ⟨tr6, tr7, r, s3, rfl, hwrite, hrest⟩ := Exec.bind_inv hrest
    obtain ⟨t2, tr8, hwrites, rfl⟩ := onVolume_run hwrite
    obtain ⟨htidy, hshown⟩ := publishPolicy_run (h.tidy target) hplain hwrites
    cases r with
    | ok u =>
      obtain ⟨tr9, tr10, u', s4, rfl, hcount, hend⟩ := Exec.bind_inv hrest
      obtain ⟨-, hs⟩ := Exec.op_inv (S := DaemonSig) hcount
      cases hend
      have hs : s' = s1.withDisk target t2 := hs
      rw [hs]
      refine .written hheld.symm htidy (hshown rfl) fun hsure hmarked => ?_
      exact hdiff (revision_of_marked hsure hmarked hreads)
    | error e =>
      obtain ⟨tr9, tr10, u', s4, rfl, hcount, hend⟩ := Exec.bind_inv hrest
      obtain ⟨rfl, hs⟩ := Exec.op_inv (S := DaemonSig) hcount
      cases hend
      have hs : s' = s1.withDisk target t2 := hs
      rw [hs]
      exact .failed htidy fun hno => absurd rfl (hno ⟨.addFailure, u'⟩ (by simp))

theorem AppliedTo.settles {id : SpiffeId} {wrote : Bool} (h : Inv s)
    (hrun : AppliedTo may s target id tr wrote s') :
    ∃ t', s' = s.withDisk target t' ∧ Tidy t' ∧ (NoFailure tr → ∀ bundle, s.bundle id = some bundle →
      Settled may bundle (s.disk target) t') := by
  have hself : s = s.withDisk target (s.disk target) := (DaemonState.withDisk_self _ target).symm
  cases hrun with
  | nothing hnone =>
    refine ⟨_, hself, h.tidy target, ?_⟩
    intro _ bundle hb
    rw [hnone] at hb
    cases hb
  | skipped hheld hmarked =>
    refine ⟨_, hself, h.tidy target, ?_⟩
    intro _ bundle hb
    obtain rfl := Option.some.inj (hheld.symm.trans hb)
    exact .inl ⟨rfl, hmarked⟩
  | written hheld htidy hshown hnot =>
    refine ⟨_, rfl, htidy, ?_⟩
    intro _ bundle hb
    obtain rfl := Option.some.inj (hheld.symm.trans hb)
    exact .inr ⟨hshown, hnot⟩
  | failed htidy hfailed => exact ⟨_, rfl, htidy, fun hno => absurd hno hfailed⟩

/-! ## 4. A pass -/

/-- A pass over some of the volumes: it touches no other, and settles each of these. -/
theorem applyEach_run {volumes : List (String × SpiffeId)} {written n : Nat}
    (hnodup : (volumes.map Prod.fst).Nodup) (h : Inv s)
    (hrun : Exec (daemonWorld may) (applyEach settings volumes written) s tr n s') :
    Inv s' ∧ s'.stream = s.stream ∧ s'.known = s.known ∧
      (∀ x, x ∉ volumes.map Prod.fst → s'.disk x = s.disk x) ∧
      (NoFailure tr → ∀ target id, (target, id) ∈ volumes → ∀ bundle, s.bundle id = some bundle →
        Settled may bundle (s.disk target) (s'.disk target)) := by
  induction volumes generalizing s tr written with
  | nil =>
    cases hrun
    exact ⟨h, rfl, rfl, fun _ _ => rfl, fun _ _ _ hin => absurd hin List.not_mem_nil⟩
  | cons volume volumes ih =>
    obtain ⟨target, id⟩ := volume
    obtain ⟨hnew, hnodup⟩ := List.nodup_cons.mp hnodup
    unfold applyEach at hrun
    obtain ⟨tr1, tr2, wrote, s1, rfl, hone, hrest⟩ := Exec.bind_inv hrun
    obtain ⟨t1, rfl, htidy, hsettled⟩ := (applyTo_cases h hone).settles h
    have hrest : ∃ written', Exec (daemonWorld may) (applyEach settings volumes written')
        (s.withDisk target t1) tr2 n s' := by
      cases wrote with
      | true => exact ⟨_, hrest⟩
      | false => exact ⟨_, hrest⟩
    obtain ⟨written', hrest⟩ := hrest
    obtain ⟨hinv, hstream, hknown, hother, hall⟩ := ih hnodup (h.withDisk htidy) hrest
    have hdisk : s'.disk target = t1 := by
      rw [hother target hnew, DaemonState.withDisk_disk]
    refine ⟨hinv, hstream, hknown, ?_, ?_⟩
    · intro x hx
      simp only [List.map_cons, List.mem_cons, not_or] at hx
      rw [hother x hx.2, DaemonState.withDisk_other _ _ _ hx.1]
    intro hno target' id' hin bundle hb
    rcases List.mem_cons.mp hin with heq | hlater
    · obtain ⟨rfl, rfl⟩ := Prod.mk.inj heq
      rw [hdisk]
      exact hsettled (fun ev hev => hno ev (List.mem_append_left _ hev)) bundle hb
    have hne : target' ≠ target := by
      rintro rfl
      exact hnew (List.mem_map.mpr ⟨_, hlater, rfl⟩)
    have hset := hall (fun ev hev => hno ev (List.mem_append_right _ hev)) target' id' hlater
      bundle hb
    rwa [DaemonState.withDisk_other _ _ _ hne] at hset

end

/-! ## 5. Histories -/

/-- The bundles a call puts into the manager have plain names. -/
def PlainCall : ManagerOp → Prop
  | .insertBundle _ bundle => Plain bundle
  | .setFleet bundle => Plain bundle
  | _ => True

def IsRead (op : FsOp ByteArray) : Prop := ∃ path, op = .readFile path

/-- The calls of a scan and of the updates: in a volume they read only. -/
def QuietCall : DaemonOp → Prop
  | .volume _ op => IsRead op
  | .manager op => PlainCall op
  | _ => True

section

variable {φ : DaemonOp → Prop} {ψ : ManagerOp → Prop} {α : Type} {target : String}

theorem onManager_makes {p : Prog ManagerSig α} (h : p.Makes fun op => φ (.manager op)) :
    (onManager p).Makes φ :=
  .handle (S := ManagerSig) (T := DaemonSig) (f := fun op => ask (.manager op))
    (fun op hop => .of_op (S := DaemonSig) (o := .manager op) hop) h

theorem onVolume_makes {p : Prog (FsSig ByteArray) α} (h : p.Makes fun op => φ (.volume target op)) :
    (onVolume target p).Makes φ :=
  .handle (S := FsSig ByteArray) (T := DaemonSig) (f := fun op => ask (.volume target op))
    (fun op hop => .of_op (S := DaemonSig) (o := .volume target op) hop) h

theorem managerApply_makes {id : String} (hinsert : ψ (.insertBundle id bundle))
    (hdirty : ψ (.insertDirty id)) (hnotify : ψ .notifyBundle) :
    (Manager.apply id bundle).Makes ψ := by
  refine .bind (.of_op hinsert) fun changed => ?_
  cases changed with
  | true => exact .bind (.of_op hdirty) fun _ => .bind (.of_op hnotify) fun _ => trivial
  | false => trivial

theorem grpcApply_makes {received : PolicyUpdate} (hreject : ∀ id reason, ψ (.reject id reason))
    (hinsert : ∀ bundle, PolicyBundle.build received.revision received.documents = .ok bundle →
      ψ (.insertBundle received.spiffeId bundle)) (hdirty : ∀ id, ψ (.insertDirty id))
    (hnotify : ψ .notifyBundle) : (Grpc.apply received).Makes ψ := by
  unfold Grpc.apply
  split
  · exact .of_op (hreject _ _)
  split
  · rename_i bundle hbuild
    split
    · exact .of_op (hreject _ _)
    · exact .bind (managerApply_makes (hinsert bundle hbuild) (hdirty _) hnotify) fun _ => trivial
  · exact .of_op (hreject _ _)

theorem applyFleet_makes (hset : ψ (.setFleet bundle)) (hdirty : ∀ ids, ψ (.extendDirty ids))
    (hnotify : ψ .notifyBundle) : (Manager.applyFleet bundle).Makes ψ := by
  refine .bind (.of_op hset) fun affected => ?_
  cases affected with
  | some ids => exact .bind (.of_op (hdirty ids)) fun _ => .bind (.of_op hnotify) fun _ => trivial
  | none => trivial

theorem readCertChain_makes {ψ : FsOp ByteArray → Prop} (hread : ∀ path, ψ (.readFile path)) :
    readCertChain.run.Makes ψ := by
  have htext : ∀ path, (readToString path).run.Makes ψ := by
    intro path
    refine .run_bind (.of_op (hread path)) fun bytes => ?_
    split
    · trivial
    · trivial
  refine .lift_bind (htext _) fun r => ?_
  cases r with
  | ok text => trivial
  | error e => exact htext _

theorem discoverExposed_makes (hread : φ .readFarm) : discoverExposed.Makes φ := by
  refine .bind (.of_op hread) fun r => ?_
  cases r with
  | ok names => trivial
  | error e => trivial

variable {E : RegexEngine} (settings : Settings E)

theorem scanEach_makes (hread : ∀ target path, φ (.volume target (.readFile path)))
    (targets : List String) (found : VolumeMap) : (scanEach settings targets found).Makes φ := by
  induction targets generalizing found with
  | nil => trivial
  | cons target targets ih =>
    refine .bind (onVolume_makes (readCertChain_makes (hread target))) ?_
    intro r
    cases r with
    | error e => exact ih found
    | ok chain =>
      dsimp only
      split
      · exact ih found
      · split
        · exact ih found
        · exact ih _

end

theorem notifyIf_plain (changed : Bool) : Prog.Makes (S := ManagerSig) PlainCall
    (if changed then Manager.ask .notifyWanted else pure ()) := by
  cases changed with
  | true => exact .of_op trivial
  | false => trivial

section

variable {E : RegexEngine} (settings : Settings E)

theorem subscribeEach_quiet (ids : List String) : (subscribeEach settings ids).Makes QuietCall := by
  induction ids with
  | nil => trivial
  | cons id ids ih =>
    refine .bind (onManager_makes ?_) fun _ => ih
    unfold Manager.subscribe
    split
    · exact .bind (.of_op trivial) notifyIf_plain
    · trivial

theorem unsubscribeEach_quiet (ids : List String) :
    (unsubscribeEach settings ids).Makes QuietCall := by
  induction ids with
  | nil => trivial
  | cons id ids ih =>
    refine .bind (onManager_makes ?_) fun _ => ih
    unfold Manager.unsubscribe
    split
    · exact .bind (.of_op trivial) fun removed =>
        .bind (.of_op trivial) fun _ => notifyIf_plain removed
    · trivial

theorem scan_quiet : (scan settings).Makes QuietCall := by
  unfold scan
  refine .bind (discoverExposed_makes trivial) fun targets => ?_
  refine .bind (scanEach_makes settings (fun _ path => ⟨path, rfl⟩) targets _) fun found => ?_
  refine .bind (.of_op trivial) fun old => ?_
  refine .bind (subscribeEach_quiet settings _) fun _ => ?_
  exact .bind (unsubscribeEach_quiet settings _) fun _ => trivial

end

theorem PlainManager.call {op : ManagerOp} {ans : op.Ans} {m m' : StreamState} (hop : PlainCall op)
    (hw : (ans, m') = op.answer m) (h : PlainManager m.manager) : PlainManager m'.manager := by
  have hm : m' = (op.answer m).2 := congrArg Prod.snd hw
  subst hm
  cases op with
  | insertBundle id bundle =>
    simp only [ManagerOp.answer]
    split
    · refine ⟨fun other held hheld => ?_, h.fleet⟩
      by_cases hid : other = id
      · subst hid
        simp only [StreamState.withManager_manager, Function.update_self, Option.some.injEq] at hheld
        exact hheld ▸ hop
      · simp only [StreamState.withManager_manager, Function.update_of_ne hid] at hheld
        exact h.bundles other held hheld
    · exact h
  | removeWanted id =>
    refine ⟨fun other held hheld => ?_, h.fleet⟩
    by_cases hid : other = id
    · subst hid
      simp [ManagerOp.answer] at hheld
    · simp only [ManagerOp.answer, StreamState.withManager_manager, Function.update_of_ne hid] at hheld
      exact h.bundles other held hheld
  | setFleet bundle =>
    simp only [ManagerOp.answer]
    split
    · exact h
    · refine ⟨h.bundles, fun held hheld => ?_⟩
      exact Option.some.inj hheld ▸ hop
  | send message =>
    simp only [ManagerOp.answer]
    split
    · exact h
    · exact h
  | _ => exact ⟨h.bundles, h.fleet⟩

theorem Inv.quiet {may : FsOp ByteArray → Prop} {s s' : DaemonState} {op : DaemonOp} {ans : op.Ans}
    (hop : QuietCall op) (hw : daemonWorld may op s ans s') (h : Inv s) : Inv s' := by
  cases op with
  | volume target op =>
    obtain ⟨path, rfl⟩ := hop
    obtain ⟨t, hread, rfl⟩ := hw
    rw [hread.readFile_same, DaemonState.withDisk_self]
    exact h
  | manager op =>
    obtain ⟨m, hcall, rfl⟩ := hw
    exact ⟨h.tidy, h.plain.call hop hcall⟩
  | readFarm =>
    obtain rfl : s' = s := hw
    exact h
  | bundle id =>
    obtain ⟨-, rfl⟩ := hw
    exact h
  | volumes =>
    obtain ⟨-, rfl⟩ := hw
    exact h
  | swapVolumes found =>
    obtain ⟨-, rfl⟩ := hw
    exact ⟨h.tidy, h.plain⟩
  | addWritten =>
    obtain rfl : s' = s := hw
    exact h
  | addFailure =>
    obtain rfl : s' = s := hw
    exact h

section

variable {E : RegexEngine} {settings : Settings E} {may : FsOp ByteArray → Prop}

theorem apply_run {s s' : DaemonState} {tr : List (Event DaemonSig)} {n : Nat}
    (hrun : Exec (daemonWorld may) (apply settings) s tr n s') :
    ∃ tr', Exec (daemonWorld may) (applyEach settings s.known.entries 0) s tr' n s' ∧
      (NoFailure tr → NoFailure tr') := by
  obtain ⟨tr1, tr2, volumes, s1, rfl, hask, hrest⟩ := Exec.bind_inv hrun
  obtain ⟨-, hknown, hs⟩ := Exec.op_inv (S := DaemonSig) hask
  have hknown : volumes = s.known := hknown
  have hs : s1 = s := hs
  rw [hknown, hs] at hrest
  exact ⟨tr2, hrest, fun hno ev hev => hno ev (List.mem_append_right _ hev)⟩

/-- The states of the daemon: from its start, with volumes that publishes have left, by any of its
    tasks, and by what svidlet does to the volumes. That is anything outside the policy chain, or a
    volume that has taken another's place. -/
inductive Reached (settings : Settings E) (may : FsOp ByteArray → Prop) : DaemonState → Prop where
  | start {disk : String → VolTree} : (∀ target, Left (disk target)) →
      Reached settings may ⟨.opened .new, disk, .empty⟩
  | task {task : Task} {s s' : DaemonState} {tr : List (Event DaemonSig)} :
      Reached settings may s → Exec (daemonWorld may) (task.body settings) s tr () s' →
      Reached settings may s'
  | outside {s : DaemonState} {disk : String → VolTree} : Reached settings may s →
      (∀ target, Elsewhere policyChain.Mine (s.disk target) (disk target) ∨ Left (disk target)) →
      Reached settings may { s with disk := disk }

theorem Reached.inv {s : DaemonState} (h : Reached settings may s) : Inv s := by
  induction h with
  | start hleft =>
    refine ⟨fun target => .of_left (hleft target), ⟨fun _ _ hb => ?_, fun _ hb => ?_⟩⟩
    · cases hb
    · cases hb
  | outside _ hdisk ih =>
    refine ⟨fun target => ?_, ih.plain⟩
    rcases hdisk target with helse | hleft
    · exact (ih.tidy target).elsewhere helse
    · exact .of_left hleft
  | @task task s s' tr _ hrun ih =>
    have hquiet : ∀ {p : Prog DaemonSig Unit}, p.Makes QuietCall →
        Exec (daemonWorld may) p s tr () s' → Inv s' := by
      intro p hp hrun
      exact Exec.of_makes (W := daemonWorld may) (I := Inv) (fun _ _ _ _ => Inv.quiet) hp hrun ih
    cases task with
    | scan =>
      have hmakes : (Task.scan.body settings).Makes QuietCall :=
        .bind (scan_quiet settings) fun _ => trivial
      exact hquiet hmakes hrun
    | update received =>
      have hmakes : ((Task.update received).body settings).Makes QuietCall :=
        onManager_makes (grpcApply_makes (fun _ _ => trivial)
          (fun _ => PolicyBundle.build_plain) (fun _ => trivial) trivial)
      exact hquiet hmakes hrun
    | fleet bundle plain =>
      have hmakes : ((Task.fleet bundle plain).body settings).Makes QuietCall :=
        .bind (onManager_makes (applyFleet_makes plain (fun _ => trivial) trivial)) fun _ => trivial
      exact hquiet hmakes hrun
    | apply =>
      obtain ⟨tr1, tr2, n, s1, rfl, happly, hend⟩ := Exec.bind_inv hrun
      cases hend
      obtain ⟨tr3, hpass, -⟩ := apply_run happly
      exact (applyEach_run s.known.once ih hpass).1

/-- Every known volume shows the bundle the manager has for its identity. -/
def Current (s : DaemonState) : Prop :=
  ∀ target id, (target, id) ∈ s.known.entries → ∀ bundle, s.bundle id = some bundle →
    Published bundle (s.disk target)

/-- No known volume has the revision of its bundle on show with other documents. -/
def Honest (s : DaemonState) : Prop :=
  ∀ target id, (target, id) ∈ s.known.entries → ∀ bundle, s.bundle id = some bundle →
    Marked bundle (s.disk target) → Published bundle (s.disk target)

/-- **What a pass leaves.** After a pass in which no write failed, every known volume shows the bundle
    of its identity, provided that before it none showed the bundle's revision with something else; and
    as long as reads do not fail either, only then. -/
theorem pass_publishes_iff {s s' : DaemonState} {tr : List (Event DaemonSig)} {n : Nat}
    (hreached : Reached settings may s) (hrun : Exec (daemonWorld may) (apply settings) s tr n s')
    (hno : NoFailure tr) :
    (Honest s → Current s') ∧ ((∀ path, ¬ may (.readFile path)) → (Current s' ↔ Honest s)) := by
  obtain ⟨tr', hpass, hno'⟩ := apply_run hrun
  obtain ⟨-, hstream, hknown, -, hall⟩ := applyEach_run s.known.once hreached.inv hpass
  have hbundle : ∀ id, s'.bundle id = s.bundle id := by
    intro id
    rw [DaemonState.bundle, hstream]
    rfl
  have hwhen : Honest s → Current s' := by
    intro hhonest target id hin bundle hb
    rw [hknown] at hin
    rw [hbundle] at hb
    rcases hall (hno' hno) target id hin bundle hb with ⟨hsame, hmarked⟩ | ⟨hshown, -⟩
    · rw [hsame]
      exact hhonest target id hin bundle hb hmarked
    · exact hshown
  refine ⟨hwhen, fun hread => ⟨?_, hwhen⟩⟩
  intro hcurrent target id hin bundle hb hmarked
  have hshown : Published bundle (s'.disk target) :=
    hcurrent target id (hknown ▸ hin) bundle ((hbundle id).trans hb)
  rcases hall (hno' hno) target id hin bundle hb with ⟨hsame, -⟩ | ⟨-, hnot⟩
  · rwa [hsame] at hshown
  · exact absurd hmarked (hnot hread)

end

/-! One volume, whose identity is sent two bundles of the same revision. -/

def oneSettings : Settings Matcher.templateEngine := ⟨Node.onePlugin, 0o644, true⟩

/-- A volume with a certificate. -/
def certified : VolTree :=
  ((Publication.identity ⟨"k", "chain", "ca"⟩ ⟨0o640, 0o644, none⟩).run.run.play
    (fun op t => t.exec op) ⟨[([], .dir 0o755)], 0⟩).2.2

theorem certified_left : Left certified := by
  refine .stop (.fresh 0o755) ?_ (Prog.play_exec (fun op t => .inl (exact_answers op t)) _ _).stops
  intro name n hne
  exact absurd (get_fresh (by simp)) hne

def daemonAfter (tasks : List Task) : DaemonState :=
  tasks.foldl (fun s task => ((task.body oneSettings).play (DaemonOp.answer ["a"]) s).2.2)
    ⟨.opened .new, fun _ => certified, .empty⟩

theorem daemonAfter_reached (may : FsOp ByteArray → Prop) (tasks : List Task) :
    Reached oneSettings may (daemonAfter tasks) := by
  unfold daemonAfter
  have hstart : Reached oneSettings may ⟨.opened .new, fun _ => certified, .empty⟩ :=
    .start fun _ => certified_left
  revert hstart
  generalize (⟨.opened .new, fun _ => certified, .empty⟩ : DaemonState) = s
  intro hs
  induction tasks generalizing s with
  | nil => exact hs
  | cons task tasks ih =>
    exact ih _ (hs.task (Prog.play_exec (DaemonOp.answer_does ["a"] may) (task.body oneSettings) s))

/-- The pass after some tasks: its calls, and the state it leaves. -/
def passAfter (tasks : List Task) : List (Event DaemonSig) × Nat × DaemonState :=
  (apply oneSettings).play (DaemonOp.answer ["a"]) (daemonAfter tasks)

theorem passAfter_exec (may : FsOp ByteArray → Prop) (tasks : List Task) :
    Exec (daemonWorld may) (apply oneSettings) (daemonAfter tasks) (passAfter tasks).1
      (passAfter tasks).2.1 (passAfter tasks).2.2 :=
  Prog.play_exec (DaemonOp.answer_does ["a"] may) (apply oneSettings) (daemonAfter tasks)

def isFailure : DaemonOp → Bool
  | .addFailure => true
  | _ => false

theorem noFailure_of_all {tr : List (Event DaemonSig)} (h : tr.all (fun ev => !isFailure ev.op) = true) :
    NoFailure tr := by
  intro ev hev hop
  have hall := List.all_eq_true.mp h ev hev
  rw [hop] at hall
  cases hall

/-- An update with one document and a revision. -/
def sendsRevision (revision : String) : Task := .update ⟨oneId.asStr, revision, [⟨"x", [1]⟩], false⟩

/-- An update with one document. -/
def sends (content : Bytes) : Task := .update ⟨oneId.asStr, "r1", [⟨"x", content⟩], false⟩

/-- An older revision has been sent and written before. -/
def olderWritten : List Task := [.scan, sendsRevision "r0", .apply, sends [2]]

theorem pass_publishes_iff_newer :
    (publishedRevision.play (fun op t => t.exec op) ((daemonAfter olderWritten).disk "a")).2.1 = some "r0" ∧
      Current (passAfter olderWritten).2.2 := by
  have hstart : (daemonAfter olderWritten).known.entries = [("a", oneId)] ∧
      (daemonAfter olderWritten).bundle oneId = some ⟨"r1", [⟨"x", [2]⟩]⟩ ∧
      (publishedRevision.play (fun op t => t.exec op) ((daemonAfter olderWritten).disk "a")).2.1
        = some "r0" ∧
      (passAfter olderWritten).1.all (fun ev => !isFailure ev.op) = true := by
    decide +kernel
  obtain ⟨hknown, hbundle, hold, hno⟩ := hstart
  refine ⟨hold, (pass_publishes_iff (daemonAfter_reached (fun _ => False) _) (passAfter_exec _ _)
    (noFailure_of_all hno)).1 ?_⟩
  intro target id hin bundle hb hmarked
  rw [hknown] at hin
  obtain ⟨rfl, rfl⟩ := Prod.mk.inj (List.mem_singleton.mp hin)
  obtain rfl := Option.some.inj (hbundle.symm.trans hb)
  -- what is read there is not the revision of the bundle
  have hread := Prog.play_exec (W := Faulty fun _ => False) (fun op t => .inl (exact_answers op t))
    publishedRevision ((daemonAfter olderWritten).disk "a")
  rw [hold] at hread
  exact absurd (Option.some.inj (revision_of_marked (fun _ => id) hmarked hread)) (by decide)

def bytesIn : Node ByteArray → Bytes
  | .file _ content _ _ => content.data.toList
  | _ => []

/-- The second bundle is in the manager, and the pass leaves the first one on show. -/
theorem same_revision_is_skipped : ∃ (s s' : DaemonState) (tr : List (Event DaemonSig)) (n : Nat),
      Reached oneSettings (fun _ => False) s ∧
      Exec (daemonWorld fun _ => False) (apply oneSettings) s tr n s' ∧ NoFailure tr ∧
      ¬ Current s' := by
  refine ⟨_, _, _, _, daemonAfter_reached _ [.scan, sends [1], .apply, sends [2]],
    passAfter_exec _ _, ?_⟩
  have hend : (passAfter [.scan, sends [1], .apply, sends [2]]).1.all (fun ev => !isFailure ev.op) = true ∧
      (passAfter [.scan, sends [1], .apply, sends [2]]).2.2.known.entries = [("a", oneId)] ∧
      (passAfter [.scan, sends [1], .apply, sends [2]]).2.2.bundle oneId = some ⟨"r1", [⟨"x", [2]⟩]⟩ ∧
      ((passAfter [.scan, sends [1], .apply, sends [2]]).2.2.disk "a").get [policyLink]
        = some (.symlink ["..policy.1"]) ∧
      (((passAfter [.scan, sends [1], .apply, sends [2]]).2.2.disk "a").view
        ["..policy.1", policyDir, "x"]).map bytesIn = some [1] := by
    decide
  obtain ⟨hno, hknown, hbundle, hlink, hfile⟩ := hend
  refine ⟨noFailure_of_all hno, fun hcurrent => ?_⟩
  obtain ⟨v, hshows⟩ := hcurrent "a" oneId (by rw [hknown]; exact .head _) _ hbundle
  have hv : some (Node.symlink [v]) = some (Node.symlink ["..policy.1"]) := hshows.link.symm.trans hlink
  obtain rfl : v = "..policy.1" := by simpa using hv
  have hcontent : contentOf (policyFiles ⟨"r1", [⟨"x", [2]⟩]⟩) [policyDir, "x"] = some ⟨#[2]⟩ := by
    decide
  obtain ⟨ino, hview⟩ := (hshows.built.holds.files [policyDir, "x"] _).mpr hcontent
  rw [show ["..policy.1"] ++ [policyDir, "x"] = ["..policy.1", policyDir, "x"] from rfl] at hview
  rw [hview] at hfile
  simp [bytesIn] at hfile

end Svidlet.Daemon
