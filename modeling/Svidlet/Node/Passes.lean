import Svidlet.Node.Promise

/-!
# What the loops do to a target

A pass of the renewal, adoption or reaping loop reads a snapshot and works through it, and what it has
read about a target may be out of date when it acts. This module says what a pass does to one target
while no call of the kubelet is at work there, so that the only others are passes:

> a **renewal** publishes into a volume only an identity for the ID that the volume shows;
>
> an **adoption** lists a volume under the ID that the volume shows;
>
> the **reaper** takes back only what is not there any more.

Each of these is an assertion about the target (`Holds` of the entry's ID, `Holds` of the ID that was
read, no volume) that the pass comes to know and that no step of a pass can falsify. So one relation is
both what a pass relies on and what it guarantees (`PassStep`), and any number of passes may run at the
same time. An adoption does not look for a policy revision; that what it lists has one where one is
required must be so beforehand (`Settled`).
-/

namespace Svidlet.Node

open Lib Issue
open Volume (Identity Modes)

variable {E : RegexEngine} {plugin : Plugin E} {s s' : NodeState} {target : String} {id : SpiffeId}

/-! ## 1. Steps of passes -/

/-- Where a policy is required, a volume that shows an identity has one. -/
def Settled (plugin : Plugin E) (target : String) (s : NodeState) : Prop :=
  plugin.cfg.policyRequired = true →
    ∀ v, s.volumes target = some v → v.identity ≠ none → v.revision = true

/-- What a step of a pass does to a target: entries stay promises kept, what is shown stays as far as
    the ID goes, and no volume appears. -/
structure PassStep (plugin : Plugin E) (target : String) (s s' : NodeState) : Prop where
  truthful : Truthful plugin target s → Truthful plugin target s'
  held : ∀ id, Holds plugin.reader s target id →
    Holds plugin.reader s' target id ∧ (HasRevision s target → HasRevision s' target)
  absent : s.volumes target = none → s'.volumes target = none
  settled : Settled plugin target s → Settled plugin target s'

namespace PassStep

theorem of_calm (h : Calm target s s') : PassStep plugin target s s' := by
  refine ⟨h.truthful, fun _ => h.held, ?_, ?_⟩
  · intro hnone
    rcases h.volume with hsame | ⟨v, _, hv, _⟩
    · exact hsame.trans hnone
    · rw [hnone] at hv
      cases hv
  · intro hs hreq v' hv' hid
    rcases h.volume with hsame | ⟨v, v1, hv, hv1, hsame, hrev⟩
    · exact hs hreq v' (hsame.symm.trans hv') hid
    · obtain rfl : v1 = v' := Option.some.inj (hv1.symm.trans hv')
      exact hrev (hs hreq v hv (hsame ▸ hid))

theorem refl (s : NodeState) : PassStep plugin target s s := of_calm (Calm.refl s)

theorem trans (a b c : NodeState) (h : PassStep plugin target a b) (h' : PassStep plugin target b c) :
    PassStep plugin target a c := by
  refine ⟨fun ht => h'.truthful (h.truthful ht), ?_, fun hn => h'.absent (h.absent hn),
    fun hs => h'.settled (h.settled hs)⟩
  intro id hh
  obtain ⟨hh1, hr1⟩ := h.held id hh
  obtain ⟨hh2, hr2⟩ := h'.held id hh1
  exact ⟨hh2, fun hr => hr2 (hr1 hr)⟩

/-- A step that leaves the volumes alone and lists nothing but promises kept. -/
theorem of_store (hv : s'.volumes target = s.volumes target)
    (ht : Truthful plugin target s → Truthful plugin target s') : PassStep plugin target s s' := by
  have hcalm : PassStep plugin target s { s' with store := s.store } := of_calm ⟨rfl, .inl hv⟩
  exact ⟨ht, hcalm.held, hcalm.absent, hcalm.settled⟩

/-- A step on an entry that is there: what it leaves has the ID of what was there. -/
theorem of_entry {op : NodeOp} {ans : op.Ans} (hw : nodeWorld op s ans s')
    (hv : s'.volumes = s.volumes) (hins : ∀ e, op ≠ .storeInsert e) : PassStep plugin target s s' := by
  refine of_store (congrFun hv target) ?_
  intro ht e he
  rcases effect_entry (effect hw) he with ⟨e0, he0, hid⟩ | hop
  · rw [← hid]
    have hcalm : Calm target s { s' with store := s.store } := ⟨rfl, .inl (congrFun hv target)⟩
    exact (ht e0 he0).of_holds hcalm.held
  · exact absurd hop (hins e)

/-- A publish of an identity for the ID that is on show. -/
theorem of_publish {identity : Identity} {modes : Modes} {origin : Origin} {ans : Except IoError Unit}
    (hs : Holds plugin.reader s target id) (hfor : IdentityFor plugin.reader identity id)
    (hw : nodeWorld (.publishIdentity target identity modes origin) s ans s') :
    PassStep plugin target s s' := by
  have hheld : ∀ id', Holds plugin.reader s target id' → Holds plugin.reader s' target id' ∧
      (HasRevision s target → HasRevision s' target) := by
    intro id' hh
    obtain rfl := hs.unique hh
    refine effect_holds (effect hw) hh ?_ (by simp)
    intro identity' _ _ hop
    cases hop
    exact hfor
  obtain ⟨v, shown, hv, hshown, _⟩ := hs
  rcases publish_cases hw with ⟨_, rfl⟩ | ⟨v', hv', rfl⟩
  · exact refl _
  obtain rfl : v' = v := Option.some.inj (hv'.symm.trans hv)
  refine ⟨fun ht e he => (ht e he).of_holds (hheld _), hheld, ?_, ?_⟩
  · intro hnone
    rw [hnone] at hv
    cases hv
  · intro hsettled hreq v1 hv1 _
    have hrev := hsettled hreq v' hv (by rw [hshown]; simp)
    rw [show (s.publish target v' identity origin).volumes target
      = some { v' with identity := some identity } from NodeState.setVolume_same s target _] at hv1
    cases hv1
    exact hrev

end PassStep

/-- A program of a pass, alone with passes. -/
abbrev Passes {α : Type} (plugin : Plugin E) (target : String) (Q : α → NodeState → Prop)
    (p : Prog NodeSig α) (s : NodeState) : Prop :=
  Sat nodeWorld (PassStep plugin target) (PassStep plugin target) Q p s

section

variable {α : Type} {A : NodeState → Prop} {p : Prog NodeSig α}

/-- What passes cannot falsify a pass keeps. -/
theorem Passes.keeps (hA : Stable (PassStep plugin target) A)
    (h : Passes plugin target (fun _ _ => True) p s) (hs : A s) :
    Passes plugin target (fun _ => A) p s :=
  .mono (fun _ _ h => h.2) (Sat.strengthen hA (fun a b ha hG => ⟨hG, hA a b hG ha⟩) h hs)

/-- A program that is about other targets. -/
theorem passes_other (hp : p.Makes fun op : NodeOp => op.target ≠ some target)
    (hA : Stable (PassStep plugin target) A) (hs : A s) :
    Passes plugin target (fun _ => A) p s :=
  reads_sat (fun h => ⟨.of_calm h, .of_calm h⟩) hp hA hs

theorem passes_read {op : NodeOp} (hop : op.target = none) (hA : Stable (PassStep plugin target) A)
    (hs : A s) : Passes plugin target (fun _ => A) (ask op) s :=
  passes_other (.of_op (target_ne hop)) hA hs

theorem true_stable : Stable (PassStep plugin target) fun _ => True := fun _ _ _ _ => trivial

theorem shown_stable :
    Stable (PassStep plugin target) fun s => Holds plugin.reader s target id :=
  fun _ _ hR h => (hR.held id h).1

theorem passes_entry {op : NodeOp} (hv : ∀ {s ans s'}, nodeWorld op s ans s' → s'.volumes = s.volumes)
    (hins : ∀ e, op ≠ .storeInsert e) (hA : Stable (PassStep plugin target) A) (hs : A s) :
    Passes plugin target (fun _ => A) (ask op) s := by
  refine .of_op hA (fun _ => hA) hs ?_
  intro s1 ans s2 h1 hw
  have hstep : PassStep plugin target s1 s2 := .of_entry hw (hv hw) hins
  exact ⟨hstep, hA s1 s2 hstep h1⟩

end

/-! ## 2. Renewal -/

theorem renewRules : IssueRules plugin target id (PassStep plugin target) (PassStep plugin target)
    fun s => Holds plugin.reader s target id where
  refl := PassStep.refl
  calm h := ⟨.of_calm h, .of_calm h⟩
  work_stable := shown_stable
  held hR hh := hR.held id hh
  publish := by
    intro identity modes s ans s' hs hfor hw
    have hstep : PassStep plugin target s s' := .of_publish hs hfor hw
    exact ⟨hstep, shown_stable s s' hstep hs⟩

/-- The volumes of these entries show what the entries say, as far as this target goes. -/
def Due (plugin : Plugin E) (target : String) (entries : List Entry) (s : NodeState) : Prop :=
  ∀ e ∈ entries, e.targetPath = target → Holds plugin.reader s target e.spiffeId

theorem due_stable (entries : List Entry) :
    Stable (PassStep plugin target) (Due plugin target entries) :=
  fun s s' hR h e he ht => shown_stable s s' hR (h e he ht)

theorem renewOne_passes {entry : Entry}
    (hs : entry.targetPath = target → Holds plugin.reader s target entry.spiffeId) :
    Passes plugin target (fun _ _ => True) (renewOne plugin entry) s := by
  by_cases ht : entry.targetPath = target
  · subst ht
    refine .seq PassStep.refl (passes_read rfl shown_stable (hs rfl)) ?_
    intro now s1 h1
    refine .seq PassStep.refl (passes_read rfl shown_stable h1) ?_
    intro there s2 h2
    cases there with
    | false =>
      refine .seq PassStep.refl (passes_entry (A := fun _ => True) ?_ (by simp) true_stable trivial) ?_
      · rintro s ans s' ⟨_, rfl⟩
        rfl
      · exact fun _ s3 _ => .of_pure true_stable trivial
    | true =>
      refine .seq PassStep.refl (renewRules.issue_sat h2) ?_
      intro r s3 h3
      cases r with
      | error e =>
        refine passes_entry (A := fun _ => True) ?_ (by simp) true_stable trivial
        rintro s ans s' ⟨_, rfl⟩
        rfl
      | ok bundle =>
        refine .seq PassStep.refl (passes_read rfl true_stable trivial) ?_
        intro renewAt s4 h4
        refine .seq PassStep.refl (passes_entry ?_ (by simp) true_stable h4) ?_
        · rintro s ans s' rfl
          rfl
        intro _ s5 h5
        refine .seq PassStep.refl
          (passes_other (refreshTokens_makes fun _ => target_ne) true_stable h5) ?_
        exact fun _ s6 _ => .of_pure true_stable trivial
  · have hne : ∀ {op : NodeOp}, op.target = some entry.targetPath → op.target ≠ some target := by
      intro op hop
      rw [hop]
      exact fun he => ht (Option.some.inj he)
    exact passes_other (renewOne_makes (fun _ => target_ne) (fun _ _ => hne rfl) (hne rfl)
      (fun _ _ _ => hne rfl) fun _ => hne rfl) true_stable trivial

theorem renewEach_passes {entries : List Entry} (hs : Due plugin target entries s) :
    Passes plugin target (fun _ _ => True) (renewEach plugin entries) s := by
  induction entries generalizing s with
  | nil => exact .of_pure true_stable trivial
  | cons entry rest ih =>
    have hrest : Due plugin target rest s := fun e he => hs e (.tail _ he)
    refine .seq PassStep.refl ((renewOne_passes (hs entry (.head _))).keeps (due_stable rest) hrest) ?_
    exact fun _ s1 h1 => ih h1

/-- **A renewal pass**: entries are promises kept when the pass takes its snapshot, and what was kept
    then it keeps up. -/
theorem renewDue_passes (hs : Truthful plugin target s) :
    Passes plugin target (fun _ _ => True) (renewDue plugin) s := by
  have hA : Stable (PassStep plugin target) (Truthful plugin target) := fun _ _ hR => hR.truthful
  refine .seq PassStep.refl (passes_read rfl hA hs) ?_
  intro now s1 h1
  have hsnapshot : Passes plugin target (fun due => Due plugin target due) (ask (.storeDue now)) s1 := by
    refine .of_op hA (fun due => due_stable due) h1 ?_
    rintro s2 due s3 h2 hw
    refine ⟨.of_calm (.of_other hw (target_ne rfl)), ?_⟩
    obtain ⟨⟨hperm, _⟩, rfl⟩ := hw
    intro e he ht
    have hmem : e ∈ s3.store.filter (·.isDue now) :=
      (List.perm_insertionSort _ _).mem_iff.mp (hperm.mem_iff.mp he)
    exact (h2 e (Store.mem_entriesAt.mpr ⟨(List.mem_filter.mp hmem).1, ht⟩)).1
  refine .seq PassStep.refl hsnapshot ?_
  exact fun due s2 h2 => renewEach_passes h2

/-! ## 3. Reaping -/

theorem reapOne_passes (entry : Entry) :
    Passes plugin target (fun _ _ => True) (reapOne plugin entry) s := by
  by_cases ht : entry.targetPath = target
  · subst ht
    have hA : Stable (PassStep plugin entry.targetPath) fun s => s.volumes entry.targetPath = none :=
      fun _ _ hR => hR.absent
    have hlook : Passes plugin entry.targetPath
        (fun there s => there = false → s.volumes entry.targetPath = none)
        (ask (.targetExists entry.targetPath)) s := by
      refine .of_op true_stable (fun _ s1 s2 hR h hno => hA s1 s2 hR (h hno)) trivial ?_
      rintro s1 there s2 - hw
      refine ⟨.of_calm (.of_other hw (target_ne rfl)), ?_⟩
      obtain ⟨rfl, rfl⟩ := hw
      exact fun hno => by simpa using hno
    refine .seq PassStep.refl hlook ?_
    intro there s1 h1
    cases there with
    | true => exact .of_pure true_stable trivial
    | false =>
      refine .seq PassStep.refl (passes_entry ?_ (by simp) hA (h1 rfl)) ?_
      · rintro s ans s' ⟨_, rfl⟩
        rfl
      intro _ s2 h2
      refine .seq PassStep.refl
        (passes_other (unexposeVolume_makes fun _ => target_ne) hA h2) ?_
      intro _ s3 h3
      have htakeBack : Passes plugin entry.targetPath (fun _ _ => True)
          (ask (.unpublish entry.targetPath)) s3 := by
        refine .of_op hA (fun _ => true_stable) h3 ?_
        intro s4 ans s5 h4 hw
        -- nothing is there to be taken back, so nothing can be left of it
        rcases hw with rfl | ⟨_, v, _, hv, _⟩
        · exact ⟨.of_calm ⟨rfl, .inl (by rw [NodeState.setVolume_same, h4])⟩, trivial⟩
        · rw [h4] at hv
          cases hv
      refine .seq PassStep.refl htakeBack ?_
      exact fun _ s4 _ => .of_pure true_stable trivial
  · have hne : ∀ {op : NodeOp}, op.target = some entry.targetPath → op.target ≠ some target := by
      intro op hop
      rw [hop]
      exact fun he => ht (Option.some.inj he)
    exact passes_other (reapOne_makes (fun _ => target_ne) (hne rfl) (hne rfl)) true_stable trivial

theorem reapOrphans_passes : Passes plugin target (fun _ _ => True) (reapOrphans plugin) s := by
  refine .seq PassStep.refl (passes_read rfl true_stable trivial) ?_
  intro entries s1 _
  induction entries generalizing s1 with
  | nil => exact .of_pure true_stable trivial
  | cons entry rest ih =>
    refine .seq PassStep.refl (reapOne_passes entry) ?_
    intro reaped s2 _
    refine .seq PassStep.refl (ih s2) ?_
    exact fun _ s3 _ => .of_pure true_stable trivial

/-! ## 4. Adoption -/

theorem settled_stable : Stable (PassStep plugin target) (Settled plugin target) :=
  fun _ _ hR => hR.settled

/-- A volume is listed under the ID it shows. -/
theorem adoptFound_passes {now : Int} {found : Discovered} {facts : CertFacts}
    (ht : found.targetPath = target) (hs : Settled plugin target s)
    (hshown : Holds plugin.reader s target facts.spiffeId) :
    Passes plugin target (fun _ _ => True) (adoptFound plugin now found facts) s := by
  have hA : Stable (PassStep plugin target) fun s =>
      Settled plugin target s ∧ Holds plugin.reader s target facts.spiffeId :=
    settled_stable.and shown_stable
  have hinsert : ∀ entry : Entry, entry.targetPath = target → entry.spiffeId = facts.spiffeId →
      ∀ s, Settled plugin target s ∧ Holds plugin.reader s target facts.spiffeId →
        Passes plugin target (fun _ _ => True) (ask (.storeInsert entry) >>= fun _ =>
          if plugin.cfg.policyGid.isSome = true then
            ask (.expose (farmName found.volumeId) found.targetPath) >>= fun _ => pure ()
          else pure () : Prog NodeSig Unit) s := by
    intro entry hentry hid s hs
    have hlist : Passes plugin target (fun _ _ => True) (ask (.storeInsert entry)) s := by
      refine .of_op hA (fun _ => true_stable) hs ?_
      rintro s1 _ s2 ⟨hsettled, hheld⟩ rfl
      refine ⟨.of_store rfl ?_, trivial⟩
      intro _ e he
      have he : e ∈ (s1.store.insert entry).entriesAt target := he
      rw [Store.entriesAt_insert, if_pos hentry] at he
      obtain rfl := List.mem_singleton.mp he
      rw [hid]
      refine ⟨hheld, fun hreq => ?_⟩
      obtain ⟨v, identity, hv, hshown, _⟩ := hheld
      exact hasRevision_iff.mpr ⟨v, hv, hsettled hreq v hv (by rw [hshown]; simp)⟩
    refine .seq PassStep.refl hlist ?_
    intro _ s1 _
    split
    · refine .seq PassStep.refl (passes_read rfl true_stable trivial) ?_
      exact fun _ s2 _ => .of_pure true_stable trivial
    · exact .of_pure true_stable trivial
  unfold adoptFound
  refine .seq PassStep.refl (passes_read rfl hA ⟨hs, hshown⟩) ?_
  intro renewAt s1 h1
  dsimp only
  split
  · refine .seq PassStep.refl (.map PassStep.refl (passes_read rfl hA h1) (fun _ => hA) fun _ _ h => h) ?_
    exact fun _ s2 h2 => hinsert _ ht rfl s2 h2
  · exact .seq PassStep.refl (.of_pure hA h1) fun _ s2 h2 => hinsert _ ht rfl s2 h2

/-- What the chain of a volume says it is for, the volume shows. -/
theorem readCertChain_passes (hs : Settled plugin target s) :
    Passes plugin target (fun r s => Settled plugin target s ∧
        ∀ chain facts, r = .ok chain → plugin.reader.inspect chain = .ok facts →
          Holds plugin.reader s target facts.spiffeId)
      (ask (.readCertChain target)) s := by
  refine .of_op settled_stable ?_ hs ?_
  · intro r s1 s2 hR h
    exact ⟨hR.settled h.1, fun chain facts hr hf => shown_stable s1 s2 hR (h.2 chain facts hr hf)⟩
  intro s1 r s2 h1 hw
  refine ⟨.of_calm (.of_other hw (target_ne rfl)), ?_⟩
  obtain ⟨rfl, hread⟩ := hw
  refine ⟨h1, ?_⟩
  intro chain facts hr hfacts
  obtain ⟨v, identity, hv, hid, rfl⟩ := hread chain hr
  exact ⟨v, identity, hv, hid, facts, hfacts, rfl⟩

theorem adoptOne_passes {now : Int} {found : Discovered} (hs : Settled plugin target s) :
    Passes plugin target (fun _ _ => True) (adoptOne plugin now found) s := by
  by_cases ht : found.targetPath = target
  · subst ht
    refine .seq PassStep.refl (passes_read rfl settled_stable hs) ?_
    intro held s1 h1
    split
    · exact .of_pure true_stable trivial
    refine .seq PassStep.refl (readCertChain_passes h1) ?_
    rintro r s2 ⟨hsettled, hshown⟩
    cases r with
    | error e => exact .of_pure true_stable trivial
    | ok chain =>
      dsimp only
      split
      · exact .of_pure true_stable trivial
      rename_i facts hfacts
      split
      · exact .of_pure true_stable trivial
      refine .seq PassStep.refl (adoptFound_passes rfl hsettled (hshown chain facts rfl hfacts)) ?_
      exact fun _ s3 _ => .of_pure true_stable trivial
  · refine passes_other (adoptOne_makes (fun _ hop _ => target_ne hop) ?_) true_stable trivial
    intro entry hentry he
    exact ht (hentry.symm.trans (Option.some.inj he))

/-- **An adoption pass** on volumes that have a policy where one is required. -/
theorem adopt_passes (hs : Settled plugin target s) :
    Passes plugin target (fun _ _ => True) (adopt plugin) s := by
  refine .seq PassStep.refl (passes_read rfl settled_stable hs) ?_
  intro now s1 h1
  refine .seq PassStep.refl (passes_read rfl settled_stable h1) ?_
  intro found s2 h2
  induction found generalizing s2 with
  | nil => exact .of_pure true_stable trivial
  | cons first rest ih =>
    refine .seq PassStep.refl ((adoptOne_passes h2).keeps settled_stable h2) ?_
    intro adopted s3 h3
    refine .seq PassStep.refl (ih s3 h3) ?_
    exact fun _ s4 _ => .of_pure true_stable trivial

end Svidlet.Node
