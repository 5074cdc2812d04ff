import Svidlet.Node.World

/-!
# What an OK from `NodePublishVolume` promises

The kubelet starts the pod's containers on an OK, so an OK promises that the volume is complete:

> **key, chain and CA of an identity for the pod's ID, and a policy revision where one is required.**

A call answers OK in two ways. Either it has done the work itself, or the store has an entry for the
target with the same ID and the call believes it. The first is a matter of one program; the second
makes the store's truthfulness (`Truthful`) the invariant everything hangs on, and three loops write
the store.

This module has the contract of the kubelet's two calls at their target. What they rely on is `Calm`:
while a call is at work nobody else touches the entry or the volume, except that a policy may arrive.
What each of their steps guarantees is that an entry of the store stays a promise kept. Who keeps the
others calm is not said here: `Node.PublishOk` puts the calls into a pool with the loops of `Node.Passes`,
and `Node.Rollback` with calls of their own kind.
-/

namespace Svidlet.Node

open Lib Issue
open Volume (Identity Modes)

variable {E : RegexEngine} {plugin : Plugin E} {s s' : NodeState} {target : String} {id : SpiffeId}

/-! ## 1. Promises -/

/-- What an OK for a target and an ID promises. -/
def Promised (plugin : Plugin E) (s : NodeState) (target : String) (id : SpiffeId) : Prop :=
  Holds plugin.reader s target id ∧ (plugin.cfg.policyRequired = true → HasRevision s target)

/-- Every entry of the store for this target is a promise kept. -/
def Truthful (plugin : Plugin E) (target : String) (s : NodeState) : Prop :=
  ∀ e ∈ s.store.entriesAt target, Promised plugin s target e.spiffeId

/-- A publish for this ID would find its target in the store. -/
def Listed (target : String) (id : SpiffeId) (s : NodeState) : Prop :=
  ∃ e, s.store.get target = some e ∧ e.spiffeId = id

theorem Truthful.promised (h : Truthful plugin target s) (hl : Listed target id s) :
    Promised plugin s target id := by
  obtain ⟨e, he, rfl⟩ := hl
  exact h e (Store.mem_of_get he)

theorem truthful_of_unlisted (h : s.store.get target = none) : Truthful plugin target s := by
  intro e he
  rw [Store.get_eq_none.mp h] at he
  cases he

theorem Promised.of_holds {id : SpiffeId} (h : Promised plugin s target id)
    (hstep : Holds plugin.reader s target id → Holds plugin.reader s' target id ∧
      (HasRevision s target → HasRevision s' target)) : Promised plugin s' target id := by
  obtain ⟨hh, hr⟩ := hstep h.1
  exact ⟨hh, fun hreq => hr (h.2 hreq)⟩

/-- The IDs a request can be answered OK for: the one its context renders to. -/
def Wants (plugin : Plugin E) (req : PublishRequest) (id : SpiffeId) : Prop :=
  ∃ pod podToken, checkRequest plugin req = .ok (id, pod, podToken)

/-! ## 2. Calm -/

/-- Nothing has happened at the target, except that a policy may have arrived in its volume. This is
    all that a call of the kubelet allows others to do at its target while it runs. -/
structure Calm (target : String) (s s' : NodeState) : Prop where
  entries : s'.store.entriesAt target = s.store.entriesAt target
  volume : s'.volumes target = s.volumes target ∨
    ∃ v v', s.volumes target = some v ∧ s'.volumes target = some v' ∧ Grown v v'

namespace Calm

theorem refl (s : NodeState) : Calm target s s := ⟨rfl, .inl rfl⟩

theorem trans {s1 s2 s3 : NodeState} (h : Calm target s1 s2) (h' : Calm target s2 s3) :
    Calm target s1 s3 := by
  refine ⟨h'.entries.trans h.entries, ?_⟩
  rcases h.volume with hsame | ⟨v, v1, hv, hv1, hg⟩
  · rw [← hsame]
    exact h'.volume
  rcases h'.volume with hsame | ⟨v1', v2, hv1', hv2, hg'⟩
  · exact .inr ⟨v, v1, hv, hsame.trans hv1, hg⟩
  · obtain rfl : v1' = v1 := Option.some.inj (hv1'.symm.trans hv1)
    exact .inr ⟨v, v2, hv, hv2, hg'.1.trans hg.1, fun hr => hg'.2 (hg.2 hr)⟩

/-- A call that is about another target, or about none. -/
theorem of_other {op : NodeOp} {ans : op.Ans} (h : nodeWorld op s ans s')
    (hop : op.target ≠ some target) : Calm target s s' := by
  obtain ⟨hv, hs⟩ := effect_other (effect h) hop
  exact ⟨hs, .inl hv⟩

/-- The policy daemon, at whatever target. -/
theorem of_policy {target' : String} {ans : Unit} (h : nodeWorld (.publishPolicy target') s ans s') :
    Calm target s s' := by
  by_cases ht : target' = target
  · subst ht
    obtain rfl := h
    refine ⟨rfl, ?_⟩
    rw [NodeState.setVolume_same]
    cases s.volumes target' with
    | none => exact .inl rfl
    | some v => exact .inr ⟨v, _, rfl, rfl, rfl, fun _ => rfl⟩
  · exact of_other h fun he => ht (Option.some.inj he)

theorem get (h : Calm target s s') : s'.store.get target = s.store.get target := by
  rw [Store.get_eq_head, Store.get_eq_head, h.entries]

/-- What the volume shows stays, and so does a revision. -/
theorem held (h : Calm target s s') (hh : Holds plugin.reader s target id) :
    Holds plugin.reader s' target id ∧ (HasRevision s target → HasRevision s' target) := by
  unfold Holds at *
  rw [hasRevision_iff, hasRevision_iff]
  rcases h.volume with hsame | ⟨v, v', hv, hv', hsame, hrev⟩
  · rw [hsame]
    exact ⟨hh, fun hr => hr⟩
  obtain ⟨v0, identity, hv0, hid, hfor⟩ := hh
  obtain rfl : v0 = v := Option.some.inj (hv0.symm.trans hv)
  refine ⟨⟨v', identity, hv', hsame.trans hid, hfor⟩, ?_⟩
  rintro ⟨v1, hv1, hr⟩
  obtain rfl : v1 = v0 := Option.some.inj (hv1.symm.trans hv)
  exact ⟨v', hv', hrev hr⟩

theorem truthful (h : Calm target s s') (ht : Truthful plugin target s) :
    Truthful plugin target s' := by
  intro e he
  rw [h.entries] at he
  exact (ht e he).of_holds h.held

theorem listed (h : Calm target s s') (hl : Listed target id s) : Listed target id s' := by
  unfold Listed at *
  rw [h.get]
  exact hl

end Calm

/-- A program that leaves the target alone keeps what lasts. -/
theorem reads_sat {α : Type} {R G : NodeState → NodeState → Prop} {A : NodeState → Prop}
    (hcalm : ∀ {s s'}, Calm target s s' → R s s' ∧ G s s') {p : Prog NodeSig α}
    (hp : p.Makes fun op : NodeOp => op.target ≠ some target) (hA : Stable R A) (hs : A s) :
    Sat nodeWorld R G (fun _ => A) p s := by
  apply Sat.of_makes hA ?_ hp hs
  intro op s1 ans s2 hop hw h1
  obtain ⟨hR, hG⟩ := hcalm (Calm.of_other hw hop)
  exact ⟨hG, hA s1 s2 hR h1⟩

/-- A call without a target is not about this one. -/
theorem target_ne {op : NodeOp} (h : op.target = none) : op.target ≠ some target := by
  rw [h]
  simp

theorem ioCall_sat {α : Type} {R G : NodeState → NodeState → Prop} (hrefl : ∀ s, R s s)
    {p : Prog NodeSig (Except IoError α)} {P : Except IoError α → NodeState → Prop}
    {Q : Except Error α → NodeState → Prop} (hp : Sat nodeWorld R G P p s)
    (hQ : ∀ r, Stable R (Q r)) (hPQ : ∀ r s, P r s → Q (r.mapError Error.io) s) :
    Sat nodeWorld R G Q (ioCall p).run s := by
  apply Sat.seq hrefl hp
  intro r s' hr
  exact .of_pure (hQ _) (hPQ r s' hr)

/-! ## 3. Issuing under any contract

What `issue` does step by step is the same whoever calls it and whatever others do meanwhile, so it
is said once, for any rely and guarantee that go with its steps: `work` is what the caller knows
between two of them. The kubelet's call and the renewal loop are the two callers. -/

structure IssueRules (plugin : Plugin E) (target : String) (id : SpiffeId)
    (R G : NodeState → NodeState → Prop) (work : NodeState → Prop) : Prop where
  refl : ∀ s, R s s
  calm : ∀ {s s'}, Calm target s s' → R s s' ∧ G s s'
  work_stable : Stable R work
  held : ∀ {s s'}, R s s' → Holds plugin.reader s target id →
    Holds plugin.reader s' target id ∧ (HasRevision s target → HasRevision s' target)
  publish : ∀ {identity modes s ans s'}, work s → IdentityFor plugin.reader identity id →
    nodeWorld (.publishIdentity target identity modes .issued) s ans s' → G s s' ∧ work s'

namespace IssueRules

variable {R G : NodeState → NodeState → Prop} {work A : NodeState → Prop} {α : Type}

theorem holds_stable (rules : IssueRules plugin target id R G work) :
    Stable R fun s => Holds plugin.reader s target id :=
  fun _ _ hR h => (rules.held hR h).1

theorem read (rules : IssueRules plugin target id R G work) {op : NodeOp}
    (hop : op.target = none) (hA : Stable R A) (hs : A s) :
    Sat nodeWorld R G (fun _ => A) (ask op) s :=
  reads_sat rules.calm (.of_op (target_ne hop)) hA hs

/-- What `issue` leaves behind: the caller is still at work, and on success the identity is there. -/
def Issued {α : Type} (plugin : Plugin E) (target : String) (id : SpiffeId)
    (work : NodeState → Prop) (r : Except Error α) (s : NodeState) : Prop :=
  work s ∧ ((∃ a, r = .ok a) → Holds plugin.reader s target id)

theorem issued_stable (rules : IssueRules plugin target id R G work)
    (r : Except Error α) : Stable R (Issued plugin target id work r) := by
  intro s s' hR h
  exact ⟨rules.work_stable s s' hR h.1, fun hr => rules.holds_stable s s' hR (h.2 hr)⟩

theorem issued_error {e : Error} (hs : work s) :
    Issued plugin target id work (.error e : Except Error α) s := by
  refine ⟨hs, ?_⟩
  rintro ⟨a, ha⟩
  cases ha

theorem publish_sat (rules : IssueRules plugin target id R G work)
    {identity : Identity} {modes : Modes} (hfor : IdentityFor plugin.reader identity id)
    (hs : work s) :
    Sat nodeWorld R G (Issued plugin target id work)
      (ioCall (ask (.publishIdentity target identity modes .issued))).run s := by
  apply ioCall_sat rules.refl (P := fun r s => work s ∧ (r = .ok () → Holds plugin.reader s target id))
  · refine .of_op rules.work_stable ?_ hs ?_
    · intro r s s' hR h
      exact ⟨rules.work_stable s s' hR h.1, fun hr => rules.holds_stable s s' hR (h.2 hr)⟩
    intro s1 ans s2 h1 hcall
    obtain ⟨hG, hs2⟩ := rules.publish h1 hfor hcall
    refine ⟨hG, hs2, ?_⟩
    intro hok
    subst hok
    exact publishIdentity_holds hcall hfor
  · exact rules.issued_stable
  · intro r s' h
    refine ⟨h.1, ?_⟩
    rintro ⟨a, ha⟩
    cases r with
    | error e => cases ha
    | ok u => exact h.2 rfl

theorem issue_sat (rules : IssueRules plugin target id R G work) {pod : PodRef}
    {podToken : Option PodToken} (hs : work s) :
    Sat nodeWorld R G (Issued plugin target id work) (issue plugin id target pod podToken).run s := by
  have herr : ∀ e, Stable R (Issued plugin target id work (.error e : Except Error IssuedBundle)) :=
    fun e => rules.issued_stable _
  apply Sat.run_bind rules.refl (rules.read rfl rules.work_stable hs) herr ?_
    fun _ _ h => issued_error h
  intro generated s1 h1
  apply Sat.run_bind rules.refl (rules.read rfl rules.work_stable h1) herr ?_
    fun _ _ h => issued_error h
  intro reply s2 h2
  apply Sat.result_bind herr ?_ fun _ _ => issued_error h2
  intro bundle hbundle
  apply Sat.result_bind herr ?_ fun _ _ => issued_error h2
  intro leafKey _
  apply Sat.result_bind herr ?_ fun _ _ => issued_error h2
  intro _ _
  apply Sat.lift_bind rules.refl (rules.read rfl rules.work_stable h2)
  intro cached s3 h3
  -- whatever the backend signed, a bundle that got this far is for the ID that was asked for
  obtain ⟨facts, hfacts, hid, _⟩ := bundleOf_ok hbundle
  apply Sat.run_bind rules.refl (rules.publish_sat ⟨facts, hfacts, hid⟩ h3) herr ?_
    fun _ _ h => issued_error h.1
  intro _ s4 h4
  apply Sat.of_pure (rules.issued_stable _)
  exact ⟨h4.1, fun _ => h4.2 ⟨_, rfl⟩⟩

end IssueRules

/-! ## 4. The kubelet's calls

`start` of a call is a truthful store. A call that finds its target unlisted is `Working` until it
lists it or gives up; nothing is known after it has taken the volume back but that the target is
still unlisted, and nothing needs to be, as that is the last step of a call that fails. -/

/-- What each step of a publish guarantees: entries stay promises kept, and stay. -/
structure Guar (plugin : Plugin E) (target : String) (s s' : NodeState) : Prop where
  truthful : Truthful plugin target s → Truthful plugin target s'
  listed : ∀ id, Listed target id s → Listed target id s'

theorem Guar.of_calm (h : Calm target s s') : Guar plugin target s s' :=
  ⟨h.truthful, fun _ => h.listed⟩

theorem truthful_stable : Stable (Calm target) (Truthful plugin target) := fun _ _ h => h.truthful

theorem listed_stable : Stable (Calm target) (Listed target id) := fun _ _ h => h.listed

theorem unlisted_stable : Stable (Calm target) fun s => s.store.get target = none :=
  fun _ _ h hn => h.get.trans hn

theorem holds_stable : Stable (Calm target) fun s => Holds plugin.reader s target id :=
  fun _ _ hR h => (hR.held h).1

theorem held_stable (p : Prop) : Stable (Calm target) fun s =>
    Holds plugin.reader s target id ∧ (p → HasRevision s target) := by
  intro s s' hR h
  obtain ⟨hh, hr⟩ := hR.held h.1
  exact ⟨hh, fun hp => hr (h.2 hp)⟩

/-- A step of ours that leaves the unlisted target unlisted. -/
theorem unlisted_step {op : NodeOp} {ans : op.Ans} (hw : nodeWorld op s ans s')
    (hins : ∀ e, op ≠ .storeInsert e) (hs : s.store.get target = none) :
    Guar plugin target s s' ∧ s'.store.get target = none := by
  have hnone : s'.store.get target = none := by
    rw [Store.get_eq_none, List.eq_nil_iff_forall_not_mem]
    intro e he
    rcases effect_entry (effect hw) he with ⟨e0, he0, _⟩ | hop
    · rw [Store.get_eq_none.mp hs] at he0
      cases he0
    · exact hins e hop
  refine ⟨⟨fun _ => truthful_of_unlisted hnone, ?_⟩, hnone⟩
  rintro id ⟨e, he, _⟩
  rw [hs] at he
  cases he

/-- What a publish knows once its target is in the store. -/
def Delivered (plugin : Plugin E) (target : String) (id : SpiffeId) (s : NodeState) : Prop :=
  Truthful plugin target s ∧ Listed target id s

theorem delivered_stable : Stable (Calm target) (Delivered plugin target id) :=
  truthful_stable.and listed_stable

/-- Listing a target whose promise is kept. -/
theorem insert_step {entry : Entry} {ans : Unit} (htarget : entry.targetPath = target)
    (hnone : s.store.get target = none) (hp : Promised plugin s target entry.spiffeId)
    (hcall : nodeWorld (.storeInsert entry) s ans s') :
    Guar plugin target s s' ∧ Delivered plugin target entry.spiffeId s' := by
  obtain rfl := hcall
  have hget : (s.store.insert entry).get target = some entry := by
    rw [Store.get_insert, if_pos htarget]
  have htruthful : Truthful plugin target { s with store := s.store.insert entry } := by
    intro e he
    rw [show ({ s with store := s.store.insert entry } : NodeState).store.entriesAt target = [entry]
      from (Store.entriesAt_insert s.store entry target).trans (if_pos htarget)] at he
    obtain rfl := List.mem_singleton.mp he
    exact hp
  refine ⟨⟨fun _ => htruthful, ?_⟩, htruthful, entry, hget, rfl⟩
  rintro id ⟨e, he, _⟩
  rw [hnone] at he
  cases he

/-- A republish of a target that is listed only renews its pod token. -/
theorem setPodToken_step {token : Option PodToken} {ans : Unit} (hs : Delivered plugin target id s)
    (hcall : nodeWorld (.storeSetPodToken target token) s ans s') :
    Guar plugin target s s' ∧ Delivered plugin target id s' := by
  have hG : Guar plugin target s s' := by
    refine ⟨?_, ?_⟩
    · intro ht e he
      rcases effect_entry (effect hcall) he with ⟨e0, he0, hid⟩ | hop
      · rw [← hid]
        exact (ht e0 he0).of_holds fun hh => effect_holds (effect hcall) hh (by simp) (by simp)
      · cases hop
    · rintro id ⟨e, he, rfl⟩
      obtain rfl := hcall
      refine ⟨_, (Store.get_setPodToken s.store target token).trans (by rw [he]; rfl), ?_⟩
      dsimp only
      split <;> rfl
  exact ⟨hG, hG.truthful hs.1, hG.listed id hs.2⟩

/-- A program of a publish keeps its contract. -/
abbrev Meets {α : Type} (plugin : Plugin E) (target : String) (Q : α → NodeState → Prop)
    (p : Prog NodeSig α) (s : NodeState) : Prop :=
  Sat nodeWorld (Calm target) (Guar plugin target) Q p s

variable {A : NodeState → Prop}

theorem reads_meets {α : Type} {p : Prog NodeSig α}
    (hp : p.Makes fun op : NodeOp => op.target ≠ some target) (hA : Stable (Calm target) A)
    (hs : A s) : Meets plugin target (fun _ => A) p s :=
  reads_sat (fun h => ⟨h, .of_calm h⟩) hp hA hs

theorem read_meets {op : NodeOp} (hop : op.target = none) (hA : Stable (Calm target) A) (hs : A s) :
    Meets plugin target (fun _ => A) (ask op) s :=
  reads_meets (.of_op (target_ne hop)) hA hs

theorem callRules : IssueRules plugin target id (Calm target) (Guar plugin target)
    fun s => s.store.get target = none where
  refl := Calm.refl
  calm h := ⟨h, .of_calm h⟩
  work_stable := unlisted_stable
  held h hh := h.held hh
  publish hs _ hcall := unlisted_step hcall (by simp) hs

/-- Waiting for a policy disturbs nothing, and `true` means that one is there. -/
theorem waitForPolicy_meets (rounds : Nat) :
    ∀ s, s.store.get target = none ∧ Holds plugin.reader s target id →
      Meets plugin target (fun there s => s.store.get target = none ∧
          Holds plugin.reader s target id ∧ (there = true → HasRevision s target))
        (waitForPolicy target rounds) s := by
  have hA : Stable (Calm target) fun s =>
      s.store.get target = none ∧ Holds plugin.reader s target id :=
    unlisted_stable.and holds_stable
  have hB : ∀ there : Bool, Stable (Calm target) fun s => s.store.get target = none ∧
      Holds plugin.reader s target id ∧ (there = true → HasRevision s target) :=
    fun there => unlisted_stable.and (held_stable _)
  induction rounds with
  | zero =>
    intro s hs
    exact .of_pure (hB false) ⟨hs.1, hs.2, by simp⟩
  | succ rounds ih =>
    intro s hs
    have hlook : Meets plugin target (fun there s => s.store.get target = none ∧
        Holds plugin.reader s target id ∧ (there = true → HasRevision s target))
        (ask (.revisionExists target)) s := by
      refine .of_op hA hB hs ?_
      intro s1 there s2 h1 hcall
      have hG : Guar plugin target s1 s2 := .of_calm (.of_other hcall (target_ne rfl))
      obtain ⟨hans, rfl⟩ := hcall
      exact ⟨hG, h1.1, h1.2, fun ht => hans.symm.trans ht⟩
    apply Sat.seq Calm.refl hlook
    intro there s1 h1
    cases there with
    | true => exact .of_pure (hB true) h1
    | false =>
      apply Sat.seq Calm.refl (read_meets rfl hA ⟨h1.1, h1.2.1⟩)
      intro passed s2 h2
      cases passed with
      | true => exact .of_pure (hB false) ⟨h2.1, h2.2, by simp⟩
      | false => exact ih s2 h2

/-- The volume is taken back, and that is the end. -/
theorem takeBack_meets (hs : s.store.get target = none) :
    Meets plugin target (fun _ _ => True) (ask (.unpublish target)) s := by
  refine .of_op unlisted_stable (fun _ _ _ _ _ => trivial) hs ?_
  intro s1 ans s2 h1 hcall
  exact ⟨(unlisted_step hcall (by simp) h1).1, trivial⟩

/-- Either the volume is exposed and everything is as before, or the call has failed. -/
theorem exposeVolume_meets (hs : s.store.get target = none ∧ Holds plugin.reader s target id)
    (volumeId : String) :
    Meets plugin target
      (fun r s => r = .ok () → s.store.get target = none ∧ Holds plugin.reader s target id)
      (exposeVolume plugin volumeId target).run s := by
  have hA : Stable (Calm target) fun s =>
      s.store.get target = none ∧ Holds plugin.reader s target id :=
    unlisted_stable.and holds_stable
  have hQ : ∀ r : Except Status Unit, Stable (Calm target) fun s =>
      r = .ok () → s.store.get target = none ∧ Holds plugin.reader s target id :=
    fun r s s' hR h hr => hA s s' hR (h hr)
  unfold exposeVolume
  split
  · apply Sat.lift_bind Calm.refl (read_meets rfl hA hs)
    intro answer s1 h1
    cases answer with
    | ok u => exact .of_pure (hQ _) fun _ => h1
    | error e =>
      apply Sat.lift_bind Calm.refl (takeBack_meets h1.1)
      intro _ s2 _
      exact .of_pure (hQ _) (by intro h; cases h)
  · exact .of_pure (hQ _) fun _ => hs

/-- Whoever gets past this point has a policy if one is required. -/
theorem awaitPolicy_meets (hs : s.store.get target = none)
    (hheld : Holds plugin.reader s target id) (volumeId : String) :
    Meets plugin target (fun r s => r = .ok () → s.store.get target = none ∧ Promised plugin s target id)
      (awaitPolicy plugin id volumeId target).run s := by
  have hQ : ∀ r : Except Status Unit, Stable (Calm target) fun s =>
      r = .ok () → s.store.get target = none ∧ Promised plugin s target id :=
    fun r s s' hR h hr => unlisted_stable.and (held_stable _) s s' hR (h hr)
  unfold awaitPolicy
  split
  · apply Sat.lift_bind Calm.refl (waitForPolicy_meets _ s ⟨hs, hheld⟩)
    intro there s1 h1
    cases there with
    | true => exact .of_pure (hQ _) fun _ => ⟨h1.1, h1.2.1, fun _ => h1.2.2 rfl⟩
    | false =>
      apply Sat.lift_bind Calm.refl
        (reads_meets (unexposeVolume_makes fun _ => target_ne) unlisted_stable h1.1)
      intro _ s2 h2
      apply Sat.lift_bind Calm.refl (takeBack_meets h2)
      intro _ s3 _
      exact .of_pure (hQ _) (by intro h; cases h)
  · rename_i hnot
    exact .of_pure (hQ _) fun _ => ⟨hs, hheld, fun hreq => absurd hreq hnot⟩

theorem publishNew_meets {req : PublishRequest} {pod : PodRef} {podToken : Option PodToken}
    (hs : s.store.get req.targetPath = none) :
    Meets plugin req.targetPath (fun r s => r = .ok () → Delivered plugin req.targetPath id s)
      (publishNew plugin req id pod podToken).run s := by
  have hQ : ∀ r : Except Status Unit, Stable (Calm req.targetPath) fun s =>
      r = .ok () → Delivered plugin req.targetPath id s :=
    fun r s s' hR h hr => delivered_stable s s' hR (h hr)
  have hissue : Meets plugin req.targetPath
      (IssueRules.Issued plugin req.targetPath id fun s => s.store.get req.targetPath = none) (do
        ioCall (ask (.ensureTmpfs req.targetPath plugin.cfg.tmpfsSize plugin.cfg.policyGid))
        issue plugin id req.targetPath pod podToken : Fallible NodeSig Error IssuedBundle).run s := by
    have hmount : Meets plugin req.targetPath (fun _ s => s.store.get req.targetPath = none)
        (ask (.ensureTmpfs req.targetPath plugin.cfg.tmpfsSize plugin.cfg.policyGid)) s := by
      refine .of_op unlisted_stable (fun _ => unlisted_stable) hs ?_
      exact fun _ _ _ h1 hcall => unlisted_step hcall (by simp) h1
    refine .run_bind Calm.refl
      (ioCall_sat Calm.refl hmount (fun _ => unlisted_stable) fun _ _ h => h)
      (fun _ => callRules.issued_stable _) ?_ fun _ _ h => IssueRules.issued_error h
    intro _ s1 h1
    exact callRules.issue_sat h1
  refine .lift_bind Calm.refl hissue ?_
  intro outcome s1 h1
  cases outcome with
  | error e =>
    refine .lift_bind Calm.refl (takeBack_meets h1.1) ?_
    intro _ s2 _
    exact .of_pure (hQ _) (by intro h; cases h)
  | ok bundle =>
    refine .run_bind Calm.refl (exposeVolume_meets ⟨h1.1, h1.2 ⟨bundle, rfl⟩⟩ req.volumeId)
      (fun _ => hQ _) ?_ (by intro e s' _ h; cases h)
    intro _ s2 h2
    obtain ⟨hunlisted, hheld⟩ := h2 rfl
    refine .run_bind Calm.refl (awaitPolicy_meets hunlisted hheld req.volumeId) (fun _ => hQ _) ?_
      (by intro e s' _ h; cases h)
    intro _ s3 h3
    have hready : Stable (Calm req.targetPath) fun s =>
        s.store.get req.targetPath = none ∧ Promised plugin s req.targetPath id :=
      unlisted_stable.and (held_stable _)
    refine .lift_bind Calm.refl (read_meets rfl hready (h3 rfl)) ?_
    intro renewAt s4 h4
    have hinsert : ∀ entry : Entry, entry.targetPath = req.targetPath → entry.spiffeId = id →
        Meets plugin req.targetPath (fun _ => Delivered plugin req.targetPath id)
          (ask (.storeInsert entry)) s4 := by
      intro entry htarget hid
      subst hid
      refine .of_op hready (fun _ => delivered_stable) h4 ?_
      exact fun _ _ _ h hcall => insert_step htarget h.1 h.2 hcall
    refine .lift_bind Calm.refl (hinsert _ rfl rfl) ?_
    intro _ s5 h5
    refine .lift_bind Calm.refl (read_meets rfl delivered_stable h5) ?_
    intro passed s6 h6
    cases passed with
    | true => exact .of_pure (hQ _) fun _ => h6
    | false =>
      refine .lift_bind Calm.refl
        (reads_meets (refreshTokens_makes fun _ => target_ne) delivered_stable h6) ?_
      intro _ s7 h7
      exact .of_pure (hQ _) fun _ => h7

/-- What the store answers about the target, once it has answered. -/
theorem storeGet_meets (hs : Truthful plugin target s) :
    Meets plugin target (fun answer s => (answer = none → s.store.get target = none) ∧
        ∀ e, answer = some e → Delivered plugin target e.spiffeId s)
      (ask (.storeGet target)) s := by
  refine .of_op truthful_stable ?_ hs ?_
  · intro answer s1 s2 hR h
    exact ⟨fun ha => unlisted_stable s1 s2 hR (h.1 ha),
      fun e ha => delivered_stable s1 s2 hR (h.2 e ha)⟩
  intro s1 answer s2 h1 hcall
  have hG : Guar plugin target s1 s2 := .of_calm (.of_other hcall (target_ne rfl))
  obtain ⟨hanswer, rfl⟩ := hcall
  exact ⟨hG, fun ha => hanswer.symm.trans ha, fun e ha => ⟨h1, e, hanswer.symm.trans ha, rfl⟩⟩

/-- **An OK keeps its promise**: a call that started with a truthful store at its target and is
    answered OK has its target listed for the ID its context renders to, and entries are promises
    kept. -/
theorem nodePublishVolume_meets {req : PublishRequest} (hs : Truthful plugin req.targetPath s) :
    Meets plugin req.targetPath
      (fun r s => r = .ok () → ∃ id, Wants plugin req id ∧ Delivered plugin req.targetPath id s)
      (nodePublishVolume plugin req).run s := by
  have hQ : ∀ r : Except Status Unit, Stable (Calm req.targetPath) fun s =>
      r = .ok () → ∃ id, Wants plugin req id ∧ Delivered plugin req.targetPath id s := by
    intro r s1 s2 hR h hok
    obtain ⟨id, hw, hl⟩ := h hok
    exact ⟨id, hw, delivered_stable s1 s2 hR hl⟩
  refine .result_bind (fun _ => hQ _) ?_ (by intro e _ h; cases h)
  intro checked hcheck
  obtain ⟨id, pod, podToken⟩ := checked
  have hw : Wants plugin req id := ⟨pod, podToken, hcheck⟩
  refine .lift_bind Calm.refl (storeGet_meets hs) ?_
  intro answer s1 h1
  cases answer with
  | none =>
    refine .mono ?_ (publishNew_meets (h1.1 rfl))
    intro r s2 h2 hok
    exact ⟨id, hw, h2 hok⟩
  | some existing =>
    show Sat _ _ _ _ (ExceptT.run (if existing.spiffeId = id then _ else _)) s1
    split
    · rename_i hsame
      subst hsame
      refine .map Calm.refl (P := fun _ => Delivered plugin req.targetPath existing.spiffeId) ?_ hQ ?_
      · refine .of_op delivered_stable (fun _ => delivered_stable) (h1.2 existing rfl) ?_
        exact fun _ _ _ h hcall => setPodToken_step h hcall
      · exact fun _ s2 h2 _ => ⟨_, hw, h2⟩
    · exact .of_pure (hQ _) (by intro h; cases h)

/-- An unpublish takes the entry out first and so leaves no promise behind. -/
theorem nodeUnpublishVolume_meets {req : UnpublishRequest} :
    Sat nodeWorld (Calm req.targetPath)
      (fun s s' => Truthful plugin req.targetPath s → Truthful plugin req.targetPath s')
      (fun _ _ => True) (nodeUnpublishVolume plugin req).run s := by
  have hQ : Stable (Calm req.targetPath) fun _ : NodeState => True := fun _ _ _ _ => trivial
  refine .result_bind (fun _ => hQ) ?_ fun _ _ => trivial
  intro _ _
  have hremove : Sat nodeWorld (Calm req.targetPath)
      (fun s s' => Truthful plugin req.targetPath s → Truthful plugin req.targetPath s')
      (fun _ s => s.store.get req.targetPath = none) (ask (.storeRemove req.targetPath)) s := by
    refine .of_op hQ (fun _ => unlisted_stable) trivial ?_
    intro s1 ans s2 _ hcall
    have hnone : s2.store.get req.targetPath = none := by
      obtain ⟨_, rfl⟩ := hcall
      exact (Store.get_remove s1.store _ _).trans (if_pos rfl)
    exact ⟨fun _ => truthful_of_unlisted hnone, hnone⟩
  refine .lift_bind Calm.refl hremove ?_
  intro _ s1 h1
  refine .lift_bind Calm.refl (.weaken (fun _ _ h => h) (fun _ _ h => h.truthful)
    (reads_meets (unexposeVolume_makes fun _ => target_ne) unlisted_stable h1)) ?_
  intro _ s2 h2
  refine .lift_bind Calm.refl (.weaken (fun _ _ h => h) (fun _ _ h => h.truthful)
    (takeBack_meets h2)) ?_
  intro answer s3 _
  cases answer with
  | ok u => exact .of_pure hQ trivial
  | error e => exact .of_pure hQ trivial

end Svidlet.Node
