import Svidlet.Node.World

/-!
# Renewal and the trust bundle

Two loops write the same volume. The renewal loop issues a certificate, publishes it and records
its expiry in the store; the refresh loop reads the identity on show, puts the new trust bundle into
it, and publishes it again. Between the refresh's read and its publish there is no lock.

`refresh_restores_old_leaf` is what that leads to: a renewal in between is undone, and the volume is
left with the old key and the old certificate while the store has the new one's expiry, so that
nobody will renew it before the old one runs out.

With a refresh that publishes only what is still on show (`StillShown`) the volume always has the
certificate issued last, however publishes fail. The store is another matter. A renewal records the
expiry of what it has published when its publish has succeeded, and a publish may fail **after** its swap:
the links at the top of the volume, and the old versions, are seen to once the new one is in place. Then
the new leaf is on show and the store has the old one's expiry. So that the two agree whenever neither
loop is at work is said of runs in which a publish that fails has changed nothing (`FailsWhole`).

A publish is one step here, as is the reading of an identity.
-/

namespace Svidlet.Node

open Lib Issue
open Volume (Identity Modes)

variable {E : RegexEngine} {plugin : Plugin E} {s s' : NodeState} {target : String}

/-! ## 1. The two loops -/

/-- A publish that fails has changed nothing. -/
def FailsWhole : (op : NodeOp) → NodeState → op.Ans → NodeState → Prop
  | .publishIdentity _ _ _ _, s, .error _, s' => s' = s
  | _, _, _, _ => True

/-- The two loops of a process that is not restarted. -/
def passSystem (plugin : Plugin E) : System NodeSig NodeState Task TaskResult where
  world := nodeWorld
  body := body plugin
  restart _ _ := False

/-- The same where a publish happens whole or not at all. -/
def wholeSystem (plugin : Plugin E) : System NodeSig NodeState Task TaskResult where
  world op s ans s' := nodeWorld op s ans s' ∧ FailsWhole op s ans s'
  body := body plugin
  restart _ _ := False

/-- Passes of the two loops and nothing else. There is one renewal loop, and it waits for a pass to
    end before it starts the next. -/
def TwoLoops (P : NodePool) : NodeMove → Prop
  | .start _ task => task = .refreshCa ∨ task = .renew ∧ P.Idle (· = .renew)
  | _ => True

/-- A refresh publishes into the target only while it still shows the key and the chain that the
    refresh has read. -/
def StillShown (target : String) (P : NodePool) : NodeMove → Prop
  | .call _ (.publishIdentity target' identity _ .caOnly) _ =>
    target' = target → ∃ v shown, P.state.volumes target = some v ∧ v.identity = some shown ∧
      shown.keyPem = identity.keyPem ∧ shown.certChainPem = identity.certChainPem
  | _ => True

/-! ## 2. Key and leaf, and the expiry on record -/

/-- The part of an identity that a certificate comes with. -/
def leafOf (identity : Identity) : String × String := (identity.keyPem, identity.certChainPem)

/-- Key and chain on show. -/
def leafAt (s : NodeState) (target : String) : Option (String × String) :=
  ((s.volumes target).bind (·.identity)).map leafOf

/-- Key and chain issued last. -/
def lastIssued (s : NodeState) (target : String) : Option (String × String) :=
  (s.issued target).map leafOf

def expiryAt (s : NodeState) (target : String) : Option Int := (s.store.get target).map (·.notAfter)

/-- The volume shows the key and the chain of the certificate issued last for it. -/
def ShowsNewest (s : NodeState) (target : String) : Prop :=
  ∃ leaf, leafAt s target = some leaf ∧ lastIssued s target = some leaf

/-- The store has the expiry of the leaf on show. -/
def Agrees (reader : CertReader) (s : NodeState) (target : String) : Prop :=
  ∃ leaf facts, leafAt s target = some leaf ∧ reader.inspect leaf.2 = .ok facts ∧
    expiryAt s target = some facts.notAfter

theorem leafAt_congr (h : s'.volumes target = s.volumes target) :
    leafAt s' target = leafAt s target := by
  unfold leafAt
  rw [h]

variable {identity : Identity}

theorem leafAt_publish {v : VolumeState} {origin : Origin} :
    leafAt (s.publish target v identity origin) target = some (leafOf identity) := by
  have hv : (s.publish target v identity origin).volumes target
      = some { v with identity := some identity } := NodeState.setVolume_same s target _
  simp [leafAt, hv]

theorem expiryAt_congr (h : s'.store.get target = s.store.get target) :
    expiryAt s' target = expiryAt s target := by
  unfold expiryAt
  rw [h]

variable {leaf : String × String}

theorem volume_of_leafAt (h : leafAt s target = some leaf) :
    ∃ v, s.volumes target = some v := by
  unfold leafAt at h
  cases hv : s.volumes target with
  | none => simp [hv] at h
  | some v => exact ⟨v, rfl⟩

variable {op : NodeOp}

/-- What a call does to the leaf on show, if it does not unpublish. -/
theorem leaf_step (h : Effect op s s') (hleaf : leafAt s target = some leaf)
    (hun : op ≠ .unpublish target) :
    leafAt s' target = some leaf ∨ ∃ identity modes origin,
      op = .publishIdentity target identity modes origin ∧
        leafAt s' target = some (leafOf identity) := by
  obtain ⟨v, hv⟩ := volume_of_leafAt hleaf
  have hid : v.identity.map leafOf = some leaf := by
    rw [leafAt, hv] at hleaf
    exact hleaf
  rcases effect_volume h hv with ⟨v', hv', hsame, _⟩ | ⟨identity, modes, origin, hop, hv'⟩ | hop
  · refine .inl ?_
    rw [leafAt, hv']
    show v'.identity.map leafOf = _
    rw [hsame, hid]
  · refine .inr ⟨identity, modes, origin, hop, ?_⟩
    rw [leafAt, hv']
    rfl
  · exact absurd hop hun

variable {ans : op.Ans}

/-- Every call keeps the newest leaf on show, if no call unpublishes and a refresh publishes only
    the leaf that is there. -/
theorem showsNewest_step (h : nodeWorld op s ans s') (hun : op ≠ .unpublish target)
    (hca : ∀ identity modes, op = .publishIdentity target identity modes .caOnly →
      leafAt s target = some (leafOf identity)) (hs : ShowsNewest s target) :
    ShowsNewest s' target := by
  obtain ⟨leaf, hleaf, hlast⟩ := hs
  rcases effect_issued h with ⟨hsame, hfailed⟩ | ⟨target', v, identity, modes, hop, hv, rfl⟩
  · have hlast' : lastIssued s' target = some leaf := by
      unfold lastIssued
      rw [hsame]
      exact hlast
    rcases leaf_step (effect h) hleaf hun with hleaf' | ⟨identity, modes, origin, hop, hleaf'⟩
    · exact ⟨leaf, hleaf', hlast'⟩
    cases origin with
    | caOnly =>
      have hshown := hca identity modes hop
      rw [hleaf] at hshown
      cases hshown
      exact ⟨_, hleaf', hlast'⟩
    | issued =>
      obtain rfl := hfailed target identity modes hop
      exact ⟨leaf, hleaf, hlast⟩
  · by_cases ht : target' = target
    · subst ht
      refine ⟨leafOf identity, leafAt_publish, ?_⟩
      simp [lastIssued, NodeState.publish]
    have hne : target ≠ target' := fun he => ht he.symm
    refine ⟨leaf, ?_, ?_⟩
    · rw [← hleaf]
      exact leafAt_congr (NodeState.setVolume_other s _ hne)
    · rw [← hlast]
      simp [lastIssued, NodeState.publish, hne]

/-! ## 3. A renewal pass

While it runs, others leave the leaf and the expiry of the target alone, and it leaves them agreeing
when it ends. -/

/-- Others neither replace the leaf nor touch the expiry. -/
def SameLeaf (target : String) (s s' : NodeState) : Prop :=
  leafAt s' target = leafAt s target ∧ expiryAt s' target = expiryAt s target

/-- A renewal's program, alone with refreshes. -/
abbrev Renews {α : Type} (plugin : Plugin E) (target : String) (Q : α → NodeState → Prop)
    (p : Prog NodeSig α) (s : NodeState) : Prop :=
  Sat (wholeSystem plugin).world (SameLeaf target) (fun _ _ => True) Q p s

theorem sameLeaf_refl (s : NodeState) : SameLeaf target s s := ⟨rfl, rfl⟩

theorem agrees_stable : Stable (SameLeaf target) fun s => Agrees plugin.reader s target := by
  intro s s' hR h
  obtain ⟨leaf, facts, hleaf, hfacts, hexpiry⟩ := h
  exact ⟨leaf, facts, hR.1.trans hleaf, hfacts, hR.2.trans hexpiry⟩

theorem sameLeaf_of_other (h : Effect op s s') (hop : op.target ≠ some target) :
    SameLeaf target s s' :=
  ⟨leafAt_congr (effect_other h hop).1, expiryAt_congr (by
    rw [Store.get_eq_head, Store.get_eq_head, (effect_other h hop).2])⟩

variable {A : NodeState → Prop}

/-- A program that has nothing to do with the target keeps what holds of it. -/
theorem renews_other {α : Type} (hA : Stable (SameLeaf target) A) {p : Prog NodeSig α}
    (hp : p.Makes fun op : NodeOp => op.target ≠ some target) (hs : A s) :
    Renews plugin target (fun _ => A) p s := by
  apply Sat.of_makes hA ?_ hp hs
  intro op s1 ans s2 hop hw h1
  exact ⟨trivial, hA s1 s2 (sameLeaf_of_other (effect hw.1) hop) h1⟩

theorem renews_read (hA : Stable (SameLeaf target) A) (hop : op.target = none) (hs : A s) :
    Renews plugin target (fun _ => A) (ask op) s :=
  renews_other hA (.of_op (by rw [hop]; simp)) hs

/-- After `issue` for the target: the new leaf is on show, or nothing has changed. -/
def AfterIssue (reader : CertReader) (target : String) (r : Except Error IssuedBundle)
    (s : NodeState) : Prop :=
  match r with
  | .ok bundle => ∃ leaf facts expiry, leafAt s target = some leaf ∧
      reader.inspect leaf.2 = .ok facts ∧ facts.notAfter = bundle.notAfter ∧
      expiryAt s target = some expiry
  | .error _ => Agrees reader s target

theorem afterIssue_stable (r : Except Error IssuedBundle) :
    Stable (SameLeaf target) (AfterIssue plugin.reader target r) := by
  cases r with
  | error e => exact agrees_stable
  | ok bundle =>
    intro s s' hR h
    obtain ⟨leaf, facts, expiry, hleaf, hfacts, hna, hexpiry⟩ := h
    exact ⟨leaf, facts, expiry, hR.1.trans hleaf, hfacts, hna, hR.2.trans hexpiry⟩

variable {modes : Modes} {bundle : IssuedBundle}

/-- A publish, which happens whole or not at all. -/
theorem publish_renews {facts : CertFacts}
    (hfacts : plugin.reader.inspect identity.certChainPem = .ok facts)
    (hna : facts.notAfter = bundle.notAfter) (hs : Agrees plugin.reader s target) :
    Renews plugin target (fun r => AfterIssue plugin.reader target (r.map fun _ => bundle))
      (ioCall (ask (.publishIdentity target identity modes .issued))).run s := by
  have hcall : Renews plugin target
      (fun r => AfterIssue plugin.reader target ((r.mapError Error.io).map fun _ => bundle))
      (ask (.publishIdentity target identity modes .issued)) s := by
    refine .of_op agrees_stable (fun _ => afterIssue_stable _) hs ?_
    intro s1 r s2 h1 hw
    refine ⟨trivial, ?_⟩
    obtain ⟨hw, hwhole⟩ := hw
    cases r with
    | error e =>
      obtain rfl : s2 = s1 := hwhole
      exact h1
    | ok u =>
      obtain ⟨leaf, facts', hleaf, _, hexpiry⟩ := h1
      rcases publish_cases hw with ⟨⟨e, he⟩, _⟩ | ⟨v, _, rfl⟩
      · cases he
      · exact ⟨leafOf identity, facts, _, leafAt_publish, hfacts, hna, hexpiry⟩
  apply Sat.seq sameLeaf_refl hcall
  intro r s1 h1
  exact .of_pure (afterIssue_stable _) h1

theorem issue_renews {id : SpiffeId} {pod : PodRef} {token : Option PodToken}
    (hs : Agrees plugin.reader s target) :
    Renews plugin target (AfterIssue plugin.reader target) (issue plugin id target pod token).run s := by
  have hstop : ∀ e, Stable (SameLeaf target) (AfterIssue plugin.reader target (.error e)) :=
    fun _ => afterIssue_stable _
  refine .run_bind sameLeaf_refl (renews_read agrees_stable rfl hs) hstop ?_ fun _ _ h => h
  intro generated s1 h1
  refine .run_bind sameLeaf_refl (renews_read agrees_stable rfl h1) hstop ?_ fun _ _ h => h
  intro reply s2 h2
  refine .result_bind hstop ?_ fun _ _ => h2
  intro bundle hbundle
  refine .result_bind hstop ?_ fun _ _ => h2
  intro leafKey _
  refine .result_bind hstop ?_ fun _ _ => h2
  intro _ _
  refine .lift_bind sameLeaf_refl (renews_read agrees_stable rfl h2) ?_
  intro cached s3 h3
  obtain ⟨facts, hfacts, _, hna⟩ := bundleOf_ok hbundle
  refine .run_bind sameLeaf_refl (publish_renews hfacts hna h3) hstop ?_ fun _ _ h => h
  intro _ s4 h4
  exact .of_pure (afterIssue_stable _) h4

/-- Recording the expiry of the leaf that has just been published. -/
theorem recordRenewal_renews {renewAt : Int} (hs : AfterIssue plugin.reader target (.ok bundle) s) :
    Renews plugin target (fun _ s => Agrees plugin.reader s target)
      (ask (.storeRecordRenewal target bundle.notBefore bundle.notAfter renewAt)) s := by
  refine .of_op (afterIssue_stable (.ok bundle)) (fun _ => agrees_stable) hs ?_
  intro s1 _ s2 h1 hw
  refine ⟨trivial, ?_⟩
  obtain ⟨leaf, facts, expiry, hleaf, hfacts, hna, hexpiry⟩ := h1
  obtain ⟨e, he, _⟩ := Option.map_eq_some_iff.mp hexpiry
  obtain rfl := hw.1
  refine ⟨leaf, facts, hleaf, hfacts, ?_⟩
  show ((s1.store.recordRenewal target _ _ _).get target).map (·.notAfter) = _
  rw [Store.get_recordRenewal, he, hna]
  rfl

/-- A failed renewal moves the deadline and not the expiry. -/
theorem recordFailure_renews {now : Int} (hs : Agrees plugin.reader s target) :
    Renews plugin target (fun _ s => Agrees plugin.reader s target)
      (ask (.storeRecordFailure target now)) s := by
  refine .of_op agrees_stable (fun _ => agrees_stable) hs ?_
  intro s1 _ s2 h1 hw
  refine ⟨trivial, agrees_stable s1 s2 ⟨?_, ?_⟩ h1⟩
  · obtain ⟨draw, rfl⟩ := hw.1
    rfl
  obtain ⟨draw, rfl⟩ := hw.1
  show ((s1.store.recordFailure target _ _).get target).map (·.notAfter) = _
  rw [Store.get_recordFailure, Option.map_map]
  rfl

theorem targetExists_renews (hs : Agrees plugin.reader s target) :
    Renews plugin target (fun there s => Agrees plugin.reader s target ∧ there = true)
      (ask (.targetExists target)) s := by
  refine .of_op agrees_stable (fun _ s1 s2 hR h => ⟨agrees_stable s1 s2 hR h.1, h.2⟩) hs ?_
  intro s1 there s2 h1 hw
  obtain ⟨hthere, rfl⟩ := hw.1
  refine ⟨trivial, h1, ?_⟩
  obtain ⟨leaf, _, hleaf, _⟩ := h1
  obtain ⟨v, hv⟩ := volume_of_leafAt hleaf
  rw [hthere, hv]
  rfl

theorem renewOne_renews (entry : Entry) (hs : Agrees plugin.reader s target) :
    Renews plugin target (fun _ s => Agrees plugin.reader s target) (renewOne plugin entry) s := by
  have hA : Stable (SameLeaf target) fun s => Agrees plugin.reader s target := agrees_stable
  by_cases ht : entry.targetPath = target
  · subst ht
    refine .seq sameLeaf_refl (renews_read hA rfl hs) ?_
    intro now s1 h1
    refine .seq sameLeaf_refl (targetExists_renews h1) ?_
    intro there s2 h2
    obtain ⟨h2, rfl⟩ := h2
    refine .seq sameLeaf_refl (issue_renews h2) ?_
    intro r s3 h3
    cases r with
    | error e => exact recordFailure_renews h3
    | ok bundle =>
      refine .seq sameLeaf_refl (renews_read (afterIssue_stable _) rfl h3) ?_
      intro renewAt s4 h4
      refine .seq sameLeaf_refl (recordRenewal_renews h4) ?_
      intro _ s5 h5
      have htokens : (refreshTokens plugin entry.targetPath).run.Makes
          fun op : NodeOp => op.target ≠ some entry.targetPath :=
        refreshTokens_makes fun op hop => by rw [hop]; simp
      refine .seq sameLeaf_refl (renews_other hA htokens h5) ?_
      intro _ s6 h6
      exact .of_pure hA h6
  · apply renews_other hA ?_ hs
    have hne : ∀ {op : NodeOp}, op.target = some entry.targetPath → op.target ≠ some target := by
      intro op hop
      rw [hop]
      exact fun he => ht (Option.some.inj he)
    exact renewOne_makes (fun op hop => by rw [hop]; simp) (fun _ _ => hne rfl) (hne rfl)
      (fun _ _ _ => hne rfl) fun _ => hne rfl

/-- A whole pass. -/
theorem renewDue_renews (hs : Agrees plugin.reader s target) :
    Renews plugin target (fun _ s => Agrees plugin.reader s target) (renewDue plugin) s := by
  have hA : Stable (SameLeaf target) fun s => Agrees plugin.reader s target := agrees_stable
  refine .seq sameLeaf_refl (renews_read hA rfl hs) ?_
  intro now s1 h1
  refine .seq sameLeaf_refl (renews_read hA rfl h1) ?_
  intro due s2 h2
  induction due generalizing s2 with
  | nil => exact .of_pure hA h2
  | cons entry rest ih =>
    refine .seq sameLeaf_refl (renewOne_renews entry h2) ?_
    intro _ s3 h3
    exact ih s3 h3

/-! ## 4. All runs -/

def passContract (plugin : Plugin E) (target : String) : Contract NodeState Task TaskResult where
  rely task s s' := task = .renew → SameLeaf target s s'
  guar _ _ _ := True
  post task _ s := task = .renew → Agrees plugin.reader s target
  rely_refl _ _ _ := sameLeaf_refl _
  rely_trans _ _ _ _ h₁ h₂ ht := ⟨(h₂ ht).1.trans (h₁ ht).1, (h₂ ht).2.trans (h₁ ht).2⟩

/-- The two loops and nothing else. -/
def LoopsOnly (P : NodePool) : Prop :=
  ∀ i task p, P.threads i = some (task, p) → task = .renew ∨ task = .refreshCa

structure PassInv (plugin : Plugin E) (target : String) (P : NodePool) : Prop where
  agrees : P.Idle (· = .renew) → Agrees plugin.reader P.state target
  tasks : LoopsOnly P
  alone : P.Exclusive Task.renewal

/-- The discipline, and only the calls the programs have. -/
def PassMove (target : String) (P : NodePool) (m : NodeMove) : Prop :=
  (TwoLoops P m ∧ StillShown target P m) ∧ System.Within Task.calls P m

variable {P : NodePool} {i : Nat}

/-- The discipline in terms of the leaf. -/
theorem leafAt_of_stillShown {ans : Except IoError Unit}
    (h : StillShown target P (.call i (.publishIdentity target identity modes .caOnly) ans)) :
    leafAt P.state target = some (leafOf identity) := by
  obtain ⟨v, shown, hv, hshown, hkey, hchain⟩ := h rfl
  rw [leafAt, hv]
  show v.identity.map leafOf = _
  rw [hshown]
  show some (shown.keyPem, shown.certChainPem) = _
  rw [hkey, hchain]
  rfl

/-- A refresh leaves the leaf and the expiry of the target as they are. -/
theorem refresh_sameLeaf (hop : Task.refreshCa.calls op)
    (hshown : StillShown target P (.call i op ans)) (h : nodeWorld op P.state ans s') :
    SameLeaf target P.state s' := by
  by_cases ht : op.target = some target
  · rcases hop with hop | ⟨target', identity, modes, rfl⟩
    · rw [hop] at ht
      cases ht
    cases ht
    rcases publish_cases h with ⟨_, rfl⟩ | ⟨v, _, rfl⟩
    · exact sameLeaf_refl _
    · exact ⟨leafAt_publish.trans (leafAt_of_stillShown hshown).symm, rfl⟩
  · exact sameLeaf_of_other (effect h) ht

/-- Every call of either loop keeps the newest leaf on show. -/
theorem pass_newest {task : Task} (htask : task = .renew ∨ task = .refreshCa)
    (hop : task.calls op) (hshown : StillShown target P (.call i op ans))
    (h : nodeWorld op P.state ans s') (hs : ShowsNewest P.state target) :
    ShowsNewest s' target := by
  apply showsNewest_step h ?_ ?_ hs
  · rcases htask with rfl | rfl
    · exact hop.1 target
    rcases hop with hop | ⟨_, _, _, rfl⟩
    · intro he
      rw [he] at hop
      cases hop
    · simp
  · intro identity modes he
    subst he
    exact leafAt_of_stillShown hshown

theorem passContract_sound : (passContract plugin target).Sound (wholeSystem plugin)
    (PassMove target) (PassInv plugin target) where
  start := by
    intro P i task hI _ hm hfree
    obtain ⟨⟨hm, _⟩, _⟩ := hm
    refine ⟨⟨?_, ?_, ?_⟩, ?_⟩
    · intro hidle
      exact hI.agrees (hidle.before (by simp [hfree]))
    · exact Pool.tasks_setThread hI.tasks (hm.symm.imp (·.1) id)
    · apply hI.alone.start
      intro k hk j task' p hj hk'
      rcases hm with rfl | ⟨rfl, hidle⟩
      · cases hk
      · cases task' <;> cases hk'
        exact hidle j _ p hj rfl
    · rcases hm with rfl | ⟨rfl, hidle⟩
      · refine .mono ?_ (Sat.of_nothing fun _ _ => trivial)
        intro r s' _ ht
        cases ht
      have hpass := renewDue_renews (hI.agrees hidle)
      refine .weaken (fun a b h => h rfl) (fun _ _ h => h) ?_
      exact .map sameLeaf_refl hpass (fun _ s1 s2 hR h ht => agrees_stable s1 s2 hR (h ht))
        fun _ s' h _ => h
  call := by
    intro P i task op k ans s' hI _ hm hi hw _
    obtain ⟨⟨_, hshown⟩, hwithin⟩ := hm
    have hop : task.calls op := hwithin task _ hi
    have htask := hI.tasks i task _ hi
    have hsame : task = .refreshCa → SameLeaf target P.state s' := by
      intro he
      rw [he] at hop
      exact refresh_sameLeaf hop hshown hw.1
    refine ⟨⟨?_, ?_, hI.alone.call hi⟩, ?_⟩
    · intro hidle
      rcases htask with rfl | he
      · exact absurd rfl (hidle i _ _ (P.setThread_same i _))
      exact agrees_stable P.state s' (hsame he) (hI.agrees (Pool.Idle.before_call hidle hi))
    · exact Pool.tasks_setThread hI.tasks htask
    · intro j task' p hji hj ht'
      subst ht'
      -- the other renewal is us, so this call is a refresh's
      rcases htask with rfl | he
      · exact absurd (hI.alone j i _ _ p _ () hj hi rfl rfl) hji
      · exact hsame he
  finish := by
    intro P i task r hI _ _ hi hpost
    refine ⟨?_, ?_, hI.alone.finish⟩
    · intro hidle
      by_cases ht : task = .renew
      · exact hpost ht
      exact hI.agrees (Pool.Idle.before hidle (by simp [hi, ht]))
    · intro j task' p hj
      exact hI.tasks j task' p (Pool.of_setThread_none hj)
  restart := by
    intro P s' _ _ hr
    exact hr.elim

/-- What a run of the two loops keeps, however its publishes fail. -/
theorem newest_run {P : NodePool} (hs : ShowsNewest s target)
    (hrun : (passSystem plugin).Run (fun P m => TwoLoops P m ∧ StillShown target P m)
      (Pool.initial s) P) : ShowsNewest P.state target := by
  have hinit : ShowsNewest s target ∧ LoopsOnly (Pool.initial s) :=
    ⟨hs, by intro i task p hi; cases hi⟩
  refine ((hrun.within fun task => body_makes task).1.keeps
    (I := fun P => ShowsNewest P.state target ∧ LoopsOnly P) ?_ hinit).1
  rintro P m P' ⟨hI, htasks⟩ ⟨⟨hm, hshown⟩, hwithin⟩ hstep
  cases hstep with
  | start hfree => exact ⟨hI, Pool.tasks_setThread htasks (hm.symm.imp_left And.left)⟩
  | @call i task op k ans s' hi hw =>
    exact ⟨pass_newest (htasks i task _ hi) (hwithin task _ hi) hshown hw hI,
      Pool.tasks_setThread htasks (htasks i task _ hi)⟩
  | finish hi => exact ⟨hI, fun j task' p hj => htasks j task' p (Pool.of_setThread_none hj)⟩
  | restart hr => exact hr.elim

/-- **The volume always shows the certificate issued last**, whatever fails, if a refresh publishes
    only what is still on show; and when neither loop is at work the store has its expiry, if no
    publish fails after its swap. -/
theorem refresh_keeps_newest_leaf (hnewest : ShowsNewest s target)
    (hagrees : Agrees plugin.reader s target) :
    (∀ P, (passSystem plugin).Run (fun P m => TwoLoops P m ∧ StillShown target P m)
      (Pool.initial s) P → ShowsNewest P.state target) ∧
    ∀ P, (wholeSystem plugin).Run (fun P m => TwoLoops P m ∧ StillShown target P m)
      (Pool.initial s) P → (P.Idle fun _ => True) → Agrees plugin.reader P.state target := by
  refine ⟨fun P hrun => newest_run hnewest hrun, ?_⟩
  intro P hrun hidle
  have hinit : PassInv plugin target (Pool.initial s) := by
    refine ⟨fun _ => hagrees, ?_, ?_⟩
    · intro i task p hi
      cases hi
    · intro i j task task' p p' k hi
      cases hi
  have hinv := ((hrun.within body_makes).1.safe passContract_sound hinit
    ((passContract plugin target).kept_initial _ _)).1
  apply hinv.agrees
  intro i task p hi _
  exact hidle i task p hi trivial

/-! ## 5. Runs played out -/

/-- A volume with its certificate, due for renewal. -/
def settledNode : NodeState where
  store := [{ volumeId := "csi-1", targetPath := "/pods/1/mount", spiffeId := oneId,
              pod := ⟨"p", "n", "1", "s"⟩, notBefore := 0, notAfter := 3600, renewAt := 0,
              failures := 0, podToken := none }]
  volumes target :=
    if target = "/pods/1/mount" then some ⟨some ⟨"old key", "old chain", "old ca"⟩, true⟩ else none
  ca := "old ca"
  issued target :=
    if target = "/pods/1/mount" then some ⟨"old key", "old chain", "old ca"⟩ else none

theorem settledNode_newest : ShowsNewest settledNode "/pods/1/mount" :=
  ⟨("old key", "old chain"), by decide, by decide⟩

theorem settledNode_agrees : Agrees onePlugin.reader settledNode "/pods/1/mount" :=
  ⟨("old key", "old chain"), ⟨oneId, 0, 3600⟩, by decide, by decide, by decide⟩

def playPasses (turns : List (Turn Task)) : NodePool :=
  (wholeSystem onePlugin).play oneScene.answer (Pool.initial settledNode) turns

/-- On a node on which nothing fails, no publish fails half-way. -/
theorem answer_whole (scene : Scene) (op : NodeOp) (s : NodeState) :
    (wholeSystem onePlugin).world op s (scene.answer op s).1 (scene.answer op s).2 := by
  refine ⟨scene.answer_world op s, ?_⟩
  cases op with
  | publishIdentity target identity modes origin =>
    cases hv : s.volumes target with
    | none => simp [Scene.answer, hv, FailsWhole]
    | some v => simp [Scene.answer, hv, FailsWhole]
  | _ => trivial

/-- One renewal at a time, and nothing else but refreshes. -/
def twoLoops (slots : List Nat) (P : NodePool) : Turn Task → Bool
  | .start _ task => task = .refreshCa ||
      (task = .renew && P.all slots fun _ other _ => other ≠ .renew)
  | .go _ => true

/-- Publish another CA only with the leaf that is on show. -/
def keepsLeaf (P : NodePool) : Turn Task → Bool
  | .start _ _ => true
  | .go i =>
    match P.threads i with
    | some (_, .call (.publishIdentity target identity _ .caOnly) _) =>
      leafAt P.state target = some (leafOf identity)
    | _ => true

section

variable {slots : List Nat} {turn : Turn Task}

theorem twoLoops_grants (hP : P.OnlyIn slots) (h : twoLoops slots P turn = true) :
    System.Grants TwoLoops P turn := by
  cases turn with
  | go i => exact ⟨fun _ _ _ _ _ => trivial, fun _ => trivial⟩
  | start i task =>
    simp only [twoLoops, Bool.or_eq_true, Bool.and_eq_true, decide_eq_true_eq] at h
    refine h.imp id (And.imp_right fun hall j other p hj => ?_)
    simpa using hP.of_all hall hj

theorem keepsLeaf_grants (h : keepsLeaf P turn = true) :
    System.Grants (StillShown "/pods/1/mount") P turn := by
  cases turn with
  | start i task => trivial
  | go i =>
    refine ⟨fun task op k ans hi => ?_, fun _ => trivial⟩
    cases op with
    | publishIdentity target identity modes origin =>
      cases origin with
      | issued => trivial
      | caOnly =>
        rintro rfl
        simp only [keepsLeaf, hi, decide_eq_true_eq] at h
        obtain ⟨shown, hshown, hleaf⟩ := Option.map_eq_some_iff.mp h
        obtain ⟨v, hv, hid⟩ := Option.bind_eq_some_iff.mp hshown
        exact ⟨v, shown, hv, hid, congrArg Prod.fst hleaf, congrArg Prod.snd hleaf⟩
    | _ => trivial

/-- A schedule of the two loops that passes both checks, in whatever world they run. -/
theorem loops_run {M : System NodeSig NodeState Task TaskResult}
    {handler : (op : NodeOp) → NodeState → op.Ans × NodeState} {turns : List (Turn Task)}
    (hworld : ∀ op s, M.world op s (handler op s).1 (handler op s).2)
    (hpass : M.passes handler slots (fun P turn => twoLoops slots P turn && keepsLeaf P turn)
      (Pool.initial settledNode) turns = true) :
    M.Run (fun P m => TwoLoops P m ∧ StillShown "/pods/1/mount" P m) (Pool.initial settledNode)
        (M.play handler (Pool.initial settledNode) turns) ∧
      (M.play handler (Pool.initial settledNode) turns).OnlyIn slots :=
  System.play_run hworld (fun _ _ hP h => (twoLoops_grants hP (Bool.and_eq_true_iff.mp h).1).and
    (keepsLeaf_grants (Bool.and_eq_true_iff.mp h).2)) .refl (fun _ _ => rfl) hpass

end

/-- A renewal and a refresh, turn by turn: the refresh reads what the renewal has just published, and
    publishes it with the new bundle before the renewal has recorded its expiry. -/
def besideSchedule : List (Turn Task) :=
  .start 0 .renew :: .start 1 .refreshCa :: [0, 0, 0, 0, 0, 0, 0, 1, 1, 0, 1, 1, 0, 1, 0, 1, 0].map .go

def besidePool : NodePool := playPasses besideSchedule

theorem refresh_keeps_newest_leaf_beside :
    (besidePool.state.volumes "/pods/1/mount").bind (·.identity) = some ⟨"key", "chain", "ca"⟩ ∧
      ShowsNewest besidePool.state "/pods/1/mount" ∧
      Agrees onePlugin.reader besidePool.state "/pods/1/mount" := by
  obtain ⟨hnewest, hagree⟩ := refresh_keeps_newest_leaf settledNode_newest settledNode_agrees
  obtain ⟨hrun, -⟩ : _ ∧ besidePool.OnlyIn [0, 1] :=
    loops_run (M := passSystem onePlugin) oneScene.answer_world (by decide +kernel)
  obtain ⟨hwhole, hslots⟩ : _ ∧ besidePool.OnlyIn [0, 1] :=
    loops_run (answer_whole oneScene) (by decide +kernel)
  refine ⟨by decide +kernel, hnewest _ hrun, hagree besidePool hwhole fun i task p hi => ?_⟩
  cases (hslots.none (by decide +kernel) i).symm.trans hi

/-! ### What goes wrong -/

/-- The refresh reads; a whole renewal pass; the refresh publishes what it has read. -/
def undoSchedule : List (Turn Task) :=
  (.start 0 .refreshCa :: List.replicate 4 (.go 0)) ++
    (.start 1 .renew :: (List.replicate 11 (.go 1) ++ List.replicate 2 (.go 0)))

/-- The publish of a renewal fails after its swap. -/
def lateAnswer (op : NodeOp) (s : NodeState) : op.Ans × NodeState :=
  match op with
  | .publishIdentity target identity _ .issued =>
    (.error (.other "Input/output error (os error 5)"),
      ((s.volumes target).map fun v => s.publish target v identity .issued).getD s)
  | op => oneScene.answer op s

theorem lateAnswer_world (op : NodeOp) (s : NodeState) :
    nodeWorld op s (lateAnswer op s).1 (lateAnswer op s).2 := by
  cases op with
  | publishIdentity target identity modes origin =>
    cases origin with
    | caOnly => exact oneScene.answer_world _ s
    | issued => cases hv : s.volumes target <;> simp [nodeWorld, lateAnswer, hv]
  | _ => exact oneScene.answer_world _ s

def latePasses : NodePool :=
  (passSystem onePlugin).play lateAnswer (Pool.initial settledNode)
    (.start 0 .renew :: List.replicate 10 (.go 0))

/-- What the store has is not the expiry of the leaf on show. -/
theorem not_agrees {s : NodeState} (leaf : String × String) (facts : CertFacts) (expiry : Int)
    (hleaf : leafAt s "/pods/1/mount" = some leaf) (hread : onePlugin.reader.inspect leaf.2 = .ok facts)
    (hstore : expiryAt s "/pods/1/mount" = some expiry) (hne : expiry ≠ facts.notAfter) :
    ¬ Agrees onePlugin.reader s "/pods/1/mount" := by
  rintro ⟨leaf', facts', hshown, hfacts, hexpiry⟩
  obtain rfl : leaf = leaf' := Option.some.inj (hleaf.symm.trans hshown)
  rw [hread] at hfacts
  cases hfacts
  exact hne (Option.some.inj (hstore.symm.trans hexpiry))

/-- **A refresh undoes a renewal**: both passes are over, the old certificate is back, and the store
    has the expiry of the new. **And a publish that fails after its swap** leaves the new certificate on
    show and the expiry of the old in the store, with no refresh at all. -/
theorem refresh_restores_old_leaf :
    ((wholeSystem onePlugin).Run TwoLoops (Pool.initial settledNode) (playPasses undoSchedule) ∧
      (∀ i, (playPasses undoSchedule).threads i = none) ∧
      ¬ ShowsNewest (playPasses undoSchedule).state "/pods/1/mount" ∧
      ¬ Agrees onePlugin.reader (playPasses undoSchedule).state "/pods/1/mount") ∧
    (passSystem onePlugin).Run (fun P m => TwoLoops P m ∧ StillShown "/pods/1/mount" P m)
        (Pool.initial settledNode) latePasses ∧
      (∀ i, latePasses.threads i = none) ∧
      ¬ Agrees onePlugin.reader latePasses.state "/pods/1/mount" := by
  have hundo : (wholeSystem onePlugin).passes oneScene.answer [0, 1] (twoLoops [0, 1])
      (Pool.initial settledNode) undoSchedule = true := by decide +kernel
  obtain ⟨hrun, hslots⟩ := System.play_run (answer_whole oneScene) (fun _ _ => twoLoops_grants) .refl
    (fun _ _ => rfl) hundo
  obtain ⟨hlate, hslots'⟩ : _ ∧ latePasses.OnlyIn [0] :=
    loops_run (M := passSystem onePlugin) lateAnswer_world (by decide +kernel)
  refine ⟨⟨hrun, hslots.none (by decide +kernel), ?_, ?_⟩, hlate, hslots'.none (by decide +kernel), ?_⟩
  · rintro ⟨leaf, hshown, hlast⟩
    have hleaf : leafAt (playPasses undoSchedule).state "/pods/1/mount"
        = some ("old key", "old chain") := by decide
    have hissued : lastIssued (playPasses undoSchedule).state "/pods/1/mount"
        = some ("key", "chain") := by decide
    rw [hleaf] at hshown
    rw [hissued, ← hshown] at hlast
    simp at hlast
  · exact not_agrees ("old key", "old chain") ⟨oneId, 0, 3600⟩ 5400 (by decide) rfl (by decide)
      (by decide)
  · exact not_agrees ("key", "chain") ⟨oneId, 1800, 5400⟩ 3600 (by decide) rfl (by decide)
      (by decide)

end Svidlet.Node
