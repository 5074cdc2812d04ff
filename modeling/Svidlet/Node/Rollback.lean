import Svidlet.Node.PublishOk

/-!
# Two publishes of one target

A `NodePublishVolume` that fails takes the volume back: "leave nothing half-published behind". It
does not ask whose volume it is. The kubelet retries a call that has timed out on its side while the
first one is still running, so two calls for one target and one ID can be at work at once, and then
the one that fails unmounts what the one that was answered OK has published
(`failed_publish_removes_identity`).

What goes wrong is that both have looked the target up before either has listed it. So the identity
stays where a call looks its target up only while every other call

> **has not looked yet, or has ended,**

which is what a lock for the target would do (`Locked`). A call may still fail in any way it likes, and
take the volume back. It then was the only one at work, and had found its target unlisted, so no OK
had been given. That is read off the contract of a publish: each of its steps leaves what the store
lists in the store and keeps entries promises kept (`Guar`).
-/

namespace Svidlet.Node

open Lib Issue
open Volume (Identity Modes)

variable {E : RegexEngine} {plugin : Plugin E} {s s' : NodeState} {target : String} {id : SpiffeId}

/-! ## 1. Calls and the lock -/

/-- The calls are publishes of one target for one ID, whatever else their requests say; the policy
    daemon works beside them. -/
def SameCall (plugin : Plugin E) (target : String) (id : SpiffeId) : Task → Prop
  | .publish req =>
    req.targetPath = target ∧ ∃ pod, identityFrom plugin req.volumeContext = .ok (id, pod)
  | .policyDaemon _ => True
  | _ => False

def OnlySameCalls (plugin : Plugin E) (target : String) (id : SpiffeId) (_P : NodePool) :
    NodeMove → Prop
  | .start _ task => SameCall plugin target id task
  | .restart => False
  | _ => True

/-- The call has not made its first step, which looks the target up, or it has ended. -/
def Resting (plugin : Plugin E) (task : Task) (p : Prog NodeSig TaskResult) : Prop :=
  p = body plugin task ∨ ∃ r, p = .pure r

/-- A call makes its first step only while all other calls rest. -/
def Locked (plugin : Plugin E) (P : NodePool) : NodeMove → Prop
  | .call i _ _ => ∀ req, P.threads i = some (.publish req, body plugin (.publish req)) →
      ∀ j req' p, j ≠ i → P.threads j = some (.publish req', p) → Resting plugin (.publish req') p
  | _ => True

/-- A request for this ID can be answered OK for no other. -/
theorem wants_unique {req : PublishRequest} {pod : PodRef} {id' : SpiffeId}
    (h : identityFrom plugin req.volumeContext = .ok (id, pod)) (hw : Wants plugin req id') :
    id' = id := by
  obtain ⟨pod', podToken, hcheck⟩ := hw
  unfold checkRequest at hcheck
  rw [h] at hcheck
  obtain ⟨_, -, hcheck⟩ := bind_ok.mp hcheck
  obtain ⟨_, -, hcheck⟩ := bind_ok.mp hcheck
  obtain ⟨_, -, hcheck⟩ := bind_ok.mp hcheck
  obtain ⟨_, hid, hcheck⟩ := bind_ok.mp hcheck
  cases hid
  obtain ⟨_, -, hcheck⟩ := bind_ok.mp hcheck
  cases hcheck
  rfl

/-- A publish starts with a look at the store, if it starts at all. -/
theorem body_first (req : PublishRequest) : ¬ AtPublish target (body plugin (.publish req)) := by
  rintro ⟨identity, modes, origin, k, hbody⟩
  change some <$> (nodePublishVolume plugin req).run = _ at hbody
  unfold nodePublishVolume at hbody
  cases hcheck : checkRequest plugin req with
  | error e =>
    rw [hcheck] at hbody
    cases hbody
  | ok checked =>
    rw [hcheck] at hbody
    cases hbody

/-! ## 2. Runs -/

/-- What is asked of a publish at its end. -/
def SharedPost (plugin : Plugin E) (target : String) (id : SpiffeId) (r : TaskResult) (s : NodeState) :
    Prop :=
  r = some (.ok ()) → Delivered plugin target id s

/-- A publish, from its first step to its end. -/
abbrev Inside (plugin : Plugin E) (target : String) (id : SpiffeId) (p : Prog NodeSig TaskResult)
    (s : NodeState) : Prop :=
  Meets plugin target (SharedPost plugin target id) p s

structure SharedInv (plugin : Plugin E) (target : String) (id : SpiffeId) (P : NodePool) : Prop where
  truthful : Truthful plugin target P.state
  tasks : ∀ i task p, P.threads i = some (task, p) → SameCall plugin target id task
  makes : ∀ i task p, P.threads i = some (task, p) → p.Makes task.calls
  listed : ∀ req, (.publish req, some (.ok ())) ∈ P.returned → Listed target id P.state
  ended : ∀ i req r, P.threads i = some (.publish req, .pure r) → r = some (.ok ()) →
    Listed target id P.state
  /-- A call that does not rest is inside, and all others rest. -/
  inside : ∀ i req p, P.threads i = some (.publish req, p) → Resting plugin (.publish req) p ∨
    Inside plugin target id p P.state ∧ ∀ j req' p', j ≠ i →
      P.threads j = some (.publish req', p') → Resting plugin (.publish req') p'

theorem body_inside (hs : Truthful plugin target s) {req : PublishRequest}
    (htask : SameCall plugin target id (.publish req)) :
    Inside plugin target id (body plugin (.publish req)) s := by
  obtain ⟨rfl, pod, hid⟩ := htask
  refine .map Calm.refl (nodePublishVolume_meets hs) ?_ ?_
  · exact fun r s1 s2 hR h hok => delivered_stable s1 s2 hR (h hok)
  · intro r s' h hok
    obtain ⟨id', hw, hdone⟩ := h (Option.some.inj hok)
    rwa [wants_unique hid hw] at hdone

section

variable {P : NodePool} {i : Nat} {task : Task}

/-- A step keeps the invariant if it keeps what is listed, and whoever is inside after it is met by
    its contract there. -/
theorem SharedInv.after {op : NodeOp} {k : op.Ans → Prog NodeSig TaskResult} {ans : op.Ans}
    (h : SharedInv plugin target id P) (hi : P.threads i = some (task, .call op k))
    (htruthful : Truthful plugin target s') (hlisted : Listed target id P.state → Listed target id s')
    (hinside : ∀ j req p, (P.setThread i (some (task, k ans))).threads j = some (.publish req, p) →
      Resting plugin (.publish req) p ∨ Inside plugin target id p s' ∧ ∀ j' req' p', j' ≠ j →
        (P.setThread i (some (task, k ans))).threads j' = some (.publish req', p') →
          Resting plugin (.publish req') p')
    (hown : ∀ req r, task = .publish req → k ans = .pure r → r = some (.ok ()) →
      Listed target id s') :
    SharedInv plugin target id { P.setThread i (some (task, k ans)) with state := s' } := by
  refine ⟨htruthful, Pool.tasks_setThread h.tasks (h.tasks i task _ hi), ?_,
    fun req hmem => hlisted (h.listed req hmem), ?_, hinside⟩
  · intro j task' p hj
    rcases Pool.of_setThread_some hj with ⟨rfl, he⟩ | ⟨_, hold⟩
    · cases he
      exact (h.makes j task _ hi).2 ans
    · exact h.makes j task' p hold
  · intro j req r hj hok
    rcases Pool.of_setThread_some hj with ⟨rfl, he⟩ | ⟨_, hold⟩
    · obtain ⟨rfl, hr⟩ := Prod.mk.inj he
      exact hown req r rfl hr.symm hok
    · exact hlisted (h.ended j req r hold hok)

theorem SharedInv.call {op : NodeOp} {k : op.Ans → Prog NodeSig TaskResult} {ans : op.Ans}
    (h : SharedInv plugin target id P) (hm : Locked plugin P (.call i op ans))
    (hi : P.threads i = some (task, .call op k)) (hw : nodeWorld op P.state ans s') :
    SharedInv plugin target id { P.setThread i (some (task, k ans)) with state := s' } := by
  have htask := h.tasks i task _ hi
  cases task with
  | publish req =>
    -- the call is inside or goes in, and all others rest
    have hin : Inside plugin target id (.call op k) P.state ∧ ∀ j req' p', j ≠ i →
        P.threads j = some (.publish req', p') → Resting plugin (.publish req') p' := by
      rcases h.inside i req _ hi with hrest | hin
      · rcases hrest with hbody | ⟨r, hr⟩
        · rw [hbody] at hi ⊢
          exact ⟨body_inside h.truthful htask, hm req hi⟩
        · cases hr
      · exact hin
    obtain ⟨hin, hrest⟩ := hin
    obtain ⟨hG, hk⟩ := hin P.state (Calm.refl _) ans s' hw
    refine h.after hi (hG.truthful h.truthful) (hG.listed id) ?_ ?_
    · intro j req' p hj
      rcases Pool.of_setThread_some hj with ⟨rfl, he⟩ | ⟨hne, hold⟩
      · cases he
        refine .inr ⟨hk, ?_⟩
        intro j' req'' p' hne hj'
        rcases Pool.of_setThread_some hj' with ⟨heq, -⟩ | ⟨-, hold⟩
        · exact absurd heq hne
        · exact hrest j' req'' p' hne hold
      · exact .inl (hrest j req' p hne hold)
    · intro _ r _ hr hok
      rw [hr] at hk
      exact (hk s' (Calm.refl _) hok).2
  | policyDaemon t =>
    have hcalm : Calm target P.state s' := by
      obtain rfl : op = .publishPolicy t := (h.makes i _ _ hi).1
      exact .of_policy hw
    refine h.after hi (hcalm.truthful h.truthful) hcalm.listed ?_ (by rintro req _ ⟨⟩)
    have hold : ∀ {j req p}, (P.setThread i (some (.policyDaemon t, k ans))).threads j
        = some (.publish req, p) → P.threads j = some (.publish req, p) := by
      intro j req p hj
      rcases Pool.of_setThread_some hj with ⟨-, he⟩ | ⟨-, hold⟩
      · cases he
      · exact hold
    intro j req p hj
    refine (h.inside j req p (hold hj)).imp_right ?_
    rintro ⟨hin, hrest⟩
    exact ⟨hin.stable (fun _ _ _ h h' => h.trans h') hcalm,
      fun j' req' p' hne hj' => hrest j' req' p' hne (hold hj')⟩
  | _ => exact htask.elim

theorem SharedInv.step {m : NodeMove} {P' : NodePool} (h : SharedInv plugin target id P)
    (hm : OnlySameCalls plugin target id P m ∧ Locked plugin P m)
    (hstep : (nodeSystem plugin).Step P m P') : SharedInv plugin target id P' := by
  cases hstep with
  | @start i task hfree =>
    refine ⟨h.truthful, Pool.tasks_setThread h.tasks hm.1, ?_, h.listed, ?_, ?_⟩
    · intro j task' p hj
      rcases Pool.of_setThread_some hj with ⟨rfl, he⟩ | ⟨_, hold⟩
      · cases he
        exact body_makes task
      · exact h.makes j task' p hold
    · intro j req r hj hok
      rcases Pool.of_setThread_some hj with ⟨rfl, he⟩ | ⟨_, hold⟩
      · -- a request that is refused at once
        obtain ⟨rfl, hr⟩ := Prod.mk.inj he
        have hin := body_inside h.truthful hm.1
        rw [show body plugin (.publish req) = .pure r from hr.symm] at hin
        exact (hin P.state (Calm.refl _) hok).2
      · exact h.ended j req r hold hok
    · intro j req p hj
      rcases Pool.of_setThread_some hj with ⟨rfl, he⟩ | ⟨_, hold⟩
      · obtain ⟨rfl, rfl⟩ := Prod.mk.inj he
        exact .inl (.inl rfl)
      · refine (h.inside j req p hold).imp_right (And.imp_right fun hrest j' req' p' hne hj' => ?_)
        rcases Pool.of_setThread_some hj' with ⟨rfl, he⟩ | ⟨_, hold'⟩
        · obtain ⟨rfl, rfl⟩ := Prod.mk.inj he
          exact .inl rfl
        · exact hrest j' req' p' hne hold'
  | call hi hw => exact h.call hm.2 hi hw
  | @finish i task r hi =>
    have hold : ∀ {j th}, (P.setThread i none).threads j = some th → P.threads j = some th :=
      fun hj => Pool.of_setThread_none hj
    refine ⟨h.truthful, fun j task' p hj => h.tasks j task' p (hold hj),
      fun j task' p hj => h.makes j task' p (hold hj), ?_,
      fun j req r hj => h.ended j req r (hold hj), ?_⟩
    · intro req hmem
      rcases List.mem_cons.mp hmem with heq | hmem
      · cases heq
        exact h.ended i req _ hi rfl
      · exact h.listed req hmem
    · intro j req p hj
      refine (h.inside j req p (hold hj)).imp_right (And.imp_right fun hrest j' req' p' hne hj' => ?_)
      exact hrest j' req' p' hne (hold hj')
  | restart _ => exact hm.1.elim

/-- Of two calls at a publish, one would have to rest. -/
theorem SharedInv.publishesApart (h : SharedInv plugin target id P) (i j : Nat) {task task' : Task}
    {p p' : Prog NodeSig TaskResult} (hi : P.threads i = some (task, p))
    (hj : P.threads j = some (task', p')) {target' : String} (hp : AtPublish target' p)
    (hp' : AtPublish target' p') : i = j := by
  have hpublish : ∀ {i task p}, P.threads i = some (task, p) → AtPublish target' p →
      ∃ req, task = .publish req := by
    rintro i task p hi ⟨identity, modes, origin, k, rfl⟩
    have htask := h.tasks i task _ hi
    cases task with
    | publish req => exact ⟨req, rfl⟩
    | policyDaemon t => cases (h.makes i _ _ hi).1
    | _ => exact htask.elim
  have hbusy : ∀ {req p}, AtPublish target' p → ¬ Resting plugin (.publish req) p := by
    rintro req p hp (rfl | ⟨r, rfl⟩)
    · exact body_first req hp
    · obtain ⟨_, _, _, _, hr⟩ := hp
      cases hr
  obtain ⟨req, rfl⟩ := hpublish hi hp
  obtain ⟨req', rfl⟩ := hpublish hj hp'
  by_contra hne
  rcases h.inside i req p hi with hrest | ⟨-, hothers⟩
  · exact hbusy hp hrest
  · exact hbusy hp' (hothers j req' p' (Ne.symm hne) hj)

end

/-- **A failed publish leaves the other's identity.** However publishes of one target for one ID are
    interleaved, with whatever answers, as long as each looks its target up only while the others rest:
    once one of them has been answered OK the target shows an identity for the ID, whatever the others
    end with. And at no time are two of them at a publish of the volume. -/
theorem failed_publish_leaves_identity {P : NodePool} (hs : Truthful plugin target s)
    (hrun : (nodeSystem plugin).Run
      (fun P m => OnlySameCalls plugin target id P m ∧ Locked plugin P m) (Pool.initial s) P) :
    PublishesApart P ∧ ∀ req, (.publish req, some (.ok ())) ∈ P.returned →
      Holds plugin.reader P.state target id := by
  have hinit : SharedInv plugin target id (Pool.initial s) := by
    refine ⟨hs, ?_, ?_, fun _ hmem => absurd hmem List.not_mem_nil, ?_, ?_⟩
    all_goals
      intro i
      intros
      contradiction
  have hinv := hrun.keeps (fun P m P' hI hm hstep => SharedInv.step hI hm hstep) hinit
  refine ⟨fun _ i j _ _ _ _ hi hj => hinv.publishesApart i j hi hj, ?_⟩
  intro req hok
  exact (hinv.truthful.promised (hinv.listed req hok)).1

/-! ## 3. Runs played out -/

/-- The same for a volume that is not ephemeral, which is refused at once. -/
def lastingRequest : PublishRequest where
  volumeId := "csi-1"
  targetPath := "/pods/1/mount"
  volumeContext := oneRequest.volumeContext.take 4

def startsSame (_ : NodePool) : Turn Task → Bool
  | .start _ task => task = .publish oneRequest || task = .publish lastingRequest ||
      task = .policyDaemon "/pods/1/mount"
  | .go _ => true

/-- While a publish call moves, all other calls have ended. -/
def locks (slots : List Nat) (P : NodePool) : Turn Task → Bool
  | .start _ _ => true
  | .go i =>
    match P.threads i with
    | some (.publish _, .call _ _) =>
      P.all slots fun j other p => j == i || (p.ended || other.callTarget = none)
    | _ => true

section

variable {slots : List Nat} {P : NodePool} {turn : Turn Task}

theorem startsSame_grants (h : startsSame P turn = true) :
    System.Grants (OnlySameCalls onePlugin oneRequest.targetPath oneId) P turn := by
  cases turn with
  | go i => exact ⟨fun _ _ _ _ _ => trivial, fun _ => trivial⟩
  | start i task =>
    simp only [startsSame, Bool.or_eq_true, decide_eq_true_eq] at h
    rcases h with (rfl | rfl) | rfl
    · exact ⟨rfl, ⟨"p", "n", "1", "s"⟩, by decide⟩
    · exact ⟨rfl, ⟨"p", "n", "1", "s"⟩, by decide⟩
    · trivial

theorem locks_grants (hP : P.OnlyIn slots) (h : locks slots P turn = true) :
    System.Grants (Locked onePlugin) P turn := by
  cases turn with
  | start i task => trivial
  | go i =>
    refine ⟨fun task o k ans hi req hreq j req' p hne hj => ?_, fun _ => trivial⟩
    obtain ⟨rfl, -⟩ := Prod.mk.inj (Option.some.inj (hi.symm.trans hreq))
    simp only [locks, hi] at h
    have hother := hP.of_all h hj
    simp only [Task.callTarget, beq_iff_eq, hne, Bool.or_eq_true, decide_eq_true_eq, reduceCtorEq,
      false_or, or_false] at hother
    exact .inr (Prog.of_ended hother)

end

/-- A call waits for a policy in vain and takes the volume back. Another, with a policy in time, is
    answered OK, and while it is at work a third is refused. -/
def serveSchedule : List (Turn Task) :=
  .start 0 (.publish oneRequest) :: goes (List.replicate 12 0) ++
    .start 1 (.publish oneRequest) :: goes (List.replicate 6 1) ++
    .start 2 (.policyDaemon "/pods/1/mount") :: .start 3 (.publish lastingRequest) ::
      goes (2 :: 1 :: 3 :: List.replicate 5 1)

def servedPool : NodePool := playNode oneScene (Pool.initial (bareNode none)) serveSchedule

/-- The first call fails and takes its volume back, the second is answered OK, the third is refused,
    and the second's identity is there. -/
theorem failed_publish_leaves_identity_served :
    (∃ status, (.publish oneRequest, some (.error status)) ∈ servedPool.returned) ∧
      (.publish oneRequest, some (.ok ())) ∈ servedPool.returned ∧
      (∃ status, (.publish lastingRequest, some (.error status)) ∈ servedPool.returned) ∧
      PublishesApart servedPool ∧
      Holds onePlugin.reader servedPool.state oneRequest.targetPath oneId := by
  have hok : (Task.publish oneRequest, some (.ok ())) ∈ servedPool.returned := by decide +kernel
  have hpass : (nodeSystem onePlugin).passes oneScene.answer [0, 1, 2, 3]
      (fun P turn => startsSame P turn && locks [0, 1, 2, 3] P turn) (Pool.initial (bareNode none))
      serveSchedule = true := by decide +kernel
  have hrun := (System.play_run oneScene.answer_world (fun P turn hP h =>
    (startsSame_grants (Bool.and_eq_true_iff.mp h).1).and
      (locks_grants hP (Bool.and_eq_true_iff.mp h).2)) .refl (fun _ _ => rfl) hpass).1
  obtain ⟨hapart, hholds⟩ := failed_publish_leaves_identity (truthful_of_unlisted rfl) hrun
  refine ⟨⟨.unavailable ("no policy for " ++ oneId.asStr ++ " after 10s; SVIDLET_POLICY_REQUIRED "
    ++ "is set and svidlet-policy has not published a bundle for it"), ?_⟩, hok, ⟨.invalidArgument
    "svidlet serves inline ephemeral volumes only; use a csi: volume in the pod spec", ?_⟩, hapart,
    hholds oneRequest hok⟩
  all_goals decide +kernel

/-- As on `oneScene`, but the backend is down once something has been published. -/
def downAnswer (op : NodeOp) (s : NodeState) : op.Ans × NodeState :=
  match op with
  | .backendSign _ =>
    if s.store.isEmpty then (.ok oneScene.reply, s) else (.error (.transport "refused"), s)
  | op => oneScene.answer op s

theorem downAnswer_world (op : NodeOp) (s : NodeState) :
    nodeWorld op s (downAnswer op s).1 (downAnswer op s).2 := by
  cases op with
  | backendSign request =>
    show (downAnswer (.backendSign request) s).2 = s
    simp only [downAnswer]
    split <;> rfl
  | _ => exact oneScene.answer_world _ s

/-- The first call has found its target unlisted; the second is answered OK; then the backend goes
    down and the first takes its volume back. -/
def lateFailure : List (Turn Task) :=
  [.start 0 (.publish oneRequest), .go 0, .start 1 (.publish oneRequest)] ++
    goes (List.replicate 12 1 ++ List.replicate 5 0)

def latePool : NodePool :=
  (nodeSystem onePlugin).play downAnswer (Pool.initial (bareNode (some ⟨none, true⟩))) lateFailure

/-- One call is answered OK, the other fails, and the identity is gone. -/
theorem failed_publish_removes_identity :
    (nodeSystem onePlugin).Run (OnlySameCalls onePlugin oneRequest.targetPath oneId)
        (Pool.initial (bareNode (some ⟨none, true⟩))) latePool ∧
      (Task.publish oneRequest, some (.ok ())) ∈ latePool.returned ∧
      (∃ status, (Task.publish oneRequest, some (.error status)) ∈ latePool.returned) ∧
      ¬ ∃ id, Holds onePlugin.reader latePool.state oneRequest.targetPath id := by
  have hpass : (nodeSystem onePlugin).passes downAnswer [0, 1] startsSame
      (Pool.initial (bareNode (some ⟨none, true⟩))) lateFailure = true := by decide +kernel
  refine ⟨(System.play_run downAnswer_world (fun _ _ _ => startsSame_grants) .refl (fun _ _ => rfl)
    hpass).1, by decide, ⟨.unavailable "PKI backend unreachable: refused", by decide⟩, ?_⟩
  rintro ⟨id, v, identity, hv, _⟩
  have hgone : latePool.state.volumes oneRequest.targetPath = none := by decide
  rw [hgone] at hv
  cases hv

end Svidlet.Node
