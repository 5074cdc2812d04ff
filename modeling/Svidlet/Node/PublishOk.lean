import Svidlet.Node.Passes

/-!
# OK means published

All of the plugin at once: the kubelet's calls, one at a time for a target, and passes of the renewal,
adoption and reaping loops between their steps, with restarts.

The promise of `Node.Promise` is not kept in all such runs. `adoption_outlives_rollback` is one in
which it is broken:

> a publish waits for its policy; the adoption loop finds the volume, with its certificate, and lists
> it; the wait times out and the publish takes the volume back, **but not the entry**; the kubelet
> tries again and is told OK, for a volume that is not there.

`publish_ok_keeps_promise` is what does hold: the promise is kept in every run in which calls and passes
stay out of each other's way. A pass takes its snapshot while no call is at work, and a call starts for a
target when the passes that are running have nothing more to do there (`MayStart`). That is a condition
on when things start and on nothing else: what the programs do in between is theirs, and the proof goes
through their code (`Node.Promise` for the calls, `Node.Passes` for the passes).

The argument is about one target at a time. Either a call is at work there, and all passes are done
with it, so that the call is in the calm it relies on; or no call is, and every pass that is not done
with it is among passes (`OkInv`). The same case split shows that no two programs are at a publish of
one target at once, which is what taking a publish as one step asks for.
-/

namespace Svidlet.Node

open Lib Issue
open Volume (Identity Modes)

variable {E : RegexEngine} {plugin : Plugin E}

/-! ## 1. Discipline -/

/-- The kubelet makes its calls for a target one at a time. -/
def OneCallPerTarget (P : NodePool) : NodeMove → Prop
  | .start _ task => ∀ target, task.callTarget = some target →
      P.Idle fun task' => task'.callTarget = some target
  | _ => True

/-- The program has nothing more to do at the target: it can make no call that changes the entry or
    the volume there, whatever it is answered. -/
def DoneWith (target : String) (p : Prog NodeSig TaskResult) : Prop :=
  p.Makes fun op : NodeOp => op.target ≠ some target

/-- When a task may start. -/
structure MayStart (plugin : Plugin E) (P : NodePool) (task : Task) : Prop where
  /-- Calls for a target are made one at a time. -/
  alone : ∀ target, task.callTarget = some target →
    P.Idle fun task' => task'.callTarget = some target
  /-- A call starts when every pass that is running is done with its target. -/
  done : ∀ target, task.callTarget = some target →
    ∀ i pass p, P.threads i = some (pass, p) → pass.isPass = true → DoneWith target p
  /-- A pass starts when no call is at work. -/
  calm : task.isPass = true → P.Idle fun task' => task'.callTarget ≠ none
  /-- There is one renewal loop, and it waits for a pass to end before it starts the next. -/
  single : task = .renew → P.Idle (· = .renew)
  /-- An adoption finds no volume that lacks a policy it requires. -/
  settled : task = .adopt → ∀ target, Settled plugin target P.state
  /-- The trust bundle is not refreshed meanwhile. -/
  loops : task ≠ .refreshCa

def Disciplined (plugin : Plugin E) (P : NodePool) : NodeMove → Prop
  | .start _ task => MayStart plugin P task
  | _ => True

/-! ## 2. One target -/

/-- What is asked of a call at its end. -/
def CallPost (plugin : Plugin E) (task : Task) (r : TaskResult) (s : NodeState) : Prop :=
  ∀ req, task = .publish req → r = some (.ok ()) →
    ∃ id, Wants plugin req id ∧ Promised plugin s req.targetPath id

/-- What holds at a target throughout. -/
structure OkInv (plugin : Plugin E) (target : String) (P : NodePool) : Prop where
  truthful : Truthful plugin target P.state
  apart : P.Exclusive Task.callTarget
  single : P.Exclusive Task.renewal
  calls : ∀ i task p, P.threads i = some (task, p) → task.callTarget = some target →
    Sat nodeWorld (Calm target) (fun s s' => Truthful plugin target s → Truthful plugin target s')
      (CallPost plugin task) p P.state
  passes : ∀ i task p, P.threads i = some (task, p) → task.isPass = true → DoneWith target p ∨
    (P.Idle fun task' => task'.callTarget = some target) ∧
      Passes plugin target (fun _ _ => True) p P.state
  makes : ∀ i task p, P.threads i = some (task, p) → p.Makes task.calls
  loops : P.Idle (· = .refreshCa)

section

variable {s : NodeState} {target : String} {task : Task} {P : NodePool} {i : Nat}

/-- A call that starts where entries are promises kept meets its contract. -/
theorem body_call (hs : Truthful plugin target s) (ht : task.callTarget = some target) :
    Sat nodeWorld (Calm target) (fun s s' => Truthful plugin target s → Truthful plugin target s')
      (CallPost plugin task) (body plugin task) s := by
  cases task with
  | publish req =>
    obtain rfl : req.targetPath = target := Option.some.inj ht
    refine .map Calm.refl (.weaken (fun _ _ h => h) (fun _ _ h => h.truthful)
      (nodePublishVolume_meets hs)) ?_ ?_
    · intro r s1 s2 hR h req' hreq hok
      cases hreq
      obtain ⟨id, hw, hp⟩ := h req rfl hok
      exact ⟨id, hw, hp.of_holds hR.held⟩
    · intro r s' h req' hreq hok
      cases hreq
      obtain ⟨id, hw, htrue, hlisted⟩ := h (Option.some.inj hok)
      exact ⟨id, hw, htrue.promised hlisted⟩
  | unpublish req =>
    obtain rfl : req.targetPath = target := Option.some.inj ht
    refine .map Calm.refl nodeUnpublishVolume_meets ?_ ?_
    · intro r s1 s2 _ _ req' hreq
      cases hreq
    · intro r s' _ req' hreq
      cases hreq
  | _ => cases ht

/-- A pass that starts where entries are promises kept, and volumes settled if it adopts. -/
theorem body_pass (hs : Truthful plugin target s) (hset : task = .adopt → Settled plugin target s)
    (ht : task.isPass = true) : Passes plugin target (fun _ _ => True) (body plugin task) s := by
  cases task with
  | renew => exact .map PassStep.refl (renewDue_passes hs) (fun _ => true_stable) fun _ _ h => h
  | adopt => exact .map PassStep.refl (adopt_passes (hset rfl)) (fun _ => true_stable) fun _ _ h => h
  | reap => exact .map PassStep.refl reapOrphans_passes (fun _ => true_stable) fun _ _ h => h
  | _ => cases ht

theorem pass_callTarget (h : task.isPass = true) : task.callTarget = none := by
  cases task <;> first | rfl | cases h

/-- A step of a task that is neither a pass nor a call for the target leaves it calm. -/
theorem calm_of_calls {op : NodeOp} {ans : op.Ans} {s' : NodeState} (hop : task.calls op)
    (hw : nodeWorld op s ans s') (hcall : task.callTarget ≠ some target)
    (hpass : task.isPass ≠ true) (hca : task ≠ .refreshCa) : Calm target s s' := by
  have hown : ∀ t, task.callTarget = some t → op.target = none ∨ op.target = some t →
      Calm target s s' := by
    intro t ht hor
    refine .of_other hw ?_
    rcases hor with hnone | hsome
    · exact target_ne hnone
    · rw [hsome]
      rintro heq
      exact hcall (ht.trans heq)
  cases task with
  | publish req => exact hown _ rfl hop
  | unpublish req => exact hown _ rfl hop
  | policyDaemon t =>
    obtain rfl := hop
    exact .of_policy hw
  | refreshCa => exact absurd rfl hca
  | renew => exact absurd rfl hpass
  | adopt => exact absurd rfl hpass
  | reap => exact absurd rfl hpass
  | _ => exact .of_other hw (target_ne hop)

/-- Nothing runs, at a start or after a restart. -/
theorem OkInv.of_empty (hP : ∀ i, P.threads i = none) (hs : Truthful plugin target P.state) :
    OkInv plugin target P := by
  refine ⟨hs, ?_, ?_, ?_, ?_, ?_, ?_⟩
  all_goals
    intro i
    simp [hP]

theorem OkInv.start (h : OkInv plugin target P) (hm : MayStart plugin P task) :
    OkInv plugin target (P.setThread i (some (task, body plugin task))) where
  truthful := h.truthful
  apart := h.apart.start hm.alone
  single := by
    refine h.single.start ?_
    intro k hk j task' p hj hk'
    cases task <;> cases hk
    cases task' <;> cases hk'
    exact hm.single rfl j _ p hj rfl
  calls := by
    intro j task' p hj ht'
    rcases Pool.of_setThread_some hj with ⟨rfl, he⟩ | ⟨_, hold⟩
    · cases he
      exact body_call h.truthful ht'
    · exact h.calls j task' p hold ht'
  passes := by
    intro j task' p hj hpass
    rcases Pool.of_setThread_some hj with ⟨rfl, he⟩ | ⟨_, hold⟩
    · cases he
      refine .inr ⟨?_, body_pass h.truthful (fun he => hm.settled he target) hpass⟩
      refine Pool.Idle.set ?_ ?_
      · intro k task' p hk he
        exact hm.calm hpass k task' p hk (by simp [he])
      · rw [pass_callTarget hpass]
        simp
    · rcases h.passes j task' p hold hpass with hdone | ⟨hidle, hsat⟩
      · exact .inl hdone
      by_cases ht : task.callTarget = some target
      · exact .inl (hm.done target ht j task' p hold hpass)
      · exact .inr ⟨hidle.set ht, hsat⟩
  makes := by
    intro j task' p hj
    rcases Pool.of_setThread_some hj with ⟨rfl, he⟩ | ⟨_, hold⟩
    · cases he
      exact body_makes task
    · exact h.makes j task' p hold
  loops := h.loops.set hm.loops

/-- A step of one program. Who made it says what the others can count on. -/
theorem OkInv.call {op : NodeOp} {k : op.Ans → Prog NodeSig TaskResult} {ans : op.Ans}
    {s' : NodeState} (h : OkInv plugin target P) (hi : P.threads i = some (task, .call op k))
    (hw : nodeWorld op P.state ans s') :
    OkInv plugin target { P.setThread i (some (task, k ans)) with state := s' } := by
  have hmakes := h.makes i task _ hi
  -- who is in a slot after the step: ourselves a call further on, or somebody who was there
  have hback : ∀ {j task' p}, (P.setThread i (some (task, k ans))).threads j = some (task', p) →
      j = i ∧ task' = task ∧ p = k ans ∨ j ≠ i ∧ P.threads j = some (task', p) := by
    intro j task' p hj
    rcases Pool.of_setThread_some hj with ⟨rfl, he⟩ | ⟨hne, hold⟩
    · cases he
      exact .inl ⟨rfl, rfl, rfl⟩
    · exact .inr ⟨hne, hold⟩
  have hidle : (P.Idle fun task' => task'.callTarget = some target) →
      ({ P.setThread i (some (task, k ans)) with state := s' } : NodePool).Idle
        fun task' => task'.callTarget = some target := by
    intro hidle j task' p hj
    rcases hback hj with ⟨rfl, rfl, -⟩ | ⟨-, hold⟩
    · exact hidle j task' _ hi
    · exact hidle j task' p hold
  have hrest : Truthful plugin target s' →
      (∀ j task' p, (P.setThread i (some (task, k ans))).threads j = some (task', p) →
        task'.callTarget = some target → Sat nodeWorld (Calm target)
          (fun s s' => Truthful plugin target s → Truthful plugin target s') (CallPost plugin task') p s') →
      (∀ j task' p, (P.setThread i (some (task, k ans))).threads j = some (task', p) →
        task'.isPass = true → DoneWith target p ∨
          (P.Idle fun task' => task'.callTarget = some target) ∧
            Passes plugin target (fun _ _ => True) p s') →
      OkInv plugin target { P.setThread i (some (task, k ans)) with state := s' } := by
    intro htruthful hcalls hpasses
    refine ⟨htruthful, h.apart.call hi, h.single.call hi, hcalls, ?_, ?_, ?_⟩
    · exact fun j task' p hj hpass => (hpasses j task' p hj hpass).imp id (And.imp_left hidle)
    · intro j task' p hj
      rcases hback hj with ⟨rfl, rfl, rfl⟩ | ⟨-, hold⟩
      · exact hmakes.2 ans
      · exact h.makes j task' p hold
    · exact h.loops.set (h.loops i task _ hi)
  have hcalm : Calm target P.state s' → (task.callTarget ≠ some target) →
      (task.isPass = true → DoneWith target (k ans)) →
      OkInv plugin target { P.setThread i (some (task, k ans)) with state := s' } := by
    intro hcalm hcall hdone
    refine hrest (hcalm.truthful h.truthful) ?_ ?_
    · intro j task' p hj ht'
      rcases hback hj with ⟨rfl, rfl, -⟩ | ⟨-, hold⟩
      · exact absurd ht' hcall
      · exact (h.calls j task' p hold ht').stable (fun _ _ _ h h' => h.trans h') hcalm
    · intro j task' p hj hpass
      rcases hback hj with ⟨rfl, rfl, rfl⟩ | ⟨-, hold⟩
      · exact .inl (hdone hpass)
      · refine (h.passes j task' p hold hpass).imp id (And.imp_right fun hsat => ?_)
        exact hsat.stable PassStep.trans (.of_calm hcalm)
  by_cases hcall : task.callTarget = some target
  · -- a call's step at its own target: nobody else is at work there
    obtain ⟨hG, hk⟩ := h.calls i task _ hi hcall P.state (Calm.refl _) ans s' hw
    refine hrest (hG h.truthful) ?_ ?_
    · intro j task' p hj ht'
      rcases hback hj with ⟨rfl, rfl, rfl⟩ | ⟨hne, hold⟩
      · exact hk
      · exact absurd (h.apart j i task' task p _ target hold hi ht' hcall) hne
    · intro j task' p hj hpass
      rcases hback hj with ⟨rfl, rfl, -⟩ | ⟨-, hold⟩
      · rw [pass_callTarget hpass] at hcall
        cases hcall
      · rcases h.passes j task' p hold hpass with hdone | ⟨hidle, _⟩
        · exact .inl hdone
        · exact absurd hcall (hidle i task _ hi)
  by_cases hpass : task.isPass = true
  · rcases h.passes i task _ hi hpass with hdone | ⟨hnocall, hsat⟩
    · exact hcalm (.of_other hw hdone.1) hcall fun _ => hdone.2 ans
    -- a pass that is not done with the target is among passes
    obtain ⟨hG, hk⟩ := hsat P.state (PassStep.refl _) ans s' hw
    refine hrest (hG.truthful h.truthful) ?_ ?_
    · intro j task' p hj ht'
      rcases hback hj with ⟨rfl, rfl, -⟩ | ⟨-, hold⟩
      · exact absurd ht' hcall
      · exact absurd ht' (hnocall j task' p hold)
    · intro j task' p hj hpass'
      rcases hback hj with ⟨rfl, rfl, rfl⟩ | ⟨-, hold⟩
      · exact .inr ⟨hnocall, hk⟩
      · refine (h.passes j task' p hold hpass').imp id (And.imp_right fun hsat => ?_)
        exact hsat.stable PassStep.trans hG
  · exact hcalm (calm_of_calls hmakes.1 hw hcall hpass (h.loops i task _ hi)) hcall
      fun hp => absurd hp hpass

theorem OkInv.step {m : NodeMove} {P' : NodePool} (h : OkInv plugin target P)
    (hm : Disciplined plugin P m) (hstep : (nodeSystem plugin).Step P m P') :
    OkInv plugin target P' := by
  cases hstep with
  | start _ => exact h.start hm
  | call hi hw => exact h.call hi hw
  | finish hi =>
    have hold : ∀ {i j task p}, (P.setThread i none).threads j = some (task, p) →
        P.threads j = some (task, p) := fun hj => Pool.of_setThread_none hj
    refine ⟨h.truthful, h.apart.finish, h.single.finish, ?_, ?_, ?_, ?_⟩
    · exact fun j task' p hj => h.calls j task' p (hold hj)
    · intro j task' p hj hpass
      refine (h.passes j task' p (hold hj) hpass).imp id (And.imp_left fun hidle => ?_)
      exact fun j task' p hj => hidle j task' p (hold hj)
    · exact fun j task' p hj => h.makes j task' p (hold hj)
    · exact fun j task' p hj => h.loops j task' p (hold hj)
  | restart hr =>
    obtain rfl := hr
    exact .of_empty (fun _ => rfl) (truthful_of_unlisted rfl)

/-! ## 3. All runs -/

/-- The program is at a publish of an identity into the target. -/
def AtPublish (target : String) (p : Prog NodeSig TaskResult) : Prop :=
  ∃ identity modes origin k, p = .call (.publishIdentity target identity modes origin) k

/-- No two programs are at a publish of one target at once. In `volume.rs` a publish is many calls, and
    while they are made its program is at the publish here. -/
def PublishesApart (P : NodePool) : Prop :=
  ∀ target i j task task' p p', P.threads i = some (task, p) → P.threads j = some (task', p') →
    AtPublish target p → AtPublish target p' → i = j

/-- Who publishes into a target: a call for it, or a renewal that is not done with it. -/
theorem OkInv.publisher (h : OkInv plugin target P) {p : Prog NodeSig TaskResult}
    (hi : P.threads i = some (task, p)) (hp : AtPublish target p) :
    task.callTarget = some target ∨ task = .renew ∧ ¬ DoneWith target p := by
  obtain ⟨identity, modes, origin, k, rfl⟩ := hp
  have hop : task.calls (.publishIdentity target identity modes origin) := (h.makes i task _ hi).1
  cases task with
  | publish req => exact .inl (hop.elim (fun hno => by cases hno) Eq.symm)
  | unpublish req => exact .inl (hop.elim (fun hno => by cases hno) Eq.symm)
  | renew => exact .inr ⟨rfl, fun hdone => hdone.1 rfl⟩
  | adopt => exact absurd rfl (hop _ _ _ _)
  | reap => exact absurd rfl (hop _ _ _ _)
  | refreshCa => exact absurd rfl (h.loops i _ _ hi)
  | _ => cases hop

theorem publishesApart (h : ∀ target, OkInv plugin target P) : PublishesApart P := by
  intro target i j task task' p p' hi hj hp hp'
  have hboth : ∀ {i j task task' p p'}, P.threads i = some (task, p) →
      P.threads j = some (task', p') → task.callTarget = some target → task' = .renew →
      ¬ DoneWith target p' → False := by
    rintro i j task task' p p' hi hj hcall rfl hnot
    rcases (h target).passes j _ p' hj rfl with hdone | ⟨hidle, _⟩
    · exact hnot hdone
    · exact hidle i task p hi hcall
  rcases (h target).publisher hi hp with hcall | ⟨hrenew, hnot⟩
  · rcases (h target).publisher hj hp' with hcall' | ⟨hrenew', hnot'⟩
    · exact (h target).apart i j task task' p p' target hi hj hcall hcall'
    · exact (hboth hi hj hcall hrenew' hnot').elim
  · rcases (h target).publisher hj hp' with hcall' | ⟨hrenew', _⟩
    · exact (hboth hj hi hcall' hrenew hnot).elim
    · subst hrenew hrenew'
      exact (h target).single i j _ _ p p' () hi hj rfl rfl

end

/-- **An OK means published**, in every run in which calls and passes stay out of each other's way,
    from an empty store and any volumes. And in every state of such a run at most one program is at a
    publish of a target, so that it is right to take a publish as one step. -/
theorem publish_ok_keeps_promise {s : NodeState} {P : NodePool} (hstore : s.store = [])
    (hrun : (nodeSystem plugin).Run (Disciplined plugin) (Pool.initial s) P) :
    PublishesApart P ∧ ∀ i req, P.threads i = some (.publish req, .pure (some (.ok ()))) →
      ∃ id, Wants plugin req id ∧ Promised plugin P.state req.targetPath id := by
  have hinv : ∀ target, OkInv plugin target P := by
    intro target
    refine hrun.keeps (fun P m P' hI hm hstep => hI.step hm hstep) (.of_empty (fun _ => rfl) ?_)
    refine truthful_of_unlisted ?_
    show s.store.get target = none
    rw [hstore]
    rfl
  refine ⟨publishesApart hinv, ?_⟩
  intro i req hi
  exact (hinv req.targetPath).calls i _ _ hi rfl P.state (Calm.refl _) req rfl rfl

/-! ## 4. Runs played out -/

def oneRequest : PublishRequest where
  volumeId := "csi-1"
  targetPath := "/pods/1/mount"
  volumeContext := [(VolumeContext.podName, "p"), (VolumeContext.podNamespace, "n"),
    (VolumeContext.podUid, "1"), (VolumeContext.serviceAccount, "s"),
    (VolumeContext.ephemeral, "true")]

/-- No volume is there, except that one may be left over with a policy. -/
def bareNode (leftover : Option VolumeState) : NodeState where
  store := []
  volumes target := if target = "/pods/1/mount" then leftover else none
  ca := ""
  issued _ := none

def playNode (scene : Scene) (P : NodePool) (turns : List (Turn Task)) : NodePool :=
  (nodeSystem onePlugin).play scene.answer P turns

/-- Turns of programs that are running. -/
def goes (slots : List Nat) : List (Turn Task) := slots.map .go

/-- A time at which the certificate of the scene is due. -/
def laterScene : Scene := { oneScene with now := 2000 }

/-- Up to the first OK: the volume still has a policy, from before. -/
def publishedPool : NodePool :=
  playNode laterScene (Pool.initial (bareNode (some ⟨none, true⟩)))
    (.start 0 (.publish oneRequest) :: goes (List.replicate 12 0))

/-- The process restarts, and an adoption pass begins. -/
def adoptingPool : NodePool :=
  (nodeSystem onePlugin).turn laterScene.answer { publishedPool with
      state := { publishedPool.state with store := [], ca := "" }, threads := fun _ => none }
    (.start 1 .adopt)

/-- The adoption lists the volume again. Then a renewal pass works beside the reaper's, turn by turn, and
    when it is through with its work the kubelet asks again, and is told OK by the entry. -/
def republishedPool : NodePool :=
  playNode laterScene adoptingPool (goes (List.replicate 9 1) ++ .start 2 .reap :: .go 2 ::
    .start 3 .renew :: goes ([3, 2, 3, 2] ++ List.replicate 8 3) ++
    .start 4 (.publish oneRequest) :: goes [4, 4])

/-- Whether a task other than an adoption may start: no call is at work, and no pass either if the task
    is a call. -/
def startsApart (slots : List Nat) (P : NodePool) : Turn Task → Bool
  | .start _ task => task ≠ .refreshCa && task ≠ .adopt && P.all slots fun _ other p =>
      other.callTarget = none && (task ≠ .renew || other ≠ .renew) &&
        (task.callTarget = none || p.ended)
  | .go _ => true

section

variable {slots : List Nat} {P : NodePool} {turn : Turn Task}

theorem startsApart_grants (hP : P.OnlyIn slots) (h : startsApart slots P turn = true) :
    System.Grants (Disciplined onePlugin) P turn := by
  cases turn with
  | go i => exact ⟨fun _ _ _ _ _ => trivial, fun _ => trivial⟩
  | start i task =>
    simp only [startsApart, Bool.and_eq_true, decide_eq_true_eq] at h
    obtain ⟨⟨hca, hadopt⟩, hall⟩ := h
    have hbeside : ∀ j other p, P.threads j = some (other, p) → (other.callTarget = none ∧
        (task ≠ .renew ∨ other ≠ .renew)) ∧ (task.callTarget = none ∨ p.ended = true) := by
      intro j other p hj
      simpa using hP.of_all hall hj
    refine ⟨?_, ?_, ?_, ?_, fun he => absurd he hadopt, hca⟩
    · intro target _ j other p hj
      simp [(hbeside j other p hj).1.1]
    · intro target ht j other p hj _
      obtain ⟨r, rfl⟩ := Prog.of_ended ((hbeside j other p hj).2.resolve_left (by simp [ht]))
      trivial
    · intro _ j other p hj
      simp [(hbeside j other p hj).1.1]
    · intro he j other p hj
      exact (hbeside j other p hj).1.2.resolve_left fun hne => hne he

end

theorem published_settled (target : String) : Settled onePlugin target publishedPool.state := by
  have hvolumes : publishedPool.state.volumes target = Function.update
      (Function.update (bareNode (some ⟨none, true⟩)).volumes "/pods/1/mount" (some ⟨none, true⟩))
      "/pods/1/mount" (some ⟨some ⟨"key", "chain", "ca"⟩, true⟩) target := rfl
  intro _ v hv _
  rw [hvolumes] at hv
  by_cases ht : target = "/pods/1/mount"
  · subst ht
    rw [Function.update_self] at hv
    cases hv
    rfl
  · rw [Function.update_of_ne ht, Function.update_of_ne ht] at hv
    exact absurd hv (by simp [bareNode, ht])

theorem adopting_run : (nodeSystem onePlugin).Run (Disciplined onePlugin)
    (Pool.initial (bareNode (some ⟨none, true⟩))) adoptingPool := by
  have hpublished : (nodeSystem onePlugin).Run (Disciplined onePlugin)
      (Pool.initial (bareNode (some ⟨none, true⟩))) publishedPool ∧ publishedPool.OnlyIn [0] :=
    System.play_run laterScene.answer_world (fun _ _ => startsApart_grants) .refl (fun _ _ => rfl)
      (by decide +kernel)
  refine System.turn_run (hpublished.1.tail (m := .restart) trivial (.restart rfl))
    (System.ready_of laterScene.answer_world _ _) ⟨?_, ?_, ?_, ?_, fun _ => published_settled, by simp⟩
  · intro target ht
    cases ht
  · intro target ht
    cases ht
  · intro _ i other p hi
    cases hi
  · intro he
    cases he

/-- A publish, a restart, adoption, reaping and renewal beside each other, and the publish again. -/
theorem publish_ok_keeps_promise_upkeep :
    republishedPool.threads 4 = some (.publish oneRequest, .pure (some (.ok ()))) ∧
      PublishesApart republishedPool ∧
      ∃ id, Wants onePlugin oneRequest id ∧
        Promised onePlugin republishedPool.state oneRequest.targetPath id := by
  have hrun : (nodeSystem onePlugin).Run (Disciplined onePlugin)
      (Pool.initial (bareNode (some ⟨none, true⟩))) republishedPool ∧
      republishedPool.OnlyIn [1, 2, 3, 4] := by
    refine System.play_run laterScene.answer_world (fun _ _ => startsApart_grants) adopting_run ?_
      (by decide +kernel)
    intro i hi
    exact (System.turn_other _ fun h1 => hi (by simp [h1, Turn.slot])).trans rfl
  have hok : republishedPool.threads 4 = some (.publish oneRequest, .pure (some (.ok ()))) :=
    Pool.threads_of_at (by decide +kernel)
  obtain ⟨hapart, hpromise⟩ := publish_ok_keeps_promise rfl hrun.1
  exact ⟨hok, hapart, hpromise 4 oneRequest hok⟩

/-- The first publish runs up to its wait for the policy; an adoption pass comes and goes; the wait
    times out and the publish fails; the kubelet tries again. -/
def retrySchedule : List (Turn Task) :=
  .start 0 (.publish oneRequest) :: goes (List.replicate 7 0) ++
    .start 1 .adopt :: goes (List.replicate 9 1 ++ List.replicate 5 0) ++
    .start 2 (.publish oneRequest) :: goes [2, 2]

def retryPool : NodePool := playNode oneScene (Pool.initial (bareNode none)) retrySchedule

/-- The retry is told OK by the entry adoption left, and there is no volume. -/
theorem adoption_outlives_rollback :
    (nodeSystem onePlugin).Run OneCallPerTarget (Pool.initial (bareNode none)) retryPool ∧
      retryPool.threads 2 = some (.publish oneRequest, .pure (some (.ok ()))) ∧
      ¬ ∃ id, Promised onePlugin retryPool.state oneRequest.targetPath id := by
  have hpass : (nodeSystem onePlugin).passes oneScene.answer [0, 1, 2]
      (Pool.beside [0, 1, 2] fun task other =>
        task.callTarget = none || other.callTarget ≠ task.callTarget)
      (Pool.initial (bareNode none)) retrySchedule = true := by decide +kernel
  refine ⟨(System.play_run oneScene.answer_world ?_ .refl (fun _ _ => rfl) hpass).1,
    Pool.threads_of_at (by decide +kernel), ?_⟩
  · refine fun P turn hP h => hP.grants h ?_ (fun _ _ _ => trivial) fun _ _ => trivial
    intro i task hbeside target ht j other p hj he
    simpa [ht, he] using hbeside j other p hj
  · rintro ⟨id, ⟨v, identity, hv, _⟩, _⟩
    have hgone : retryPool.state.volumes oneRequest.targetPath = none := by decide +kernel
    rw [hgone] at hv
    cases hv

end Svidlet.Node
