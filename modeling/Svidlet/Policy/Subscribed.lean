import Svidlet.Policy.Manager

/-!
# What the policy backend has been told

`sync_subscriptions` keeps the backend's view of the subscriptions in step with the manager's. A
round reads the wanted set, sends what differs, and waits for a change.

**A change can be missed.** The comment in the loop says that interest is registered before the state
is read. It is not: `manager.wanted_changed()` only builds a future, and the `notified()` inside it is
reached at `changed.await`, after the messages. A change whose notification falls in between wakes
nobody,

> task        read ∅                                           wait …
> subscribe              insert a        notify (nobody there)

and the backend hears of `a` at the next change, if there is one. With the changes heard the task does
what it is for: when it waits, the backend follows what is wanted (`waiting_has_told`).

**A forgotten bundle can stay forgotten.** `unsubscribe` drops the bundle. The task compares sets, so
an identity that is dropped and wanted again between two of its reads is no difference at all, and the
backend, which has sent the bundle, is not asked for it again (`waiting_has_resent`).
-/

namespace Svidlet.Policy

open Lib

/-! ## 1. The stream and the threads around it -/

/-- What runs: the one sync task of a stream, the calls of others, and the end of the stream. -/
inductive StreamTask where
  | sync (rounds : Nat)
  | subscribe (id : String)
  | unsubscribe (id : String)
  | update (u : PolicyUpdate)
  | fleet (bundle : PolicyBundle)
  | hangUp

abbrev StreamLog := List (Event ManagerSig)

abbrev StreamPool := Pool ManagerSig (StreamState × StreamLog) StreamTask Unit

section

variable (enabled : Bool) (nodeName : String)

def StreamTask.body : StreamTask → Prog ManagerSig Unit
  | .sync rounds => Grpc.syncSubscriptions nodeName rounds []
  | .subscribe id => Manager.subscribe enabled id
  | .unsubscribe id => Manager.unsubscribe enabled id
  | .update u => Grpc.apply u
  | .fleet bundle => Manager.applyFleet bundle >>= fun _ => pure ()
  | .hangUp => Manager.ask .hangUp

def streamSystem : System ManagerSig (StreamState × StreamLog) StreamTask Unit where
  world := managerWorld.logged
  body := StreamTask.body enabled nodeName
  restart _ _ := False

/-- A stream has been opened on a manager, and its sync task is about to run. -/
def streamStart (rounds : Nat) (m : PolicyManager) : StreamPool :=
  (Pool.initial (.opened m, [])).setThread 0
    (some (.sync rounds, StreamTask.body enabled nodeName (.sync rounds)))

end

/-- There is one sync task to a stream. -/
def OneSync (_ : StreamPool) : Move ManagerSig StreamTask Unit → Prop
  | .start _ (.sync _) => False
  | _ => True

/-- Where the task is in its round, and what it has read. -/
inductive Stage where
  | fresh
  | read (seen : List (String × String))
  | armed (seen : List (String × String)) (ticket : Nat)

def Stage.next : Stage → Event ManagerSig → Stage
  | _, ⟨.readWanted, seen⟩ => .read seen
  | .read seen, ⟨.notified, ticket⟩ => .armed seen ticket
  | _, ⟨.awaitNotified _, _⟩ => .fresh
  | stage, _ => stage

def stageOf (log : StreamLog) : Stage := log.foldr (fun ev stage => stage.next ev) .fresh

@[simp] theorem stageOf_cons (ev : Event ManagerSig) (log : StreamLog) :
    stageOf (ev :: log) = (stageOf log).next ev := rfl

/-- Every change of the wanted set so far has been followed by a notification. -/
def announced : StreamLog → Bool
  | [] => true
  | ⟨.insertWanted _, true⟩ :: _ => false
  | ⟨.removeWanted _, true⟩ :: _ => false
  | ⟨.notifyWanted, _⟩ :: _ => true
  | _ :: older => announced older

/-- The sync task waits, no notification has reached it, and none is to come. -/
structure Waiting (P : StreamPool) (ticket : Nat) : Prop where
  thread : ∃ i rounds k, P.threads i = some (.sync rounds, .call (.awaitNotified ticket) k)
  isOpen : P.state.1.closed = false
  quiet : P.state.1.manager.wantedChanged ≤ ticket
  settled : announced P.state.2 = true

/-- A notification does not fall between the task's reading and its waiting, unless the task has read
    what is wanted now. -/
def Heard (P : StreamPool) : Move ManagerSig StreamTask Unit → Prop
  | .call _ .notifyWanted _ =>
    ∀ seen, stageOf P.state.2 = .read seen → seen.map Prod.fst = P.state.1.manager.wanted
  | _ => True

/-! ## 2. What the task says -/

/-- The lists name the same identities. -/
def SameIds (xs ys : List String) : Prop := ∀ id, id ∈ xs ↔ id ∈ ys

/-- A program that says what it has read: it subscribes to nothing else, and when it starts to wait
    the backend follows exactly that. -/
def Tells : List String → Stage → Prog ManagerSig Unit → Prop
  | _, _, .pure _ => True
  | told, stage, .call .readWanted k => stage = .fresh ∧ ∀ seen, Tells told (.read seen) (k seen)
  | told, stage, .call (.send message) k =>
    (∀ id known, message.request = .subscribe id known →
      ∃ seen, stage = .read seen ∧ (id, known) ∈ seen) ∧
      Tells (message.request.follow told) stage (k true)
  | told, stage, .call .notified k =>
    ∃ seen, stage = .read seen ∧ SameIds told (seen.map Prod.fst) ∧
      ∀ ticket, Tells told (.armed seen ticket) (k ticket)
  | told, stage, .call (.awaitNotified ticket) k =>
    ∃ seen, stage = .armed seen ticket ∧ SameIds told (seen.map Prod.fst) ∧ Tells told .fresh (k ())
  | _, _, .call _ _ => False

section

variable {nodeName : String} {seen : List (String × String)} {told : List String} {id x : String}

theorem mem_follow_subscribe {known : String} :
    x ∈ (WatchAction.subscribe id known).follow told ↔ x = id ∨ x ∈ told := mem_insertId

theorem mem_follow_unsubscribe :
    x ∈ (WatchAction.unsubscribe id).follow told ↔ x ∈ told ∧ x ≠ id := by
  simp [WatchAction.follow]

variable {sent : List String}

/-- After the first loop the backend follows what it did and what was read. -/
theorem sendNew_tells {f : Option (List String) → Prog ManagerSig Unit}
    {wanted : List (String × String)} (hwanted : ∀ pair ∈ wanted, pair ∈ seen)
    (hsent : SameIds sent told) (hf : ∀ sent' told', SameIds sent' told' →
      (∀ id, id ∈ sent' ↔ id ∈ sent ∨ id ∈ wanted.map Prod.fst) →
      Tells told' (.read seen) (f (some sent'))) :
    Tells told (.read seen) (Grpc.sendNew nodeName wanted sent >>= f) := by
  induction wanted generalizing sent told with
  | nil => exact hf sent told hsent (by simp)
  | cons pair rest ih =>
    obtain ⟨id, known⟩ := pair
    have hrest : ∀ pair ∈ rest, pair ∈ seen := fun pair h => hwanted pair (.tail _ h)
    simp only [Grpc.sendNew]
    split
    · rename_i hid
      refine ih hrest hsent fun sent' told' hsame hsent' => hf sent' told' hsame fun x => ?_
      rw [hsent' x, List.map_cons, List.mem_cons]
      constructor
      · exact Or.imp_right .inr
      · rintro (h | rfl | h)
        · exact .inl h
        · exact .inl hid
        · exact .inr h
    · refine ⟨fun id' known' he => ⟨seen, rfl, ?_⟩, ?_⟩
      · cases he
        exact hwanted _ (.head _)
      refine ih hrest ?_ fun sent' told' hsame hsent' => hf sent' told' hsame fun x => ?_
      · intro x
        rw [mem_follow_subscribe, List.mem_append, List.mem_singleton, hsent x]
        exact Or.comm
      · rw [hsent' x, List.map_cons, List.mem_cons, List.mem_append, List.mem_singleton, or_assoc]

/-- `retain` takes back what was not read. -/
theorem retainWanted_tells {f : List String → Prog ManagerSig Unit} {wantedIds rest : List String}
    {stage : Stage} (hf : ∀ told', (∀ x, x ∈ told' ↔ x ∈ told ∧ (x ∈ rest → x ∈ wantedIds)) →
      Tells told' stage (f (rest.filter (· ∈ wantedIds)))) :
    Tells told stage (Grpc.retainWanted nodeName wantedIds rest >>= f) := by
  induction rest generalizing told f with
  | nil => exact hf told (by simp)
  | cons id rest ih =>
    simp only [Grpc.retainWanted]
    split
    · rename_i hid
      rw [bind_assoc]
      refine ih (f := fun kept => f (id :: kept)) fun told' htold' => ?_
      have hkept : (id :: rest).filter (· ∈ wantedIds) = id :: rest.filter (· ∈ wantedIds) := by
        simp [hid]
      rw [← hkept]
      refine hf told' fun x => (htold' x).trans (and_congr_right fun _ => ?_)
      rw [List.mem_cons]
      constructor
      · rintro h (rfl | hx)
        · exact hid
        · exact h hx
      · exact fun h hx => h (.inr hx)
    · rename_i hid
      refine ⟨fun id' known' he => (nomatch he), ?_⟩
      refine ih fun told' htold' => ?_
      have hkept : (id :: rest).filter (· ∈ wantedIds) = rest.filter (· ∈ wantedIds) := by
        simp [hid]
      rw [← hkept]
      refine hf told' fun x => (htold' x).trans ?_
      rw [mem_follow_unsubscribe, List.mem_cons]
      constructor
      · rintro ⟨⟨hx, hne⟩, himp⟩
        exact ⟨hx, fun h => himp (h.resolve_left hne)⟩
      · rintro ⟨hx, himp⟩
        refine ⟨⟨hx, ?_⟩, fun h => himp (.inr h)⟩
        rintro rfl
        exact hid (himp (.inl rfl))

/-- **The sync task says what it has read**, round after round. -/
theorem syncSubscriptions_tells (rounds : Nat) (hsent : SameIds sent told) :
    Tells told .fresh (Grpc.syncSubscriptions nodeName rounds sent) := by
  induction rounds generalizing sent told with
  | zero => trivial
  | succ rounds ih =>
    refine ⟨rfl, fun seen => ?_⟩
    refine sendNew_tells (fun _ h => h) hsent fun sent1 told1 hsame1 hsent1 => ?_
    refine retainWanted_tells fun told2 htold2 => ?_
    have hkept : ∀ x, x ∈ sent1.filter (· ∈ seen.map Prod.fst) ↔ x ∈ seen.map Prod.fst := by
      intro x
      rw [List.mem_filter, decide_eq_true_eq, hsent1 x]
      exact ⟨And.right, fun h => ⟨.inr h, h⟩⟩
    have htold : SameIds told2 (seen.map Prod.fst) := by
      intro x
      rw [htold2 x, ← hsame1 x, ← hkept x, List.mem_filter, decide_eq_true_eq]
      exact ⟨fun h => h.2 h.1, fun h => ⟨h.1, fun _ => h⟩⟩
    refine ⟨seen, rfl, htold, fun ticket => ⟨seen, rfl, htold, ?_⟩⟩
    exact ih fun x => (hkept x).trans (htold x).symm

end

/-! ## 3. The invariant -/

/-- The calls that only the sync task makes. -/
def ManagerOp.OfSync : ManagerOp → Prop
  | .readWanted => True
  | .notified => True
  | .awaitNotified _ => True
  | .send _ => True
  | _ => False

section

variable {enabled : Bool} {nodeName : String}

theorem ask_makes {φ : ManagerOp → Prop} {o : ManagerOp} (h : φ o) :
    Prog.Makes (S := ManagerSig) φ (Manager.ask o) := Prog.Makes.of_op h

theorem notify_makes (changed : Bool) : Prog.Makes (S := ManagerSig) (fun o => ¬ o.OfSync)
    (if changed then Manager.ask .notifyWanted else pure ()) := by
  cases changed with
  | true => exact ask_makes id
  | false => trivial

theorem manager_apply_makes (id : String) (bundle : PolicyBundle) :
    Prog.Makes (S := ManagerSig) (fun o => ¬ o.OfSync) (Manager.apply id bundle) := by
  refine .bind (ask_makes fun h => h) fun changed => ?_
  cases changed with
  | true => exact .bind (ask_makes fun h => h) fun _ => .bind (ask_makes fun h => h) fun _ => trivial
  | false => trivial

/-- The others make none of the sync task's calls. -/
theorem body_makes {task : StreamTask} (h : ∀ rounds, task ≠ .sync rounds) :
    Prog.Makes (S := ManagerSig) (fun o => ¬ o.OfSync) (task.body enabled nodeName) := by
  cases task with
  | sync rounds => exact absurd rfl (h rounds)
  | subscribe id =>
    show Prog.Makes (S := ManagerSig) _ (Manager.subscribe enabled id)
    unfold Manager.subscribe
    split
    · exact .bind (ask_makes fun h => h) fun added => notify_makes added
    · trivial
  | unsubscribe id =>
    show Prog.Makes (S := ManagerSig) _ (Manager.unsubscribe enabled id)
    unfold Manager.unsubscribe
    split
    · exact .bind (ask_makes fun h => h) fun removed =>
        .bind (ask_makes fun h => h) fun _ => notify_makes removed
    · trivial
  | update u =>
    show Prog.Makes (S := ManagerSig) _ (Grpc.apply u)
    unfold Grpc.apply
    split
    · exact ask_makes fun h => h
    split
    · split
      · exact ask_makes fun h => h
      · exact .bind (manager_apply_makes _ _) fun _ => trivial
    · exact ask_makes fun h => h
  | fleet bundle =>
    refine .bind (.bind (ask_makes fun h => h) fun affected => ?_) fun _ => trivial
    cases affected with
    | some ids => exact .bind (ask_makes fun h => h) fun _ => .bind (ask_makes fun h => h) fun _ => trivial
    | none => trivial
  | hangUp => exact ask_makes fun h => h

end

variable {s s' : StreamState} {op : ManagerOp} {stage : Stage} {ans : op.Ans}

/-- What one call of the sync task leaves of what it says. -/
theorem Tells.call {k : op.Ans → Prog ManagerSig Unit} (h : Tells s.told stage (.call op k))
    (hw : managerWorld op s ans s') (hopen : s.closed = false) :
    Tells s'.told (stage.next ⟨op, ans⟩) (k ans) := by
  obtain ⟨-, hans⟩ := hw
  cases op with
  | readWanted =>
    cases hans
    exact h.2 _
  | send message =>
    simp only [ManagerOp.answer, hopen] at hans
    cases hans
    cases stage <;> exact h.2
  | notified =>
    cases hans
    obtain ⟨seen, rfl, -, hk⟩ := h
    exact hk _
  | awaitNotified ticket =>
    cases hans
    obtain ⟨seen, rfl, -, hk⟩ := h
    exact hk
  | _ => exact h.elim

/-- The calls of the others do not touch what has been said. -/
theorem other_call (hop : ¬ op.OfSync) (hw : managerWorld op s ans s') (hopen : s'.closed = false)
    (stage : Stage) :
    s'.told = s.told ∧ s.closed = false ∧ stage.next ⟨op, ans⟩ = stage := by
  obtain ⟨-, hans⟩ := hw
  cases op with
  | readWanted => exact (hop trivial).elim
  | send message => exact (hop trivial).elim
  | notified => exact (hop trivial).elim
  | awaitNotified ticket => exact (hop trivial).elim
  | hangUp =>
    cases hans
    cases hopen
  | insertBundle id bundle =>
    simp only [ManagerOp.answer] at hans
    split at hans <;> cases hans <;> exact ⟨rfl, hopen, by cases stage <;> rfl⟩
  | setFleet bundle =>
    simp only [ManagerOp.answer] at hans
    split at hans <;> cases hans <;> exact ⟨rfl, hopen, by cases stage <;> rfl⟩
  | _ =>
    cases hans
    exact ⟨rfl, hopen, by cases stage <;> rfl⟩

theorem closed_mono (hw : managerWorld op s ans s') (hopen : s'.closed = false) :
    s.closed = false := by
  by_cases hop : op.OfSync
  · obtain ⟨-, hans⟩ := hw
    cases op with
    | send message =>
      cases hclosed : s.closed with
      | false => rfl
      | true =>
        simp only [ManagerOp.answer, hclosed] at hans
        cases hans
        rw [hclosed] at hopen
        cases hopen
    | readWanted =>
      cases hans
      exact hopen
    | notified =>
      cases hans
      exact hopen
    | awaitNotified ticket =>
      cases hans
      exact hopen
    | _ => exact hop.elim
  · exact (other_call hop hw hopen .fresh).2.1

/-- The programs of a pool: the sync task, at its place in the log, and others. -/
structure InStep (P : StreamPool) : Prop where
  sync : ∀ i rounds p, P.threads i = some (.sync rounds, p) →
    i = 0 ∧ (P.state.1.closed = false → Tells P.state.1.told (stageOf P.state.2) p)
  others : ∀ i task p, P.threads i = some (task, p) → (∀ rounds, task ≠ .sync rounds) →
    Prog.Makes (S := ManagerSig) (fun o => ¬ o.OfSync) p

section

variable {enabled : Bool} {nodeName : String}

theorem InStep.step {P P' : StreamPool} {m : Move ManagerSig StreamTask Unit} (h : InStep P)
    (hm : OneSync P m) (hstep : (streamSystem enabled nodeName).Step P m P') : InStep P' := by
  cases hstep with
  | @start i task hi =>
    constructor
    · intro j rounds p hj
      obtain ⟨rfl, he⟩ | ⟨-, hj⟩ := Pool.of_setThread_some hj
      · cases he
        exact hm.elim
      · exact h.sync j rounds p hj
    · intro j task' p hj htask
      obtain ⟨rfl, he⟩ | ⟨-, hj⟩ := Pool.of_setThread_some hj
      · cases he
        exact body_makes htask
      · exact h.others j task' p hj htask
  | @call i task op k ans s' hi hw =>
    obtain ⟨hw, hlog⟩ := hw
    have hothers : ∀ j task' p, (P.setThread i (some (task, k ans))).threads j = some (task', p) →
        (∀ rounds, task' ≠ .sync rounds) → Prog.Makes (S := ManagerSig) (fun o => ¬ o.OfSync) p := by
      intro j task' p hj htask
      obtain ⟨rfl, he⟩ | ⟨-, hj⟩ := Pool.of_setThread_some hj
      · cases he
        exact (h.others _ _ _ hi htask).2 ans
      · exact h.others j task' p hj htask
    refine ⟨?_, hothers⟩
    intro j rounds p hj
    show j = 0 ∧ (s'.1.closed = false → Tells s'.1.told (stageOf s'.2) p)
    rw [hlog, stageOf_cons]
    obtain ⟨rfl, he⟩ | ⟨hji, hj⟩ := Pool.of_setThread_some hj
    · -- the task itself moves
      cases he
      obtain ⟨hzero, htells⟩ := h.sync _ _ _ hi
      refine ⟨hzero, fun hopen => ?_⟩
      exact (htells (closed_mono hw hopen)).call hw (closed_mono hw hopen)
    -- another moves, and it is not a sync task: there is only the one
    obtain ⟨hzero, htells⟩ := h.sync j rounds p hj
    refine ⟨hzero, fun hopen => ?_⟩
    have hop : ¬ ManagerOp.OfSync op := by
      refine (h.others i task _ hi ?_).1
      intro rounds' he
      rw [he] at hi
      exact hji (hzero.trans (h.sync i rounds' _ hi).1.symm)
    obtain ⟨htold, hopen', hstage⟩ := other_call hop hw hopen (stageOf P.state.2)
    rw [htold, hstage]
    exact htells hopen'
  | @finish i task r hi =>
    exact ⟨fun j rounds p hj => h.sync j rounds p (Pool.of_setThread_none hj),
      fun j task' p hj => h.others j task' p (Pool.of_setThread_none hj)⟩
  | restart hr => exact hr.elim

theorem inStep_start (rounds : Nat) (m : PolicyManager) :
    InStep (streamStart enabled nodeName rounds m) := by
  constructor
  · intro i rounds' p hi
    obtain ⟨rfl, he⟩ | ⟨-, hi⟩ := Pool.of_setThread_some hi
    · cases he
      exact ⟨rfl, fun _ => syncSubscriptions_tells rounds fun _ => Iff.rfl⟩
    · cases hi
  · intro i task p hi htask
    obtain ⟨rfl, he⟩ | ⟨-, hi⟩ := Pool.of_setThread_some hi
    · cases he
      exact absurd rfl (htask rounds)
    · cases hi

end

/-- While nothing is to be announced, the task has read what is wanted; once it waits, until it is
    notified. -/
structure Abreast (s : StreamState) (log : StreamLog) : Prop where
  read : ∀ seen, stageOf log = .read seen → announced log = true →
    seen.map Prod.fst = s.manager.wanted
  armed : ∀ seen ticket, stageOf log = .armed seen ticket → ticket ≤ s.manager.wantedChanged ∧
    (s.manager.wantedChanged = ticket → announced log = true → seen.map Prod.fst = s.manager.wanted)

variable {log : StreamLog} {ev : Event ManagerSig}

/-- A call that is no news to the task. -/
theorem Abreast.same (h : Abreast s log) (hstage : (stageOf log).next ev = stageOf log)
    (hann : announced (ev :: log) = announced log) (hwanted : s'.manager.wanted = s.manager.wanted)
    (hcount : s'.manager.wantedChanged = s.manager.wantedChanged) : Abreast s' (ev :: log) := by
  constructor
  · intro seen hseen
    rw [hann, hwanted]
    exact h.read seen (hstage.symm.trans hseen)
  · intro seen ticket harmed
    rw [hann, hwanted, hcount]
    exact h.armed seen ticket (hstage.symm.trans harmed)

/-- A change that is still to be announced. -/
theorem Abreast.change (h : Abreast s log) (hstage : (stageOf log).next ev = stageOf log)
    (hann : announced (ev :: log) = false)
    (hcount : s'.manager.wantedChanged = s.manager.wantedChanged) : Abreast s' (ev :: log) := by
  constructor
  · intro seen hseen hyes
    rw [hann] at hyes
    cases hyes
  · intro seen ticket harmed
    rw [hann, hcount]
    exact ⟨(h.armed seen ticket (hstage.symm.trans harmed)).1, fun _ hyes => nomatch hyes⟩

theorem Stage.next_same (hop : ¬ op.OfSync) :
    stage.next ⟨op, ans⟩ = stage := by
  cases op <;> first
    | exact (hop trivial).elim
    | (cases stage <;> rfl)

theorem filter_ne_of_not_mem {id : String} {ids : List String} (h : id ∉ ids) :
    ids.filter (· ≠ id) = ids := by
  refine List.filter_eq_self.mpr fun x hx => ?_
  have hne : x ≠ id := fun he => h (he ▸ hx)
  simpa using hne

theorem Abreast.step (h : Abreast s log) (hw : managerWorld op s ans s')
    (hheard : op = .notifyWanted → ∀ seen, stageOf log = .read seen →
      seen.map Prod.fst = s.manager.wanted) : Abreast s' (⟨op, ans⟩ :: log) := by
  obtain ⟨-, hans⟩ := hw
  cases op with
  | insertWanted id =>
    by_cases hid : id ∈ s.manager.wanted
    · simp only [ManagerOp.answer, hid] at hans
      cases hans
      exact h.same (Stage.next_same fun h => h) rfl (by simp [insertId, hid]) rfl
    · simp only [ManagerOp.answer, hid] at hans
      cases hans
      exact h.change (Stage.next_same fun h => h) rfl rfl
  | removeWanted id =>
    by_cases hid : id ∈ s.manager.wanted
    · simp only [ManagerOp.answer, hid] at hans
      cases hans
      exact h.change (Stage.next_same fun h => h) rfl rfl
    · simp only [ManagerOp.answer, hid] at hans
      cases hans
      exact h.same (Stage.next_same fun h => h) rfl (filter_ne_of_not_mem hid) rfl
  | notifyWanted =>
    cases hans
    have hstage : (stageOf log).next ⟨.notifyWanted, ()⟩ = stageOf log := Stage.next_same fun h => h
    constructor
    · intro seen hseen _
      exact hheard rfl seen (hstage.symm.trans hseen)
    · intro seen ticket harmed
      have hle := (h.armed seen ticket (hstage.symm.trans harmed)).1
      have hcount : (s.withManager fun m =>
        { m with wantedChanged := m.wantedChanged + 1 }).manager.wantedChanged =
          s.manager.wantedChanged + 1 := rfl
      rw [hcount]
      exact ⟨by omega, fun he => by omega⟩
  | readWanted =>
    cases hans
    constructor
    · intro seen hseen _
      cases hseen
      simp [Function.comp_def]
    · intro seen ticket harmed
      cases harmed
  | notified =>
    cases hans
    cases hstage : stageOf log with
    | read seen =>
      constructor
      · intro seen' hseen
        rw [stageOf_cons, hstage] at hseen
        cases hseen
      · intro seen' ticket harmed
        rw [stageOf_cons, hstage] at harmed
        cases harmed
        exact ⟨Nat.le_refl _, fun _ => h.read seen hstage⟩
    | fresh => exact h.same (by rw [hstage]; rfl) rfl rfl rfl
    | armed seen ticket => exact h.same (by rw [hstage]; rfl) rfl rfl rfl
  | awaitNotified ticket =>
    cases hans
    have hfresh : stageOf (⟨.awaitNotified ticket, ()⟩ :: log) = .fresh := by
      rw [stageOf_cons]
      cases stageOf log <;> rfl
    constructor
    · intro seen hseen
      cases hfresh.symm.trans hseen
    · intro seen ticket' harmed
      cases hfresh.symm.trans harmed
  | send message =>
    simp only [ManagerOp.answer] at hans
    have hstage : ∀ ans : Bool, (stageOf log).next ⟨.send message, ans⟩ = stageOf log := by
      intro ans
      cases stageOf log <;> rfl
    split at hans <;> cases hans <;> exact h.same (hstage _) rfl rfl rfl
  | insertBundle id bundle =>
    simp only [ManagerOp.answer] at hans
    split at hans <;> cases hans <;> exact h.same (Stage.next_same fun h => h) rfl rfl rfl
  | setFleet bundle =>
    simp only [ManagerOp.answer] at hans
    split at hans <;> cases hans <;> exact h.same (Stage.next_same fun h => h) rfl rfl rfl
  | _ =>
    cases hans
    exact h.same (Stage.next_same fun h => h) rfl rfl rfl

theorem abreast_start (m : PolicyManager) : Abreast (.opened m) [] :=
  ⟨fun _ h => (nomatch h), fun _ _ h => (nomatch h)⟩

/-! ## 4. The backend follows what is wanted -/

section

variable {enabled : Bool} {nodeName : String} {P : StreamPool} {ticket : Nat}

/-- What a wait says of the set that was read. -/
theorem InStep.waiting (h : InStep P) (hwait : Waiting P ticket) :
    ∃ seen, stageOf P.state.2 = .armed seen ticket ∧ SameIds P.state.1.told (seen.map Prod.fst) := by
  obtain ⟨i, rounds, k, hi⟩ := hwait.thread
  obtain ⟨seen, hstage, hsame, -⟩ := (h.sync i rounds _ hi).2 hwait.isOpen
  exact ⟨seen, hstage, hsame⟩

theorem Abreast.waiting (h : Abreast P.state.1 P.state.2) (hin : InStep P)
    (hwait : Waiting P ticket) :
    SameIds P.state.1.told P.state.1.manager.wanted := by
  obtain ⟨seen, hstage, hsame⟩ := hin.waiting hwait
  obtain ⟨hle, hwanted⟩ := h.armed seen ticket hstage
  rw [← hwanted (Nat.le_antisymm hwait.quiet hle) hwait.settled]
  exact hsame

theorem abreast_step {P' : StreamPool} {m : Move ManagerSig StreamTask Unit}
    (h : Abreast P.state.1 P.state.2) (hm : Heard P m)
    (hstep : (streamSystem enabled nodeName).Step P m P') : Abreast P'.state.1 P'.state.2 := by
  cases hstep with
  | start hi => exact h
  | @call i task op k ans s' hi hw =>
    show Abreast s'.1 s'.2
    rw [hw.2]
    refine h.step hw.1 ?_
    rintro rfl
    exact hm
  | finish hi => exact h
  | restart hr => exact hr.elim

/-- **Whenever the sync task waits and no wakeup is pending, the backend follows what is wanted**, in
    every run in which no notification falls between the task's reading and its waiting. -/
theorem waiting_has_told (rounds : Nat) (m : PolicyManager) {P : StreamPool}
    (hrun : (streamSystem enabled nodeName).Run (fun P m => OneSync P m ∧ Heard P m)
      (streamStart enabled nodeName rounds m) P) {ticket : Nat} (hwait : Waiting P ticket) :
    SameIds P.state.1.told P.state.1.manager.wanted := by
  have hinv : InStep P ∧ Abreast P.state.1 P.state.2 := by
    refine hrun.keeps (I := fun P => InStep P ∧ Abreast P.state.1 P.state.2) ?_
      ⟨inStep_start rounds m, abreast_start m⟩
    intro P₁ move P₂ h hm hstep
    exact ⟨h.1.step hm.1 hstep, abreast_step h.2 hm.2 hstep⟩
  exact hinv.2.waiting hinv.1 hwait

/-- The ticket that the program in a slot waits with. -/
def waitsIn (P : StreamPool) (i : Nat) : Option Nat :=
  match P.threads i with
  | some (.sync _, .call (.awaitNotified ticket) _) => some ticket
  | _ => none

/-- The state says that the task waits in slot 0 for good. -/
def waitsQuietly (P : StreamPool) (ticket : Nat) : Bool :=
  waitsIn P 0 == some ticket && !P.state.1.closed &&
    decide (P.state.1.manager.wantedChanged ≤ ticket) && announced P.state.2

theorem Waiting.of_quietly (h : waitsQuietly P ticket = true) : Waiting P ticket := by
  simp only [waitsQuietly, Bool.and_eq_true, beq_iff_eq, Bool.not_eq_true', decide_eq_true_eq] at h
  obtain ⟨⟨⟨hthread, hopen⟩, hquiet⟩, hann⟩ := h
  refine ⟨⟨0, ?_⟩, hopen, hquiet, hann⟩
  unfold waitsIn at hthread
  split at hthread
  · rename_i rounds ticket' k hi
    cases hthread
    exact ⟨rounds, k, hi⟩
  · cases hthread

/-- A turn that the calls are ready for, and that starts no second sync task. -/
def goesOn (P : StreamPool) : Turn StreamTask → Bool
  | .start _ (.sync _) => false
  | .start _ _ => true
  | .go i =>
    match P.threads i with
    | some (_, .call o _) => ManagerOp.ready o P.state.1
    | _ => true

/-- A turn in which no notification is missed. -/
def hears (P : StreamPool) : Turn StreamTask → Bool
  | .go i =>
    match P.threads i with
    | some (_, .call .notifyWanted _) =>
      match stageOf P.state.2 with
      | .read seen => decide (seen.map Prod.fst = P.state.1.manager.wanted)
      | _ => true
    | _ => true
  | _ => true

variable {turn : Turn StreamTask}

theorem ready_of_goesOn (h : goesOn P turn = true) :
    (streamSystem enabled nodeName).Ready (logging ManagerOp.answer) P turn := by
  cases turn with
  | start i task => trivial
  | go i =>
    intro task o k hi
    simp only [goesOn, hi] at h
    exact ⟨⟨h, rfl⟩, rfl⟩

theorem oneSync_of_goesOn (h : goesOn P turn = true) : System.Grants OneSync P turn := by
  cases turn with
  | start i task =>
    cases task with
    | sync rounds => cases h
    | _ => trivial
  | go i => exact ⟨fun _ _ _ _ _ => trivial, fun _ => trivial⟩

theorem heard_of_hears (h : hears P turn = true) : System.Grants Heard P turn := by
  cases turn with
  | start i task => trivial
  | go i =>
    refine ⟨?_, fun _ => trivial⟩
    intro task o k ans hi
    cases o with
    | notifyWanted =>
      intro seen hseen
      simpa only [hears, hi, hseen, decide_eq_true_eq] using h
    | _ => trivial

/-- A stream on an empty manager, after the turns of a schedule. -/
def streamAfter (turns : List (Turn StreamTask)) : StreamPool :=
  (streamSystem true "n").play (logging ManagerOp.answer) (streamStart true "n" 4 .new) turns

/-- The task finds nothing and waits; then the identity comes, and the task goes through a round. -/
def heardTurns : List (Turn StreamTask) :=
  [.go 0, .go 0, .start 1 (.subscribe "a"), .go 1, .go 1, .go 1, .go 0, .go 0, .go 0, .go 0]

theorem stream_run {allowed : StreamPool → Move ManagerSig StreamTask Unit → Prop}
    {check : StreamPool → Turn StreamTask → Bool} {turns : List (Turn StreamTask)}
    (hgrant : ∀ P turn, check P turn = true → System.Grants allowed P turn)
    (hpass : (streamSystem true "n").passes (logging ManagerOp.answer) [0, 1]
      (fun P turn => goesOn P turn && check P turn) (streamStart true "n" 4 .new) turns = true) :
    (streamSystem true "n").Run (fun P m => OneSync P m ∧ allowed P m) (streamStart true "n" 4 .new)
      (streamAfter turns) := by
  refine (System.play_run_ready ?_ .refl ?_ hpass).1
  · intro P turn _ h
    obtain ⟨hgoes, hcheck⟩ := Bool.and_eq_true_iff.mp h
    exact ⟨ready_of_goesOn hgoes, (oneSync_of_goesOn hgoes).and (hgrant P turn hcheck)⟩
  · intro i hi
    exact Pool.setThread_other _ _ fun h0 => hi (by simp [h0])

theorem waiting_has_told_one : Waiting (streamAfter heardTurns) 1 ∧
      SameIds (streamAfter heardTurns).state.1.told (streamAfter heardTurns).state.1.manager.wanted ∧
      (streamAfter heardTurns).state.1.told = ["a"] := by
  have hwait : Waiting (streamAfter heardTurns) 1 := .of_quietly (by decide)
  exact ⟨hwait, waiting_has_told 4 .new (stream_run (fun _ _ => heard_of_hears) (by decide)) hwait,
    by decide⟩

/-- The identity comes after the task has read and before it waits. -/
def missedTurns : List (Turn StreamTask) :=
  [.go 0, .start 1 (.subscribe "a"), .go 1, .go 1, .go 1, .go 0]

/-- **A change is missed.** -/
theorem change_is_missed :
    (streamSystem true "n").Run OneSync (streamStart true "n" 4 .new) (streamAfter missedTurns) ∧
      Waiting (streamAfter missedTurns) 1 ∧
      (streamAfter missedTurns).state.1.manager.wanted = ["a"] ∧
      (streamAfter missedTurns).state.1.told = [] := by
  have hrun := stream_run (fun P turn _ => System.grants_all P turn)
    (show (streamSystem true "n").passes (logging ManagerOp.answer) [0, 1]
      (fun P turn => goesOn P turn && true) (streamStart true "n" 4 .new) missedTurns = true by decide)
  exact ⟨hrun.mono fun _ _ h => h.1, .of_quietly (by decide), by decide, by decide⟩

end

/-! ## 5. What was forgotten is asked for again -/

/-- The revisions were read, and then the backend was asked for the identity with what was read. -/
def Resent (id : String) (log : StreamLog) : Prop := ∃ newer between older nodeName known seen,
    log = newer ++ ⟨.send ⟨nodeName, .subscribe id known⟩, true⟩ ::
      (between ++ ⟨.readWanted, seen⟩ :: older) ∧ (id, known) ∈ seen

/-- Every time an identity was dropped it has been asked for since. -/
def Renewed (id : String) (log : StreamLog) : Prop :=
  ∀ later earlier, log = later ++ ⟨.removeWanted id, true⟩ :: earlier → Resent id later

/-- The identity has not been dropped since the set was read. -/
def Untouched (id : String) (seen : List (String × String)) (log : StreamLog) : Prop :=
  ∃ newer older, log = newer ++ ⟨.readWanted, seen⟩ :: older ∧ ⟨.removeWanted id, true⟩ ∉ newer

/-- What the backend will follow at the end of the round. -/
def heading : Stage → List String → List String
  | .read seen, _ => seen.map Prod.fst
  | _, told => told

/-- An identity becomes wanted again only after the task has read a set without it. -/
def Apart (P : StreamPool) : Move ManagerSig StreamTask Unit → Prop
  | .call _ (.insertWanted id) true => id ∉ heading (stageOf P.state.2) P.state.1.told
  | _ => True

section

variable {id : String} {log : StreamLog} {ev : Event ManagerSig} {seen : List (String × String)}

theorem Resent.cons (h : Resent id log) (ev : Event ManagerSig) : Resent id (ev :: log) := by
  obtain ⟨newer, between, older, nodeName, known, seen, rfl, hmem⟩ := h
  exact ⟨ev :: newer, between, older, nodeName, known, seen, rfl, hmem⟩

theorem Renewed.cons (h : Renewed id log) (hev : ev ≠ ⟨.removeWanted id, true⟩) :
    Renewed id (ev :: log) := by
  intro later earlier he
  cases later with
  | nil =>
    obtain ⟨rfl, -⟩ := List.cons.inj he
    exact absurd rfl hev
  | cons first later =>
    obtain ⟨rfl, hlog⟩ := List.cons.inj he
    exact (h later earlier hlog).cons _

theorem Untouched.cons (h : Untouched id seen log) (hev : ev ≠ ⟨.removeWanted id, true⟩) :
    Untouched id seen (ev :: log) := by
  obtain ⟨newer, older, rfl, hnewer⟩ := h
  refine ⟨ev :: newer, older, rfl, ?_⟩
  rw [List.mem_cons, not_or]
  exact ⟨hev.symm, hnewer⟩

/-- Asking with what was read, when the identity has not been dropped since. -/
theorem Untouched.renewed {nodeName known : String} (h : Untouched id seen log)
    (hmem : (id, known) ∈ seen) :
    Renewed id (⟨.send ⟨nodeName, .subscribe id known⟩, true⟩ :: log) := by
  obtain ⟨newer, older, rfl, hnewer⟩ := h
  intro later earlier he
  cases later with
  | nil => cases (List.cons.inj he).1
  | cons first later =>
    obtain ⟨rfl, hlog⟩ := List.cons.inj he
    -- the dropping is not among the newer events, so it is older than the reading
    rcases List.append_eq_append_iff.mp hlog with ⟨rest, rfl, hrest⟩ | ⟨rest, rfl, hrest⟩
    · cases rest with
      | nil => cases (List.cons.inj hrest).1
      | cons first' rest =>
        obtain ⟨rfl, rfl⟩ := List.cons.inj hrest
        exact ⟨[], newer, rest, nodeName, known, seen, rfl, hmem⟩
    cases rest with
    | nil => cases (List.cons.inj hrest).1
    | cons first' rest =>
      obtain ⟨rfl, -⟩ := List.cons.inj hrest
      exact absurd (List.mem_append_right _ (.head _)) hnewer

end

/-- Of what is wanted, what the backend follows has been asked for since it was last dropped. -/
structure Requested (s : StreamState) (log : StreamLog) : Prop where
  follows : ∀ id ∈ s.manager.wanted, id ∈ s.told → id ∈ heading (stageOf log) s.told → Renewed id log
  reads : ∀ seen, stageOf log = .read seen → ∀ id ∈ s.manager.wanted, id ∈ seen.map Prod.fst →
    Untouched id seen log

/-- A call after which no more is wanted and followed than before. -/
theorem Requested.same (h : Requested s log) (hstage : (stageOf log).next ev = stageOf log)
    (hwanted : ∀ id ∈ s'.manager.wanted, id ∈ heading (stageOf log) s.told →
      id ∈ s.manager.wanted ∧ ev ≠ ⟨.removeWanted id, true⟩) (htold : ∀ id ∈ s'.told, id ∈ s.told) :
    Requested s' (ev :: log) := by
  have hheading : ∀ id, id ∈ heading (stageOf log) s'.told → id ∈ heading (stageOf log) s.told := by
    intro id
    cases stageOf log with
    | read seen => exact fun h => h
    | fresh => exact htold id
    | armed seen ticket => exact htold id
  constructor
  · intro id hid htold' hhead
    rw [stageOf_cons, hstage] at hhead
    obtain ⟨hold, hev⟩ := hwanted id hid (hheading id hhead)
    exact (h.follows id hold (htold id htold') (hheading id hhead)).cons hev
  · intro seen hseen id hid hmem
    rw [stageOf_cons, hstage] at hseen
    obtain ⟨hold, hev⟩ := hwanted id hid (by rw [hseen]; exact hmem)
    exact (h.reads seen hseen id hold hmem).cons hev

theorem Requested.step (h : Requested s log) (hw : managerWorld op s ans s')
    (hopen : s'.closed = false) (htells : op.OfSync → ∃ k : op.Ans → Prog ManagerSig Unit,
      Tells s.told (stageOf log) (.call op k))
    (hapart : ∀ id, op = .insertWanted id → id ∉ s.manager.wanted →
      id ∉ heading (stageOf log) s.told) : Requested s' (⟨op, ans⟩ :: log) := by
  have hopen' : s.closed = false := closed_mono hw hopen
  obtain ⟨-, hans⟩ := hw
  cases op with
  | insertWanted id =>
    cases hans
    refine h.same (Stage.next_same fun h => h) ?_ fun _ h => h
    intro x hx hhead
    refine ⟨?_, fun he => (nomatch he)⟩
    rcases mem_insertId.mp hx with rfl | hx
    · by_contra hnot
      exact hapart x rfl hnot hhead
    · exact hx
  | removeWanted id =>
    cases hans
    refine h.same (Stage.next_same fun h => h) ?_ fun _ h => h
    intro x hx _
    obtain ⟨hmem, hne⟩ := List.mem_filter.mp hx
    refine ⟨hmem, fun he => ?_⟩
    have hop : ManagerOp.removeWanted id = .removeWanted x := congrArg Event.op he
    cases hop
    simp at hne
  | readWanted =>
    cases hans
    obtain ⟨k, hfresh, -⟩ := htells trivial
    constructor
    · intro id hid htold _
      have hold : id ∈ heading (stageOf log) s.told := by
        rw [hfresh]
        exact htold
      exact (h.follows id hid htold hold).cons fun he => nomatch he
    · intro seen hseen id _ _
      cases hseen
      exact ⟨[], log, rfl, List.not_mem_nil⟩
  | send message =>
    simp only [ManagerOp.answer, hopen'] at hans
    cases hans
    obtain ⟨k, hsub, -⟩ := htells trivial
    have hstage : (stageOf log).next ⟨.send message, true⟩ = stageOf log := by
      cases stageOf log <;> rfl
    obtain ⟨nodeName, request⟩ := message
    cases request with
    | unsubscribe id =>
      refine h.same hstage (fun x hx _ => ⟨hx, fun he => nomatch he⟩) ?_
      intro x hx
      exact (mem_follow_unsubscribe.mp hx).1
    | subscribe id known =>
      obtain ⟨seen, hread, hmem⟩ := hsub id known rfl
      constructor
      · intro x hx htold hhead
        rw [stageOf_cons, hstage, hread] at hhead
        rcases mem_insertId.mp htold with rfl | htold
        · exact (h.reads seen hread x hx hhead).renewed hmem
        have hold : x ∈ heading (stageOf log) s.told := by
          rw [hread]
          exact hhead
        exact (h.follows x hx htold hold).cons fun he => nomatch he
      · intro seen' hseen x hx hmem'
        rw [stageOf_cons, hstage] at hseen
        exact (h.reads seen' hseen x hx hmem').cons fun he => nomatch he
  | notified =>
    cases hans
    obtain ⟨k, seen, hread, hsame, -⟩ := htells trivial
    constructor
    · intro id hid htold _
      have hold : id ∈ heading (stageOf log) s.told := by
        rw [hread]
        exact (hsame id).mp htold
      exact (h.follows id hid htold hold).cons fun he => nomatch he
    · intro seen' hseen
      rw [stageOf_cons, hread] at hseen
      cases hseen
  | awaitNotified ticket =>
    cases hans
    obtain ⟨k, seen, harmed, -, -⟩ := htells trivial
    constructor
    · intro id hid htold _
      have hold : id ∈ heading (stageOf log) s.told := by
        rw [harmed]
        exact htold
      exact (h.follows id hid htold hold).cons fun he => nomatch he
    · intro seen' hseen
      rw [stageOf_cons, harmed] at hseen
      cases hseen
  | insertBundle id bundle =>
    simp only [ManagerOp.answer] at hans
    split at hans <;> cases hans <;>
      exact h.same (Stage.next_same fun h => h) (fun x hx _ => ⟨hx, fun he => nomatch he⟩) fun _ h => h
  | setFleet bundle =>
    simp only [ManagerOp.answer] at hans
    split at hans <;> cases hans <;>
      exact h.same (Stage.next_same fun h => h) (fun x hx _ => ⟨hx, fun he => nomatch he⟩) fun _ h => h
  | hangUp =>
    cases hans
    cases hopen
  | _ =>
    cases hans
    exact h.same (Stage.next_same fun h => h) (fun x hx _ => ⟨hx, fun he => nomatch he⟩) fun _ h => h

section

variable {enabled : Bool} {nodeName : String} {P : StreamPool}

theorem requested_step {P' : StreamPool} {m : Move ManagerSig StreamTask Unit} (hin : InStep P)
    (h : P.state.1.closed = false → Requested P.state.1 P.state.2) (hm : Apart P m)
    (hstep : (streamSystem enabled nodeName).Step P m P') :
    P'.state.1.closed = false → Requested P'.state.1 P'.state.2 := by
  cases hstep with
  | start hi => exact h
  | @call i task op k ans s' hi hw =>
    intro hopen
    show Requested s'.1 s'.2
    have hopen' : P.state.1.closed = false := closed_mono hw.1 hopen
    rw [hw.2]
    refine (h hopen').step hw.1 hopen ?_ ?_
    · intro hsync
      refine ⟨k, ?_⟩
      by_cases htask : ∃ rounds, task = .sync rounds
      · obtain ⟨rounds, rfl⟩ := htask
        exact (hin.sync i rounds _ hi).2 hopen'
      · exact absurd hsync (hin.others i task _ hi fun rounds he => htask ⟨rounds, he⟩).1
    rintro id rfl hnot
    have hans : ans = true := by
      have := congrArg Prod.fst hw.1.2
      simpa [ManagerOp.answer, hnot] using this
    subst hans
    exact hm
  | finish hi => exact h
  | restart hr => exact hr.elim

/-- **When the task has caught up and waits, everything wanted that was ever dropped has been asked
    for since**, with the revision then held, in every run in which no notification is missed and no
    identity is dropped and wanted again between two readings. -/
theorem waiting_has_resent (rounds : Nat) (m : PolicyManager) {P : StreamPool}
    (hrun : (streamSystem enabled nodeName).Run (fun P m => OneSync P m ∧ Heard P m ∧ Apart P m)
      (streamStart enabled nodeName rounds m) P) {ticket : Nat} (hwait : Waiting P ticket) :
    ∀ id ∈ P.state.1.manager.wanted, Renewed id P.state.2 := by
  have hinv : InStep P ∧ Abreast P.state.1 P.state.2 ∧
      (P.state.1.closed = false → Requested P.state.1 P.state.2) := by
    refine hrun.keeps (I := fun P => InStep P ∧ Abreast P.state.1 P.state.2 ∧
      (P.state.1.closed = false → Requested P.state.1 P.state.2)) ?_
      ⟨inStep_start rounds m, abreast_start m, fun _ => ⟨?_, fun _ h => nomatch h⟩⟩
    · intro P₁ move P₂ h hm hstep
      exact ⟨h.1.step hm.1 hstep, abreast_step h.2.1 hm.2.1 hstep,
        requested_step h.1 h.2.2 hm.2.2 hstep⟩
    · intro id _ htold
      cases htold
  obtain ⟨hin, habreast, hrequested⟩ := hinv
  intro id hid
  have htold : id ∈ P.state.1.told := (habreast.waiting hin hwait id).mpr hid
  obtain ⟨seen, hstage, -⟩ := hin.waiting hwait
  refine (hrequested hwait.isOpen).follows id hid htold ?_
  rw [hstage]
  exact htold

/-- A turn in which no identity becomes wanted again too soon. -/
def keepsApart (P : StreamPool) : Turn StreamTask → Bool
  | .go i =>
    match P.threads i with
    | some (_, .call (.insertWanted id) _) =>
      decide (id ∉ heading (stageOf P.state.2) P.state.1.told)
    | _ => true
  | _ => true

theorem apart_of_keepsApart {turn : Turn StreamTask} (h : keepsApart P turn = true) :
    System.Grants Apart P turn := by
  cases turn with
  | start i task => trivial
  | go i =>
    refine ⟨?_, fun _ => trivial⟩
    intro task o k ans hi
    cases o with
    | insertWanted id =>
      cases ans with
      | true =>
        simp only [keepsApart, hi, decide_eq_true_eq] at h
        exact h
      | false => trivial
    | _ => trivial

/-- A bundle has come for the identity; it is dropped, and the task goes through a round. -/
def droppedTurns : List (Turn StreamTask) :=
  heardTurns ++ [.start 1 (.update ⟨"a", "r", [⟨"d", []⟩], false⟩), .go 1, .go 1, .go 1, .go 1,
    .start 1 (.unsubscribe "a"), .go 1, .go 1, .go 1, .go 1]

/-- It is wanted again after that round. -/
def apartTurns : List (Turn StreamTask) := droppedTurns ++ [.go 0, .go 0, .go 0, .go 0,
    .start 1 (.subscribe "a"), .go 1, .go 1, .go 1, .go 0, .go 0, .go 0, .go 0]

theorem waiting_has_resent_one :
    Waiting (streamAfter apartTurns) 3 ∧ "a" ∈ (streamAfter apartTurns).state.1.manager.wanted ∧
      Renewed "a" (streamAfter apartTurns).state.2 := by
  have hwait : Waiting (streamAfter apartTurns) 3 := .of_quietly (by decide)
  have hmem : "a" ∈ (streamAfter apartTurns).state.1.manager.wanted := by decide
  have hrun : (streamSystem true "n").Run (fun P m => OneSync P m ∧ Heard P m ∧ Apart P m)
      (streamStart true "n" 4 .new) (streamAfter apartTurns) :=
    stream_run (fun P turn h => (heard_of_hears (Bool.and_eq_true_iff.mp h).1).and
      (apart_of_keepsApart (Bool.and_eq_true_iff.mp h).2)) (by decide)
  exact ⟨hwait, hmem, waiting_has_resent 4 .new hrun hwait "a" hmem⟩

/-- Nothing has been sent since an identity was dropped. -/
def leftDropped (id : String) : StreamLog → Bool
  | [] => false
  | ⟨.removeWanted x, true⟩ :: older => x == id || leftDropped id older
  | ⟨.send _, _⟩ :: _ => false
  | _ :: older => leftDropped id older

theorem not_renewed_of_leftDropped {id : String} {log : StreamLog} (h : leftDropped id log = true) :
    ∃ later earlier, log = later ++ ⟨.removeWanted id, true⟩ :: earlier ∧ ¬ Resent id later := by
  have hsplit : ∃ later earlier, log = later ++ ⟨.removeWanted id, true⟩ :: earlier ∧
      ∀ message ans, ⟨.send message, ans⟩ ∉ later := by
    fun_induction leftDropped id log with
    | case1 => cases h
    | case2 x older ih =>
      rcases Bool.or_eq_true_iff.mp h with hx | hx
      · rw [eq_of_beq hx]
        exact ⟨[], older, rfl, fun _ _ => List.not_mem_nil⟩
      obtain ⟨later, earlier, rfl, hno⟩ := ih hx
      refine ⟨_ :: later, earlier, rfl, fun message ans hmem => ?_⟩
      rcases List.mem_cons.mp hmem with he | hmem
      · cases he
      · exact hno message ans hmem
    | case3 message ans older => cases h
    | case4 ev older _ hsend ih =>
      obtain ⟨later, earlier, rfl, hno⟩ := ih h
      refine ⟨ev :: later, earlier, rfl, fun message ans hmem => ?_⟩
      rcases List.mem_cons.mp hmem with he | hmem
      · exact hsend message ans he.symm
      · exact hno message ans hmem
  obtain ⟨later, earlier, hlog, hno⟩ := hsplit
  refine ⟨later, earlier, hlog, ?_⟩
  rintro ⟨newer, between, oldest, nodeName, known, seen, rfl, -⟩
  exact hno _ _ (List.mem_append_right _ (.head _))

/-- Wanted again at once: the round finds no difference. -/
def againTurns : List (Turn StreamTask) :=
  droppedTurns ++ [.start 1 (.subscribe "a"), .go 1, .go 1, .go 1, .go 0, .go 0, .go 0]

/-- **What was forgotten is not asked for.** -/
theorem forgotten_is_not_resent :
    (streamSystem true "n").Run (fun P m => OneSync P m ∧ Heard P m) (streamStart true "n" 4 .new)
      (streamAfter againTurns) ∧
      Waiting (streamAfter againTurns) 3 ∧
      "a" ∈ (streamAfter againTurns).state.1.manager.wanted ∧
      ¬ Renewed "a" (streamAfter againTurns).state.2 := by
  refine ⟨stream_run (fun _ _ => heard_of_hears) (by decide), .of_quietly (by decide), by decide, ?_⟩
  intro hrenewed
  obtain ⟨later, earlier, hlog, hnot⟩ := not_renewed_of_leftDropped
    (show leftDropped "a" (streamAfter againTurns).state.2 = true by decide)
  exact hnot (hrenewed later earlier hlog)

end

end Svidlet.Policy
