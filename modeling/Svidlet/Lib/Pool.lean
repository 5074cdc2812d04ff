import Svidlet.Lib.Prog

/-!
# Pools of programs

A `Pool` is a shared state and the programs that are running over it. One step starts a program,
lets one program make one call, takes a finished program out, or restarts the process, in which
every program is lost and the state changes as the system says. Any order of such steps is a run,
so a statement about every `Run` is one about every interleaving.

The rule of the file is `Run.safe`. Each program comes with a contract in the sense of `Sat`, and
a run keeps all of them at once when every step that is allowed keeps the invariant and is a move
the other programs rely on. `allowed` is where a property that only holds under a discipline says
what the discipline is: it sees the pool before the step and the step, and nothing else.
-/

namespace Svidlet.Lib

/-- `threads i` is the program in slot `i`, with the task it was started for. -/
structure Pool (S : Sig) (σ τ ρ : Type) where
  state : σ
  threads : Nat → Option (τ × Prog S ρ)
  /-- The tasks that have ended and their results, newest first. -/
  returned : List (τ × ρ)

/-- What the programs of a pool are and what the world around them does. -/
structure System (S : Sig) (σ τ ρ : Type) where
  world : World S σ
  body : τ → Prog S ρ
  restart : σ → σ → Prop

/-- The world that also writes down every call, newest first. -/
def World.logged {S : Sig} {σ : Type} (W : World S σ) : World S (σ × List (Event S)) :=
  fun op s ans s' => W op s.1 ans s'.1 ∧ s'.2 = ⟨op, ans⟩ :: s.2

/-- What one step of a pool was. -/
inductive Move (S : Sig) (τ ρ : Type) where
  | start (i : Nat) (task : τ)
  | call (i : Nat) (op : S.Op) (ans : S.Ans op)
  | finish (i : Nat) (r : ρ)
  | restart

namespace Pool

variable {S : Sig} {σ τ ρ : Type}

def setThread (P : Pool S σ τ ρ) (i : Nat) (th : Option (τ × Prog S ρ)) : Pool S σ τ ρ :=
  { P with threads := Function.update P.threads i th }

/-- No program is running for a task that `f` picks. -/
def Idle (P : Pool S σ τ ρ) (f : τ → Prop) : Prop :=
  ∀ i task p, P.threads i = some (task, p) → ¬ f task

@[simp] theorem setThread_same (P : Pool S σ τ ρ) (i : Nat) (th : Option (τ × Prog S ρ)) :
    (P.setThread i th).threads i = th := by simp [setThread]

variable {i j : Nat}

theorem setThread_other (P : Pool S σ τ ρ) (th : Option (τ × Prog S ρ)) (h : j ≠ i) :
    (P.setThread i th).threads j = P.threads j := by simp [setThread, h]

variable {P : Pool S σ τ ρ} {th : τ × Prog S ρ}

/-- Who runs after a slot has been filled. -/
theorem of_setThread_some {th' : τ × Prog S ρ}
    (h : (P.setThread i (some th)).threads j = some th') :
    j = i ∧ th' = th ∨ j ≠ i ∧ P.threads j = some th' := by
  by_cases hji : j = i
  · subst hji
    rw [setThread_same] at h
    exact .inl ⟨rfl, (Option.some.inj h).symm⟩
  · rw [setThread_other P _ hji] at h
    exact .inr ⟨hji, h⟩

/-- Who runs after a slot has been emptied. -/
theorem of_setThread_none (h : (P.setThread i none).threads j = some th) :
    P.threads j = some th := by
  by_cases hji : j = i
  · subst hji
    rw [setThread_same] at h
    cases h
  · rwa [setThread_other P _ hji] at h

variable {f : τ → Prop} {task : τ} {p : Prog S ρ}

/-- What holds of the task of every program, once a slot has been filled for one more. -/
theorem tasks_setThread (h : ∀ j task' p', P.threads j = some (task', p') → f task') (hf : f task) :
    ∀ j task' p', (P.setThread i (some (task, p))).threads j = some (task', p') → f task' := by
  intro j task' p' hj
  rcases of_setThread_some hj with ⟨_, he⟩ | ⟨_, hold⟩
  · cases he
    exact hf
  · exact h j task' p' hold

theorem Idle.set (h : P.Idle f) (hf : ¬ f task) : (P.setThread i (some (task, p))).Idle f :=
  tasks_setThread (f := fun task => ¬ f task) h hf

/-- Idle now, and idle before a slot changed that was not busy with such a task. -/
theorem Idle.before {th : Option (τ × Prog S ρ)} (h : (P.setThread i th).Idle f)
    (hi : ∀ task p, P.threads i = some (task, p) → ¬ f task) :
    P.Idle f := by
  intro j task p hj
  by_cases hji : j = i
  · exact hi task p (hji ▸ hj)
  · exact h j task p ((P.setThread_other _ hji).trans hj)

theorem Idle.before_call {q : Prog S ρ} (h : (P.setThread i (some (task, p))).Idle f)
    (hi : P.threads i = some (task, q)) :
    P.Idle f := by
  have hnot : ¬ f task := h i task p (P.setThread_same i _)
  exact h.before (by simp [hi, hnot])

/-- At most one program runs for each key. -/
def Exclusive {κ : Type} (key : τ → Option κ) (P : Pool S σ τ ρ) : Prop :=
  ∀ i j task task' p p' k, P.threads i = some (task, p) → P.threads j = some (task', p') →
    key task = some k → key task' = some k → i = j

section

variable {κ : Type} {key : τ → Option κ} {P : Pool S σ τ ρ} {i : Nat} {task : τ} {p : Prog S ρ}

theorem Exclusive.start (h : P.Exclusive key)
    (hidle : ∀ k, key task = some k → P.Idle fun task' => key task' = some k) :
    (P.setThread i (some (task, p))).Exclusive key := by
  intro j j' task1 task2 p1 p2 k hj hj' hk1 hk2
  rcases of_setThread_some hj with ⟨hji, he⟩ | ⟨_, hold⟩
  · rcases of_setThread_some hj' with ⟨hji', _⟩ | ⟨_, hold'⟩
    · exact hji.trans hji'.symm
    · cases he
      exact absurd hk2 (hidle k hk1 j' task2 p2 hold')
  rcases of_setThread_some hj' with ⟨_, he⟩ | ⟨_, hold'⟩
  · cases he
    exact absurd hk1 (hidle k hk2 j task1 p1 hold)
  · exact h j j' task1 task2 p1 p2 k hold hold' hk1 hk2

theorem Exclusive.call {q : Prog S ρ} (h : P.Exclusive key) (hi : P.threads i = some (task, q)) :
    (P.setThread i (some (task, p))).Exclusive key := by
  have hback : ∀ j task' p', (P.setThread i (some (task, p))).threads j = some (task', p') →
      ∃ q', P.threads j = some (task', q') := by
    intro j task' p' hj
    rcases of_setThread_some hj with ⟨rfl, he⟩ | ⟨_, hj⟩
    · cases he
      exact ⟨q, hi⟩
    · exact ⟨p', hj⟩
  intro j j' task1 task2 p1 p2 k hj hj' hk1 hk2
  obtain ⟨q1, hq1⟩ := hback j task1 p1 hj
  obtain ⟨q2, hq2⟩ := hback j' task2 p2 hj'
  exact h j j' task1 task2 q1 q2 k hq1 hq2 hk1 hk2

theorem Exclusive.finish (h : P.Exclusive key) : (P.setThread i none).Exclusive key := by
  intro j j' task1 task2 p1 p2 k hj hj' hk1 hk2
  exact h j j' task1 task2 p1 p2 k (of_setThread_none hj) (of_setThread_none hj') hk1 hk2

end

end Pool

/-! ## 1. Runs -/

section

variable {S : Sig} {σ τ ρ : Type}

inductive System.Step (M : System S σ τ ρ) : Pool S σ τ ρ → Move S τ ρ → Pool S σ τ ρ → Prop where
  | start {P : Pool S σ τ ρ} {i : Nat} {task : τ} : P.threads i = none →
      M.Step P (.start i task) (P.setThread i (some (task, M.body task)))
  | call {P : Pool S σ τ ρ} {i : Nat} {task : τ} {op : S.Op} {k : S.Ans op → Prog S ρ}
      {ans : S.Ans op} {s' : σ} :
      P.threads i = some (task, .call op k) → M.world op P.state ans s' →
      M.Step P (.call i op ans) { P.setThread i (some (task, k ans)) with state := s' }
  | finish {P : Pool S σ τ ρ} {i : Nat} {task : τ} {r : ρ} : P.threads i = some (task, .pure r) →
      M.Step P (.finish i r) { P.setThread i none with returned := (task, r) :: P.returned }
  | restart {P : Pool S σ τ ρ} {s' : σ} : M.restart P.state s' →
      M.Step P .restart { P with state := s', threads := fun _ => none }

/-- The pool a process starts with: a state and nothing running. -/
def Pool.initial (s : σ) : Pool S σ τ ρ := ⟨s, fun _ => none, []⟩

/-- `M.Run allowed P P'`: allowed steps lead from `P` to `P'`. -/
inductive System.Run (M : System S σ τ ρ) (allowed : Pool S σ τ ρ → Move S τ ρ → Prop) :
    Pool S σ τ ρ → Pool S σ τ ρ → Prop where
  | refl {P : Pool S σ τ ρ} : M.Run allowed P P
  | tail {P P₁ P₂ : Pool S σ τ ρ} {m : Move S τ ρ} :
      M.Run allowed P P₁ → allowed P₁ m → M.Step P₁ m P₂ → M.Run allowed P P₂

variable {M : System S σ τ ρ} {allowed : Pool S σ τ ρ → Move S τ ρ → Prop} {I : Pool S σ τ ρ → Prop}
  {P P' : Pool S σ τ ρ}

/-- What every allowed step keeps, every run keeps. -/
theorem System.Run.keeps (hstep : ∀ P m P', I P → allowed P m → M.Step P m P' → I P')
    (hrun : M.Run allowed P P') (hI : I P) : I P' := by
  induction hrun with
  | refl => exact hI
  | tail _ hm hs ih => exact hstep _ _ _ ih hm hs

theorem System.Run.mono {allowed' : Pool S σ τ ρ → Move S τ ρ → Prop}
    (himp : ∀ P m, allowed P m → allowed' P m) (hrun : M.Run allowed P P') :
    M.Run allowed' P P' := by
  induction hrun with
  | refl => exact .refl
  | tail _ hm hs ih => exact ih.tail (himp _ _ hm) hs

/-! ## 2. Contracts kept by runs -/

/-- What is asked of the programs for a task: what they rely on, what each of their calls
    guarantees, and what holds when they return. -/
structure Contract (σ τ ρ : Type) where
  rely : τ → σ → σ → Prop
  guar : τ → σ → σ → Prop
  post : τ → ρ → σ → Prop
  rely_refl : ∀ task s, rely task s s
  rely_trans : ∀ task a b c, rely task a b → rely task b c → rely task a c

/-- Every running program still meets its contract. -/
def Contract.Kept (K : Contract σ τ ρ) (M : System S σ τ ρ) (P : Pool S σ τ ρ) : Prop :=
  ∀ i task p, P.threads i = some (task, p) →
    Sat M.world (K.rely task) (K.guar task) (K.post task) p P.state

variable {K : Contract σ τ ρ} {i : Nat} {task : τ}

/-- When a program returns, its postcondition holds. -/
theorem Contract.Kept.at_finish {r : ρ} (h : K.Kept M P) (hi : P.threads i = some (task, .pure r)) :
    K.post task r P.state :=
  h i task (.pure r) hi P.state (K.rely_refl task P.state)

/-- The obligations under which every run keeps an invariant and all contracts. -/
structure Contract.Sound (K : Contract σ τ ρ) (M : System S σ τ ρ)
    (allowed : Pool S σ τ ρ → Move S τ ρ → Prop) (I : Pool S σ τ ρ → Prop) : Prop where
  start : ∀ {P i task}, I P → K.Kept M P → allowed P (.start i task) → P.threads i = none →
    I (P.setThread i (some (task, M.body task))) ∧
      Sat M.world (K.rely task) (K.guar task) (K.post task) (M.body task) P.state
  call : ∀ {P i task} {op : S.Op} {k : S.Ans op → Prog S ρ} {ans s'}, I P → K.Kept M P →
    allowed P (.call i op ans) → P.threads i = some (task, .call op k) →
    M.world op P.state ans s' → K.guar task P.state s' →
    I { P.setThread i (some (task, k ans)) with state := s' } ∧
      ∀ j task' p, j ≠ i → P.threads j = some (task', p) → K.rely task' P.state s'
  finish : ∀ {P i task r}, I P → K.Kept M P → allowed P (.finish i r) →
    P.threads i = some (task, .pure r) → K.post task r P.state →
    I { P.setThread i none with returned := (task, r) :: P.returned }
  restart : ∀ {P s'}, I P → allowed P .restart → M.restart P.state s' →
    I { P with state := s', threads := fun _ => none }

variable {m : Move S τ ρ}

theorem Contract.Sound.step (hK : K.Sound M allowed I) (hI : I P) (hkept : K.Kept M P)
    (hm : allowed P m) (hstep : M.Step P m P') :
    I P' ∧ K.Kept M P' := by
  cases hstep with
  | @start i task hfree =>
    obtain ⟨hI', hbody⟩ := hK.start hI hkept hm hfree
    refine ⟨hI', ?_⟩
    intro j task' p hj
    rcases Pool.of_setThread_some hj with ⟨rfl, he⟩ | ⟨_, hj⟩
    · cases he
      exact hbody
    · exact hkept j task' p hj
  | @call i task op k ans s' hi hw =>
    -- our own contract moves on by one call, everybody else's by a move they rely on
    obtain ⟨hguar, hrest⟩ := hkept i task _ hi P.state (K.rely_refl task P.state) ans s' hw
    obtain ⟨hI', hrely⟩ := hK.call hI hkept hm hi hw hguar
    refine ⟨hI', ?_⟩
    intro j task' p hj
    rcases Pool.of_setThread_some hj with ⟨rfl, he⟩ | ⟨hji, hj⟩
    · cases he
      exact hrest
    · exact (hkept j task' p hj).stable (K.rely_trans task') (hrely j task' p hji hj)
  | @finish i task r hi =>
    refine ⟨hK.finish hI hkept hm hi (hkept.at_finish hi), ?_⟩
    intro j task' p hj
    exact hkept j task' p (Pool.of_setThread_none hj)
  | restart hr =>
    refine ⟨hK.restart hI hm hr, ?_⟩
    intro j task' p hj
    cases hj

/-- Every allowed run keeps the invariant and all contracts. -/
theorem System.Run.safe (hK : K.Sound M allowed I) (hI : I P) (hkept : K.Kept M P)
    (hrun : M.Run allowed P P') : I P' ∧ K.Kept M P' := by
  induction hrun with
  | refl => exact ⟨hI, hkept⟩
  | tail _ hm hstep ih => exact hK.step ih.1 ih.2 hm hstep

/-- Nobody makes a call that the program for its task does not have. -/
def System.Within (φ : τ → S.Op → Prop) (P : Pool S σ τ ρ) : Move S τ ρ → Prop
  | .call i op _ => ∀ task p, P.threads i = some (task, p) → φ task op
  | _ => True

variable {φ : τ → S.Op → Prop}

/-- A run can be taken to make only the calls its programs have. -/
theorem System.Run.within (hφ : ∀ task, (M.body task).Makes (φ task)) {s : σ}
    (hrun : M.Run allowed (Pool.initial s) P) :
    M.Run (fun P m => allowed P m ∧ System.Within φ P m) (Pool.initial s) P ∧
      ∀ i task p, P.threads i = some (task, p) → p.Makes (φ task) := by
  induction hrun with
  | refl => exact ⟨.refl, by intro i task p hi; cases hi⟩
  | @tail P1 P2 m _ hm hstep ih =>
    obtain ⟨hrun', hmakes⟩ := ih
    cases hstep with
    | @start i task hfree =>
      refine ⟨hrun'.tail ⟨hm, trivial⟩ (.start hfree), ?_⟩
      intro j task' p hj
      rcases Pool.of_setThread_some hj with ⟨rfl, he⟩ | ⟨_, hj⟩
      · cases he
        exact hφ task
      · exact hmakes j task' p hj
    | @call i task op k ans s' hi hw =>
      have hcall := hmakes i task _ hi
      have hin : System.Within φ P1 (.call i op ans) := by
        intro task' p hi'
        rw [hi] at hi'
        cases hi'
        exact hcall.1
      refine ⟨hrun'.tail ⟨hm, hin⟩ (.call hi hw), ?_⟩
      intro j task' p hj
      rcases Pool.of_setThread_some hj with ⟨rfl, he⟩ | ⟨_, hj⟩
      · cases he
        exact hcall.2 ans
      · exact hmakes j task' p hj
    | @finish i task r hi =>
      refine ⟨hrun'.tail ⟨hm, trivial⟩ (.finish hi), ?_⟩
      intro j task' p hj
      exact hmakes j task' p (Pool.of_setThread_none hj)
    | restart hr =>
      refine ⟨hrun'.tail ⟨hm, trivial⟩ (.restart hr), ?_⟩
      intro j task' p hj
      cases hj

/-- The task has been started: its program is running or has returned. -/
def Pool.Started (P : Pool S σ τ ρ) (task : τ) : Prop :=
  (∃ r, (task, r) ∈ P.returned) ∨ ∃ i p, P.threads i = some (task, p)

/-- Without restarts, what has been started stays so. -/
theorem System.Step.started (hM : ∀ s s', ¬ M.restart s s') (hstep : M.Step P m P')
    (h : P.Started task) : P'.Started task := by
  rcases h with ⟨r, hr⟩ | ⟨j, p, hj⟩
  · cases hstep with
    | start _ => exact .inl ⟨r, hr⟩
    | call _ _ => exact .inl ⟨r, hr⟩
    | finish _ => exact .inl ⟨r, .tail _ hr⟩
    | restart hrestart => exact absurd hrestart (hM _ _)
  cases hstep with
  | @start i task' hfree =>
    refine .inr ⟨j, p, ?_⟩
    rwa [P.setThread_other _ fun hji => by rw [hji, hfree] at hj; cases hj]
  | @call i task' op k ans s' hi hw =>
    by_cases hji : j = i
    · subst hji
      obtain ⟨rfl, -⟩ := Prod.mk.inj (Option.some.inj (hj.symm.trans hi))
      exact .inr ⟨j, k ans, P.setThread_same j _⟩
    · exact .inr ⟨j, p, (P.setThread_other _ hji).trans hj⟩
  | @finish i task' r hi =>
    by_cases hji : j = i
    · subst hji
      obtain ⟨rfl, -⟩ := Prod.mk.inj (Option.some.inj (hj.symm.trans hi))
      exact .inl ⟨r, .head _⟩
    · exact .inr ⟨j, p, (P.setThread_other _ hji).trans hj⟩
  | restart hrestart => exact absurd hrestart (hM _ _)

/-- A run can be taken to start only what it has started at its end. -/
theorem System.Run.started (hM : ∀ s s', ¬ M.restart s s') (hrun : M.Run allowed P P') :
    M.Run (fun Q m => allowed Q m ∧ ∀ i task, m = .start i task → P'.Started task) P P' := by
  induction hrun with
  | refl => exact .refl
  | tail _ hm hstep ih =>
    refine (ih.mono ?_).tail ⟨hm, ?_⟩ hstep
    · intro Q m' hm'
      exact ⟨hm'.1, fun i task he => hstep.started hM (hm'.2 i task he)⟩
    intro i task he
    subst he
    cases hstep with
    | start hfree => exact .inr ⟨i, _, Pool.setThread_same _ i _⟩

/-! ## 3. Schedules

A deterministic world can be played: a schedule says who moves next. Whether the world and a discipline
let every turn go is found out on the way, by a check of the pool in which the turn is taken. So a run
of concrete programs is one evaluation (`play_run_ready`). -/

/-- One entry of a schedule: start a task in a slot, or let a slot move once. -/
inductive Turn (τ : Type) where
  | start (i : Nat) (task : τ)
  | go (i : Nat)

/-- The slot a turn is for. -/
def Turn.slot : Turn τ → Nat
  | .start i _ => i
  | .go i => i

def System.turn (M : System S σ τ ρ) (handler : (o : S.Op) → σ → S.Ans o × σ)
    (P : Pool S σ τ ρ) : Turn τ → Pool S σ τ ρ
  | .start i task =>
    match P.threads i with
    | none => P.setThread i (some (task, M.body task))
    | some _ => P
  | .go i =>
    match P.threads i with
    | some (task, .call o k) =>
      { P.setThread i (some (task, k (handler o P.state).1)) with state := (handler o P.state).2 }
    | some (task, .pure r) => { P.setThread i none with returned := (task, r) :: P.returned }
    | none => P

def System.play (M : System S σ τ ρ) (handler : (o : S.Op) → σ → S.Ans o × σ)
    (P : Pool S σ τ ρ) (turns : List (Turn τ)) : Pool S σ τ ρ :=
  turns.foldl (M.turn handler) P

/-- Answers, and the log of them. -/
def logging {S : Sig} {σ : Type} (handler : (o : S.Op) → σ → S.Ans o × σ) (o : S.Op)
    (s : σ × List (Event S)) : S.Ans o × (σ × List (Event S)) :=
  ((handler o s.1).1, ((handler o s.1).2, ⟨o, (handler o s.1).1⟩ :: s.2))

/-- The world lets a slot go on as the handler says. A call that has to wait is not ready. -/
def System.Ready (M : System S σ τ ρ) (handler : (o : S.Op) → σ → S.Ans o × σ)
    (P : Pool S σ τ ρ) : Turn τ → Prop
  | .start _ _ => True
  | .go i => ∀ task o k, P.threads i = some (task, .call o k) →
      M.world o P.state (handler o P.state).1 (handler o P.state).2

variable {handler : (o : S.Op) → σ → S.Ans o × σ}

theorem System.ready_of (hworld : ∀ o s, M.world o s (handler o s).1 (handler o s).2)
    (P : Pool S σ τ ρ) (turn : Turn τ) : M.Ready handler P turn := by
  cases turn with
  | start i task => trivial
  | go i => exact fun _ o _ _ => hworld o P.state

/-- The discipline lets a slot take its turn. -/
def System.Grants (allowed : Pool S σ τ ρ → Move S τ ρ → Prop) (P : Pool S σ τ ρ) : Turn τ → Prop
  | .start i task => allowed P (.start i task)
  | .go i =>
    (∀ task o k ans, P.threads i = some (task, .call o k) → allowed P (.call i o ans)) ∧
      ∀ r, allowed P (.finish i r)

variable {turn : Turn τ}

theorem System.Grants.and {f g : Pool S σ τ ρ → Move S τ ρ → Prop} (hf : System.Grants f P turn)
    (hg : System.Grants g P turn) :
    System.Grants (fun P m => f P m ∧ g P m) P turn := by
  cases turn with
  | start i task => exact ⟨hf, hg⟩
  | go i =>
    exact ⟨fun task o k ans hi => ⟨hf.1 task o k ans hi, hg.1 task o k ans hi⟩,
      fun r => ⟨hf.2 r, hg.2 r⟩⟩

/-- What one turn does. -/
theorem System.turn_cases (M : System S σ τ ρ) (handler : (o : S.Op) → σ → S.Ans o × σ)
    (P : Pool S σ τ ρ) (turn : Turn τ) : M.turn handler P turn = P ∨
      (∃ i task, turn = .start i task ∧ P.threads i = none ∧
        M.turn handler P turn = P.setThread i (some (task, M.body task))) ∨
      (∃ i task o k, turn = .go i ∧ P.threads i = some (task, .call o k) ∧ M.turn handler P turn =
        { P.setThread i (some (task, k (handler o P.state).1)) with state := (handler o P.state).2 }) ∨
      ∃ i task r, turn = .go i ∧ P.threads i = some (task, .pure r) ∧ M.turn handler P turn =
        { P.setThread i none with returned := (task, r) :: P.returned } := by
  cases turn with
  | start i task =>
    cases hi : P.threads i with
    | none => exact .inr (.inl ⟨i, task, rfl, hi, by simp only [System.turn, hi]⟩)
    | some th => exact .inl (by simp only [System.turn, hi])
  | go i =>
    cases hi : P.threads i with
    | none => exact .inl (by simp only [System.turn, hi])
    | some th =>
      obtain ⟨task, p⟩ := th
      cases p with
      | pure r => exact .inr (.inr (.inr ⟨i, task, r, rfl, hi, by simp only [System.turn, hi]⟩))
      | call o k => exact .inr (.inr (.inl ⟨i, task, o, k, rfl, hi, by simp only [System.turn, hi]⟩))

theorem System.turn_run (hrun : M.Run allowed P P') (hready : M.Ready handler P' turn)
    (hgrant : System.Grants allowed P' turn) :
    M.Run allowed P (M.turn handler P' turn) := by
  obtain h | ⟨i, task, rfl, hi, h⟩ | ⟨i, task, o, k, rfl, hi, h⟩ | ⟨i, task, r, rfl, hi, h⟩ :=
    M.turn_cases handler P' turn
  all_goals rw [h]
  · exact hrun
  · exact hrun.tail hgrant (.start hi)
  · exact hrun.tail (hgrant.1 task o k _ hi) (.call hi (hready task o k hi))
  · exact hrun.tail (hgrant.2 r) (.finish hi)

/-- A turn changes its own slot only. -/
theorem System.turn_other (P : Pool S σ τ ρ) (h : i ≠ turn.slot) :
    (M.turn handler P turn).threads i = P.threads i := by
  obtain ht | ⟨j, task, rfl, -, ht⟩ | ⟨j, task, o, k, rfl, -, ht⟩ | ⟨j, task, r, rfl, -, ht⟩ :=
    M.turn_cases handler P turn
  all_goals rw [ht]
  all_goals exact P.setThread_other _ h

/-- Nothing runs but in these slots. -/
def Pool.OnlyIn (slots : List Nat) (P : Pool S σ τ ρ) : Prop := ∀ i, i ∉ slots → P.threads i = none

/-- Whether all that runs in these slots is as `f` says. -/
def Pool.all (slots : List Nat) (P : Pool S σ τ ρ) (f : Nat → τ → Prog S ρ → Bool) : Bool :=
  slots.all fun i => (P.threads i).all fun th => f i th.1 th.2

variable {slots : List Nat}

theorem Pool.OnlyIn.of_all {f : Nat → τ → Prog S ρ → Bool} {p : Prog S ρ} (h : P.OnlyIn slots)
    (hall : P.all slots f = true) (hi : P.threads i = some (task, p)) : f i task p = true := by
  have hin : i ∈ slots := by
    by_contra hout
    cases (h i hout).symm.trans hi
  simpa [hi] using List.all_eq_true.mp hall i hin

theorem Pool.OnlyIn.none (h : P.OnlyIn slots) (hall : P.all slots (fun _ _ _ => false) = true)
    (i : Nat) : P.threads i = none := by
  cases hi : P.threads i with
  | none => rfl
  | some th => cases h.of_all hall hi

/-- Whether the turns of a schedule are for these slots, and pass a check on the pools they are taken
    in. -/
def System.passes (M : System S σ τ ρ) (handler : (o : S.Op) → σ → S.Ans o × σ) (slots : List Nat)
    (check : Pool S σ τ ρ → Turn τ → Bool) : Pool S σ τ ρ → List (Turn τ) → Bool
  | _, [] => true
  | P, turn :: rest => decide (turn.slot ∈ slots) && check P turn &&
      M.passes handler slots check (M.turn handler P turn) rest

variable {turns : List (Turn τ)} {check : Pool S σ τ ρ → Turn τ → Bool}

/-- **Playing a schedule is a run** when the turns pass a check under which the world and the
    discipline let them go. -/
theorem System.play_run_ready (hcheck : ∀ P turn, P.OnlyIn slots → check P turn = true →
      M.Ready handler P turn ∧ System.Grants allowed P turn) (hrun : M.Run allowed P P')
    (hP : P'.OnlyIn slots) (hpass : M.passes handler slots check P' turns = true) :
    M.Run allowed P (M.play handler P' turns) ∧ (M.play handler P' turns).OnlyIn slots := by
  induction turns generalizing P' with
  | nil => exact ⟨hrun, hP⟩
  | cons turn rest ih =>
    simp only [System.passes, Bool.and_eq_true, decide_eq_true_eq] at hpass
    obtain ⟨⟨hslot, hturn⟩, hrest⟩ := hpass
    obtain ⟨hready, hgrant⟩ := hcheck P' turn hP hturn
    refine ih (System.turn_run hrun hready hgrant) (fun i hi => ?_) hrest
    rw [System.turn_other P' (by rintro rfl; exact hi hslot)]
    exact hP i hi

theorem System.play_run (hworld : ∀ o s, M.world o s (handler o s).1 (handler o s).2)
    (hgrant : ∀ P turn, P.OnlyIn slots → check P turn = true → System.Grants allowed P turn)
    (hrun : M.Run allowed P P') (hP : P'.OnlyIn slots)
    (hpass : M.passes handler slots check P' turns = true) :
    M.Run allowed P (M.play handler P' turns) ∧ (M.play handler P' turns).OnlyIn slots :=
  System.play_run_ready (fun P turn h hturn => ⟨M.ready_of hworld P turn, hgrant P turn h hturn⟩) hrun
    hP hpass

/-- Start a task only beside those it may run beside. -/
def Pool.beside (slots : List Nat) (ok : τ → τ → Bool) (P : Pool S σ τ ρ) : Turn τ → Bool
  | .start _ task => P.all slots fun _ other _ => ok task other
  | .go _ => true

theorem Pool.OnlyIn.grants {ok : τ → τ → Bool} (hP : P.OnlyIn slots)
    (h : P.beside slots ok turn = true) (hstart : ∀ i task,
      (∀ j other p, P.threads j = some (other, p) → ok task other = true) → allowed P (.start i task))
    (hcall : ∀ i o ans, allowed P (.call i o ans)) (hfinish : ∀ i r, allowed P (.finish i r)) :
    System.Grants allowed P turn := by
  cases turn with
  | start i task =>
    exact hstart i task fun j other p hj => hP.of_all (f := fun _ other _ => ok task other) h hj
  | go i => exact ⟨fun _ o _ ans _ => hcall i o ans, hfinish i⟩

/-- Without a discipline every turn is granted. -/
theorem System.grants_all (P : Pool S σ τ ρ) (turn : Turn τ) :
    System.Grants (fun _ _ => True) P turn := by
  cases turn with
  | start i task => trivial
  | go i => exact ⟨fun _ _ _ _ _ => trivial, fun _ => trivial⟩

/-- The program has returned. -/
def Prog.ended : Prog S ρ → Bool
  | .pure _ => true
  | .call _ _ => false

theorem Prog.of_ended {p : Prog S ρ} (h : p.ended = true) : ∃ r, p = .pure r := by
  cases p with
  | pure r => exact ⟨r, rfl⟩
  | call o k => cases h

/-- The task in a slot, and its result if it has one: what of a slot can be compared. -/
def Pool.at (P : Pool S σ τ ρ) (i : Nat) : Option (τ × Option ρ) :=
  (P.threads i).map fun th => (th.1, match th.2 with
    | .pure r => some r
    | .call _ _ => none)

theorem Pool.threads_of_at {r : ρ} (h : P.at i = some (task, some r)) :
    P.threads i = some (task, .pure r) := by
  obtain ⟨⟨task', p⟩, hi, he⟩ := Option.map_eq_some_iff.mp h
  cases p with
  | pure r' =>
    cases he
    exact hi
  | call o k => cases he

theorem Contract.kept_initial (K : Contract σ τ ρ) (M : System S σ τ ρ) (s : σ) :
    K.Kept M (Pool.initial s) := by
  intro i task p hi
  cases hi

end

end Svidlet.Lib
