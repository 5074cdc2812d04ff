import Mathlib

/-!
# Programs as trees, and the ways of running them

The code under verification talks to the world through calls: to a filesystem, to an API
server, to a registry, to a map behind a lock. A `Prog S α` is such a program written down
once: a tree whose inner nodes are calls of the signature `S` and whose branches are the
answers the call may have.

Writing the tree down is what lets one text have several meanings. A `World` says what a call
may answer and how it changes the state, and it is a relation, so a world may be exact, may let
any call fail, or may let the other party answer whatever it likes. Over a world there are
three readings:

> `Exec`  — the program runs alone, from start to end, and leaves a trace;
> `wp`    — what must hold before, so that every such run ends in `Q`;
> `Sat`   — the same when others move between any two calls, and every step of ours is
>           watched too: `R` is what they may do, `G` what we promise of each of our steps;
> `Watch` — `Sat` with nobody else around, which is what a crash can see of a program.

Nothing in this file knows what the calls are.
-/

namespace Svidlet.Lib

/-- A signature: the calls a program can make, and the type of answer each one has. -/
structure Sig where
  Op : Type
  Ans : Op → Type

/-- A program over the calls of `S`. -/
inductive Prog (S : Sig) (α : Type) : Type where
  | pure (a : α)
  | call (op : S.Op) (k : S.Ans op → Prog S α)

/-- A program that may end early with an error: what `Result` and `?` are in the source. -/
abbrev Fallible (S : Sig) (ε α : Type) := ExceptT ε (Prog S) α

namespace Prog

variable {S : Sig} {σ α β ε : Type}

/-! ## 1. The monad -/

def bind : Prog S α → (α → Prog S β) → Prog S β
  | pure a, f => f a
  | call op k, f => call op fun ans => (k ans).bind f

instance : Monad (Prog S) where
  pure := pure
  bind := bind

/-- The program that makes one call and answers what the call answered. -/
def op (o : S.Op) : Prog S (S.Ans o) := call o pure

theorem bind_pure_right (p : Prog S α) : p.bind pure = p := by
  induction p with
  | pure a => rfl
  | call o k ih => simp only [bind, ih]

theorem bind_assoc' {γ : Type} (p : Prog S α) (f : α → Prog S β) (g : β → Prog S γ) :
    (p.bind f).bind g = p.bind fun a => (f a).bind g := by
  induction p with
  | pure a => rfl
  | call o k ih => simp only [bind, ih]

instance : LawfulMonad (Prog S) :=
  LawfulMonad.mk' (Prog S) bind_pure_right (fun _ _ => rfl) bind_assoc'

end Prog

/-! ## 2. Worlds and runs -/

/-- What a call may answer in a state, and the state it leaves. -/
abbrev World (S : Sig) (σ : Type) := (op : S.Op) → σ → S.Ans op → σ → Prop

/-- One call together with the answer it got. -/
structure Event (S : Sig) where
  op : S.Op
  ans : S.Ans op

/-- `Exec W p s tr a s'`: run alone from `s`, the program makes the calls of `tr`, answers `a`
    and leaves `s'`. -/
inductive Exec {S : Sig} {σ α : Type} (W : World S σ) :
    Prog S α → σ → List (Event S) → α → σ → Prop where
  | pure {a : α} {s : σ} : Exec W (.pure a) s [] a s
  | call {op : S.Op} {k : S.Ans op → Prog S α} {s s₁ s' : σ} {ans : S.Ans op}
      {tr : List (Event S)} {a : α} :
      W op s ans s₁ → Exec W (k ans) s₁ tr a s' →
      Exec W (.call op k) s (⟨op, ans⟩ :: tr) a s'

/-- `Sat W R G Q p s`: from `s`, with moves of others that `R` describes between any two calls,
    each call of `p` makes a step within `G`, and if `p` ends it ends in `Q`. -/
def Sat {S : Sig} {σ α : Type} (W : World S σ) (R G : σ → σ → Prop) (Q : α → σ → Prop) :
    Prog S α → σ → Prop
  | .pure a, s => ∀ s₁, R s s₁ → Q a s₁
  | .call op k, s => ∀ s₁, R s s₁ → ∀ ans s₂, W op s₁ ans s₂ → G s₁ s₂ ∧ Sat W R G Q (k ans) s₂

/-- The weakest precondition: `Sat` with nobody else around and nothing promised. -/
def wp {S : Sig} {σ α : Type} (W : World S σ) (Q : α → σ → Prop) : Prog S α → σ → Prop
  | .pure a, s => Q a s
  | .call op k, s => ∀ ans s₁, W op s ans s₁ → wp W Q (k ans) s₁

section

variable {S : Sig} {σ α β ε : Type} {W : World S σ}

/-! ## 3. Runs through sequencing -/

variable {p : Prog S α} {f : α → Prog S β} {s s' : σ} {tr : List (Event S)} {b : β}

/-- A run of `p >>= f` is a run of `p` and then one of `f` on its answer. -/
theorem Exec.bind_inv (h : Exec W (p >>= f) s tr b s') :
    ∃ tr1 tr2 a s1, tr = tr1 ++ tr2 ∧ Exec W p s tr1 a s1 ∧ Exec W (f a) s1 tr2 b s' := by
  induction p generalizing s tr with
  | pure a => exact ⟨[], tr, a, s, rfl, .pure, h⟩
  | call o k ih =>
    cases h with
    | call hw hk =>
      obtain ⟨tr1, tr2, a, s1, rfl, hp, hf⟩ := ih _ hk
      exact ⟨_ :: tr1, tr2, a, s1, rfl, .call hw hp, hf⟩

variable {a : α}

theorem Exec.bind {s1 : σ} {tr1 tr2 : List (Event S)} (hp : Exec W p s tr1 a s1)
    (hf : Exec W (f a) s1 tr2 b s') :
    Exec W (p >>= f) s (tr1 ++ tr2) b s' := by
  induction hp with
  | pure => exact hf
  | call hw _ ih => exact .call hw (ih hf)

variable {o : S.Op}

theorem Exec.op_inv {ans : S.Ans o} (h : Exec W (Prog.op o) s tr ans s') :
    tr = [⟨o, ans⟩] ∧ W o s ans s' := by
  cases h with
  | call hw hk =>
    cases hk with
    | pure => exact ⟨rfl, hw⟩

/-! ## 4. The rules for `wp` -/

variable {Q : α → σ → Prop}

@[simp] theorem wp_pure : wp W Q (Pure.pure a : Prog S α) s ↔ Q a s := Iff.rfl

@[simp] theorem wp_call {k : S.Ans o → Prog S α} :
    wp W Q (.call o k) s ↔ ∀ ans s1, W o s ans s1 → wp W Q (k ans) s1 := Iff.rfl

@[simp] theorem wp_op {Q : S.Ans o → σ → Prop} :
    wp W Q (Prog.op o) s ↔ ∀ ans s1, W o s ans s1 → Q ans s1 := Iff.rfl

@[simp] theorem wp_bind {Q : β → σ → Prop} :
    wp W Q (p >>= f) s ↔ wp W (fun a => wp W Q (f a)) p s := by
  induction p generalizing s with
  | pure a => exact Iff.rfl
  | call o k ih =>
    constructor
    · intro h ans s1 hw
      exact (ih ans).mp (h ans s1 hw)
    · intro h ans s1 hw
      exact (ih ans).mpr (h ans s1 hw)

theorem wp_mono {Q' : α → σ → Prop} (hQ : ∀ a s', Q a s' → Q' a s') (h : wp W Q p s) :
    wp W Q' p s := by
  induction p generalizing s with
  | pure a => exact hQ a s h
  | call o k ih =>
    intro ans s1 hw
    exact ih ans (h ans s1 hw)

/-- The rule callers use: a specification of the callee is enough. -/
theorem wp_bind_of {P : α → σ → Prop} {Q : β → σ → Prop} (hp : wp W P p s)
    (hf : ∀ a s', P a s' → wp W Q (f a) s') : wp W Q (p >>= f) s :=
  wp_bind.mpr (wp_mono hf hp)

/-- `wp` speaks about exactly the runs. -/
theorem wp_iff_exec : wp W Q p s ↔ ∀ tr a s', Exec W p s tr a s' → Q a s' := by
  constructor
  · intro h tr a s' hr
    induction hr with
    | pure => exact h
    | call hw _ ih => exact ih (h _ _ hw)
  · intro h
    induction p generalizing s with
    | pure a => exact h [] a s .pure
    | call o k ih =>
      intro ans s1 hw
      refine ih ans ?_
      intro tr a s' hr
      exact h _ a s' (.call hw hr)

theorem Exec.post (hr : Exec W p s tr a s') (h : wp W Q p s) : Q a s' := wp_iff_exec.mp h tr a s' hr

/-- A run whose every event is one that `φ` picks is a run of the world cut down to those. -/
theorem Exec.restrict {φ : Event S → Prop} (h : Exec W p s tr a s') (hφ : ∀ ev ∈ tr, φ ev) :
    Exec (fun o s ans s' => W o s ans s' ∧ φ ⟨o, ans⟩) p s tr a s' := by
  induction h with
  | pure => exact .pure
  | call hw _ ih =>
    refine .call ⟨hw, hφ _ (.head _)⟩ (ih ?_)
    exact fun ev hev => hφ ev (.tail _ hev)

/-! Fallible programs: an error skips the rest. -/

variable {x : Fallible S ε α} {f : α → Fallible S ε β}

theorem wp_run_bind {Q : Except ε β → σ → Prop} : wp W Q (x >>= f).run s ↔
      wp W (fun r s' => match r with
        | .ok a => wp W Q (f a).run s'
        | .error e => Q (.error e) s') x.run s := by
  rw [ExceptT.run_bind, wp_bind]
  constructor
  · refine wp_mono ?_
    intro r s' h
    cases r <;> exact h
  · refine wp_mono ?_
    intro r s' h
    cases r <;> exact h

theorem Exec.run_bind_inv {r : Except ε β} (h : Exec W (x >>= f).run s tr r s') :
    (∃ e, r = .error e ∧ Exec W x.run s tr (.error e) s') ∨
      ∃ tr1 tr2 a s1, tr = tr1 ++ tr2 ∧ Exec W x.run s tr1 (.ok a) s1 ∧
        Exec W (f a).run s1 tr2 r s' := by
  rw [ExceptT.run_bind] at h
  obtain ⟨tr1, tr2, q, s1, rfl, hx, hf⟩ := h.bind_inv
  cases q with
  | ok a => exact .inr ⟨tr1, tr2, a, s1, rfl, hx, hf⟩
  | error e =>
    cases hf
    exact .inl ⟨e, rfl, by rwa [List.append_nil]⟩

theorem Exec.run_bind_ok (h : Exec W (x >>= f).run s tr (.ok b) s') :
    ∃ tr1 tr2 a s1, tr = tr1 ++ tr2 ∧ Exec W x.run s tr1 (.ok a) s1 ∧
      Exec W (f a).run s1 tr2 (.ok b) s' := by
  rcases h.run_bind_inv with ⟨e, he, _⟩ | hok
  · cases he
  · exact hok

end

/-! ## 5. The rules for `Sat`

The rely is a preorder throughout: others may do nothing, and two of their moves are one. -/

section

variable {S : Sig} {σ α β ε : Type} {W : World S σ} {R G : σ → σ → Prop}

variable {Q : α → σ → Prop} {p : Prog S α} {s : σ}

/-- What others may do cannot break a specification that allows for it. -/
theorem Sat.stable (htrans : ∀ a b c, R a b → R b c → R a c) {s1 : σ} (h : Sat W R G Q p s)
    (hR : R s s1) : Sat W R G Q p s1 := by
  cases p with
  | pure a =>
    intro s2 h2
    exact h s2 (htrans _ _ _ hR h2)
  | call o k =>
    intro s2 h2
    exact h s2 (htrans _ _ _ hR h2)

variable {Q' : α → σ → Prop}

theorem Sat.mono (hQ : ∀ a s', Q a s' → Q' a s') (h : Sat W R G Q p s) :
    Sat W R G Q' p s := by
  induction p generalizing s with
  | pure a =>
    intro s1 hR
    exact hQ a s1 (h s1 hR)
  | call o k ih =>
    intro s1 hR ans s2 hw
    obtain ⟨hG, hk⟩ := h s1 hR ans s2 hw
    exact ⟨hG, ih ans hk⟩

variable {f : α → Prog S β}

/-- Sequencing: what the rest needs is the first part's postcondition. -/
theorem Sat.bind (hrefl : ∀ a, R a a) {Q : β → σ → Prop}
    (h : Sat W R G (fun a => Sat W R G Q (f a)) p s) : Sat W R G Q (p >>= f) s := by
  induction p generalizing s with
  | pure a => exact h s (hrefl s)
  | call o k ih =>
    intro s1 hR ans s2 hw
    obtain ⟨hG, hk⟩ := h s1 hR ans s2 hw
    exact ⟨hG, ih ans hk⟩

/-- What others' moves cannot falsify. -/
def Stable {σ : Type} (R : σ → σ → Prop) (A : σ → Prop) : Prop := ∀ s s', R s s' → A s → A s'

variable {A : σ → Prop}

theorem Stable.and {B : σ → Prop} (hA : Stable R A) (hB : Stable R B) :
    Stable R fun s => A s ∧ B s :=
  fun s s' hR h => ⟨hA s s' hR h.1, hB s s' hR h.2⟩

/-- One call, between assertions that others' moves cannot falsify. -/
theorem Sat.of_op {o : S.Op} {B : S.Ans o → σ → Prop} (hA : Stable R A)
    (hB : ∀ ans, Stable R (B ans)) (hs : A s)
    (h : ∀ s1 ans s2, A s1 → W o s1 ans s2 → G s1 s2 ∧ B ans s2) :
    Sat W R G B (Prog.op o) s := by
  intro s1 hR ans s2 hw
  obtain ⟨hG, hs2⟩ := h s1 ans s2 (hA s s1 hR hs) hw
  exact ⟨hG, fun s3 hR3 => hB ans s2 s3 hR3 hs2⟩

variable {a : α}

theorem Sat.of_pure {A : α → σ → Prop} (hA : Stable R (A a)) (hs : A a s) :
    Sat W R G A (Pure.pure a : Prog S α) s :=
  fun s1 hR => hA s s1 hR hs

variable {P : α → σ → Prop}

theorem Sat.seq (hrefl : ∀ a, R a a) {Q : β → σ → Prop} (hp : Sat W R G P p s)
    (hf : ∀ a s', P a s' → Sat W R G Q (f a) s') :
    Sat W R G Q (p >>= f) s :=
  .bind hrefl (.mono hf hp)

variable {x : Fallible S ε α} {f : α → Fallible S ε β}

/-- Sequencing of fallible programs: an error skips the rest. -/
theorem Sat.run_bind (hrefl : ∀ a, R a a) {P : Except ε α → σ → Prop} {Q : Except ε β → σ → Prop}
    (hx : Sat W R G P x.run s) (hQ : ∀ e, Stable R (Q (.error e)))
    (hok : ∀ a s', P (.ok a) s' → Sat W R G Q (f a).run s')
    (herr : ∀ e s', P (.error e) s' → Q (.error e) s') : Sat W R G Q (x >>= f).run s := by
  rw [ExceptT.run_bind]
  refine .seq hrefl hx ?_
  intro r s' hr
  cases r with
  | ok a => exact hok a s' hr
  | error e => exact .of_pure (hQ e) (herr e s' hr)

/-- `let r ← ..` on a program whose error is looked at or ignored. -/
theorem Sat.lift_bind (hrefl : ∀ a, R a a) {Q : Except ε β → σ → Prop} (hp : Sat W R G P p s)
    (hf : ∀ a s', P a s' → Sat W R G Q (f a).run s') :
    Sat W R G Q ((ExceptT.lift p : Fallible S ε α) >>= f).run s := by
  rw [ExceptT.run_bind_lift]
  exact .seq hrefl hp hf

/-- Ending with a function of the answer. -/
theorem Sat.map (hrefl : ∀ a, R a a) {f : α → β} {Q : β → σ → Prop} (hp : Sat W R G P p s)
    (hQ : ∀ b, Stable R (Q b)) (h : ∀ a s', P a s' → Q (f a) s') : Sat W R G Q (f <$> p) s := by
  rw [map_eq_pure_bind]
  refine .seq hrefl hp ?_
  intro a s' ha
  exact .of_pure (hQ _) (h a s' ha)

/-- A program of which nothing is asked meets its contract. -/
theorem Sat.of_nothing (hG : ∀ a b, G a b) : Sat W R G (fun _ _ => True) p s := by
  induction p generalizing s with
  | pure a => exact fun _ _ => trivial
  | call o k ih => exact fun _ _ ans _ _ => ⟨hG _ _, ih ans⟩

variable {G' : σ → σ → Prop}

/-- Relying on more and promising less. -/
theorem Sat.weaken {R' : σ → σ → Prop} (hR : ∀ a b, R' a b → R a b) (hG : ∀ a b, G a b → G' a b)
    (h : Sat W R G Q p s) : Sat W R' G' Q p s := by
  induction p generalizing s with
  | pure a => exact fun s1 hs1 => h s1 (hR s s1 hs1)
  | call o k ih =>
    intro s1 hs1 ans s2 hw
    obtain ⟨hstep, hk⟩ := h s1 (hR s s1 hs1) ans s2 hw
    exact ⟨hG s1 s2 hstep, ih ans hk⟩

/-- A smaller world has fewer runs. -/
theorem Sat.mono_world {W' : World S σ} (hW : ∀ o s ans s', W' o s ans s' → W o s ans s')
    (h : Sat W R G Q p s) : Sat W' R G Q p s := by
  induction p generalizing s with
  | pure a => exact h
  | call o k ih =>
    intro s1 hR ans s2 hw
    obtain ⟨hG, hk⟩ := h s1 hR ans s2 (hW o s1 ans s2 hw)
    exact ⟨hG, ih ans hk⟩

/-- Two specifications of one program. -/
theorem Sat.and (h : Sat W R G Q p s) (h' : Sat W R G' Q' p s) :
    Sat W R (fun a b => G a b ∧ G' a b) (fun a s' => Q a s' ∧ Q' a s') p s := by
  induction p generalizing s with
  | pure a => exact fun s1 hR => ⟨h s1 hR, h' s1 hR⟩
  | call o k ih =>
    intro s1 hR ans s2 hw
    obtain ⟨hG, hk⟩ := h s1 hR ans s2 hw
    obtain ⟨hG', hk'⟩ := h' s1 hR ans s2 hw
    exact ⟨⟨hG, hG'⟩, ih ans hk hk'⟩

variable {I : σ → Prop}

/-- From one guarantee to another, with the help of what every step keeps. -/
theorem Sat.strengthen (hI : Stable R I) (hG : ∀ a b, I a → G a b → G' a b ∧ I b)
    (h : Sat W R G Q p s) (hs : I s) : Sat W R G' (fun a s' => Q a s' ∧ I s') p s := by
  induction p generalizing s with
  | pure a =>
    intro s1 hR
    exact ⟨h s1 hR, hI s s1 hR hs⟩
  | call o k ih =>
    intro s1 hR ans s2 hw
    obtain ⟨hstep, hk⟩ := h s1 hR ans s2 hw
    obtain ⟨hstep', hs2⟩ := hG _ _ (hI s s1 hR hs) hstep
    exact ⟨hstep', ih ans hk hs2⟩

/-- A result that is as `Q` says when it is a success, and that is one when it is sure to be. -/
def Ends (sure : Prop) (r : Except ε α) (Q : α → Prop) : Prop :=
  (∀ a, r = .ok a → Q a) ∧ (sure → ∃ a, r = .ok a)

variable {sure : Prop}

theorem Ends.ok {Q : α → Prop} (h : Q a) : Ends sure (.ok a : Except ε α) Q :=
  ⟨fun _ he => Except.ok.inj he ▸ h, fun _ => ⟨a, rfl⟩⟩

theorem Ends.error {Q : α → Prop} {e : ε} (h : ¬ sure) : Ends sure (.error e : Except ε α) Q :=
  ⟨fun _ he => (nomatch he), fun hs => absurd hs h⟩

theorem Ends.mono {Q Q' : α → Prop} {r : Except ε α} (h : Ends sure r Q) (hQ : ∀ a, Q a → Q' a) :
    Ends sure r Q' :=
  ⟨fun a he => hQ a (h.1 a he), h.2⟩

theorem ends_stable (hQ : ∀ a, Stable R (Q a)) (r : Except ε α) :
    Stable R fun s => Ends sure r (Q · s) :=
  fun s s' hR h => ⟨fun a he => hQ a s s' hR (h.1 a he), h.2⟩

/-- Sequencing of programs of which we say what their successes are and when they are sure. -/
theorem Sat.ends_bind (hrefl : ∀ a, R a a) {Q : β → σ → Prop}
    (hx : Sat W R G (fun r s' => Ends sure r (P · s')) x.run s)
    (hf : ∀ a s', P a s' → Sat W R G (fun r s' => Ends sure r (Q · s')) (f a).run s') :
    Sat W R G (fun r s' => Ends sure r (Q · s')) (x >>= f).run s := by
  rw [ExceptT.run_bind]
  refine .seq hrefl hx ?_
  intro r s' hr
  cases r with
  | ok a => exact hf a s' (hr.1 a rfl)
  | error e =>
    intro s1 _
    refine .error fun hs => ?_
    obtain ⟨a, ha⟩ := hr.2 hs
    cases ha

/-- A program may be stopped before any of its calls. -/
inductive Stops (W : World S σ) : Prog S α → σ → σ → Prop where
  | here {p : Prog S α} {s : σ} : Stops W p s s
  | call {op : S.Op} {k : S.Ans op → Prog S α} {s s₁ s' : σ} {ans : S.Ans op} :
      W op s ans s₁ → Stops W (k ans) s₁ s' → Stops W (.call op k) s s'

variable {s' : σ}

/-- What every step of a program keeps holds wherever it stops. -/
theorem Stops.keeps (h : Stops W p s s') (hsat : Sat W R G Q p s) (hrefl : ∀ a, R a a)
    (hG : ∀ a b, I a → G a b → I b) (hs : I s) : I s' := by
  induction h with
  | here => exact hs
  | call hw _ ih =>
    obtain ⟨hstep, hk⟩ := hsat _ (hrefl _) _ _ hw
    exact ih hk (hG _ _ hs hstep)

/-- A program in two parts stops in the first, or in the second after a run of the first. -/
theorem Stops.bind_inv (h : Stops W (p >>= f) s s') :
    Stops W p s s' ∨ ∃ tr a s1, Exec W p s tr a s1 ∧ Stops W (f a) s1 s' := by
  induction p generalizing s with
  | pure a => exact .inr ⟨[], a, s, .pure, h⟩
  | call o k ih =>
    cases h with
    | here => exact .inl .here
    | call hw hk =>
      rcases ih _ hk with hin | ⟨tr, a, s1, hrun, hrest⟩
      · exact .inl (.call hw hin)
      · exact .inr ⟨_, a, s1, .call hw hrun, hrest⟩

variable {tr : List (Event S)}

/-- A run from start to end is a stop. -/
theorem Exec.stops (h : Exec W p s tr a s') : Stops W p s s' := by
  induction h with
  | pure => exact .here
  | call hw _ ih => exact .call hw ih

/-- A stop in the second part, after a run of the first, is a stop of the whole. -/
theorem Exec.run_bind_stops {s1 : σ} (h : Exec W x.run s tr (.ok a) s1)
    (hf : Stops W (f a).run s1 s') :
    Stops W (x >>= f).run s s' := by
  rw [ExceptT.run_bind]
  generalize x.run = p at h
  generalize hr : (Except.ok a : Except ε α) = r at h
  induction h with
  | pure =>
    subst hr
    exact hf
  | call hw _ ih => exact .call hw (ih hf hr)

/-- A run alone ends as the specification says. -/
theorem Sat.post (h : Sat W R G Q p s) (hrefl : ∀ a, R a a) (hr : Exec W p s tr a s') : Q a s' := by
  induction hr with
  | pure => exact h _ (hrefl _)
  | call hw _ ih => exact ih (h _ (hrefl _) _ _ hw).2

end

/-! ## 6. Alone, but watched at every step -/

/-- Every call makes a step within `G`, and the program ends in `Q`. -/
def Watch {S : Sig} {σ α : Type} (W : World S σ) (G : σ → σ → Prop) (Q : α → σ → Prop)
    (p : Prog S α) (s : σ) : Prop :=
  Sat W (· = ·) G Q p s

section

variable {S : Sig} {σ α β ε : Type} {W : World S σ} {G : σ → σ → Prop} {Q : α → σ → Prop} {s : σ}

theorem Watch.of_pure {a : α} (h : Q a s) : Watch W G Q (Pure.pure a : Prog S α) s := by
  intro s1 he
  exact he ▸ h

theorem Watch.of_op {o : S.Op} {Q : S.Ans o → σ → Prop}
    (h : ∀ ans s', W o s ans s' → G s s' ∧ Q ans s') : Watch W G Q (Prog.op o) s := by
  intro s1 he ans s' hw
  subst he
  obtain ⟨hG, hQ⟩ := h ans s' hw
  exact ⟨hG, Watch.of_pure hQ⟩

variable {p : Prog S α} {Q' : α → σ → Prop}

theorem Watch.mono (hQ : ∀ a s', Q a s' → Q' a s') (h : Watch W G Q p s) :
    Watch W G Q' p s := Sat.mono hQ h

variable {P : α → σ → Prop}

theorem Watch.bind {f : α → Prog S β} {Q : β → σ → Prop} (hp : Watch W G P p s)
    (hf : ∀ a s', P a s' → Watch W G Q (f a) s') :
    Watch W G Q (p >>= f) s :=
  .seq (fun _ => rfl) hp hf

variable {f : α → Fallible S ε β}

theorem Watch.run_bind {x : Fallible S ε α} {P : Except ε α → σ → Prop}
    {Q : Except ε β → σ → Prop} (hx : Watch W G P x.run s)
    (hok : ∀ a s', P (.ok a) s' → Watch W G Q (f a).run s')
    (herr : ∀ e s', P (.error e) s' → Q (.error e) s') : Watch W G Q (x >>= f).run s :=
  Sat.run_bind (fun _ => rfl) hx (fun _ _ _ he h => he ▸ h) hok herr

theorem Watch.lift_bind {Q : Except ε β → σ → Prop} (hp : Watch W G P p s)
    (hf : ∀ a s', P a s' → Watch W G Q (f a).run s') :
    Watch W G Q ((ExceptT.lift p : Fallible S ε α) >>= f).run s :=
  Sat.lift_bind (fun _ => rfl) hp hf

/-- A run alone ends as a watched program does. -/
theorem Watch.post {s' : σ} {tr : List (Event S)} {a : α} (h : Watch W G Q p s)
    (hr : Exec W p s tr a s') : Q a s' := by
  induction hr with
  | pure => exact h _ rfl
  | call hw _ ih => exact ih (h _ rfl _ _ hw).2

variable {G' : σ → σ → Prop}

/-- Two things known of one program, under the guarantee of one of them. -/
theorem Watch.and (h : Watch W G' Q p s) (h' : Watch W G Q' p s) :
    Watch W G (fun a s' => Q a s' ∧ Q' a s') p s :=
  Sat.weaken (fun _ _ hR => hR) (fun _ _ hG => hG.2) (Sat.and h h')

/-- From one guarantee to another, with the help of what every step keeps. -/
theorem Watch.strengthen {I : σ → Prop} (hG : ∀ a b, I a → G a b → G' a b ∧ I b)
    (h : Watch W G Q p s) (hs : I s) :
    Watch W G' (fun a s' => Q a s' ∧ I s') p s :=
  Sat.strengthen (fun _ _ he hI => he ▸ hI) hG h hs

end

/-! ## 7. Which calls a program makes -/

/-- Every call the program can make, whatever it is answered, is one that `φ` picks. -/
def Prog.Makes {S : Sig} {α : Type} (φ : S.Op → Prop) : Prog S α → Prop
  | .pure _ => True
  | .call op k => φ op ∧ ∀ ans, Prog.Makes φ (k ans)

section

variable {S : Sig} {α β ε : Type} {φ : S.Op → Prop} {p : Prog S α} {ψ : S.Op → Prop}

theorem Prog.Makes.of_all (h : ∀ o, φ o) (p : Prog S α) : p.Makes φ := by
  induction p with
  | pure a => trivial
  | call o k ih => exact ⟨h o, ih⟩

variable {o : S.Op}

theorem Prog.Makes.of_op (h : φ o) : (Prog.op o).Makes φ := ⟨h, fun _ => trivial⟩

variable {f : α → Prog S β}

theorem Prog.Makes.bind (hp : p.Makes φ) (hf : ∀ a, (f a).Makes φ) :
    (p >>= f).Makes φ := by
  induction p with
  | pure a => exact hf a
  | call o k ih => exact ⟨hp.1, fun ans => ih ans (hp.2 ans)⟩

theorem Prog.Makes.map {f : α → β} (hp : p.Makes φ) : (f <$> p).Makes φ := by
  rw [map_eq_pure_bind]
  exact hp.bind fun _ => trivial

variable {f : α → Fallible S ε β} {x : Fallible S ε α}

theorem Prog.Makes.run_bind (hx : x.run.Makes φ) (hf : ∀ a, (f a).run.Makes φ) :
    (x >>= f).run.Makes φ := by
  rw [ExceptT.run_bind]
  refine hx.bind ?_
  intro r
  cases r with
  | ok a => exact hf a
  | error e => trivial

theorem Prog.Makes.lift_bind (hp : p.Makes φ) (hf : ∀ a, (f a).run.Makes φ) :
    ((ExceptT.lift p : Fallible S ε α) >>= f).run.Makes φ := by
  rw [ExceptT.run_bind_lift]
  exact hp.bind hf

theorem Prog.Makes.result_bind {x : Except ε α} (hf : ∀ a, (f a).run.Makes φ) :
    ((ExceptT.mk (Pure.pure x) : Fallible S ε α) >>= f).run.Makes φ :=
  .run_bind trivial hf

variable {σ : Type} {tr : List (Event S)} {a : α} {W : World S σ} {s s' : σ}

/-- The calls of a run are among those of its program. -/
theorem Exec.makes_trace (hp : p.Makes φ) (h : Exec W p s tr a s') :
    ∀ ev ∈ tr, φ ev.op := by
  induction h with
  | pure => simp
  | call hw _ ih => exact List.forall_mem_cons.mpr ⟨hp.1, ih (hp.2 _)⟩

variable {I : σ → Prop}

/-- A run keeps what all its calls keep. -/
theorem Exec.of_trace (hstep : ∀ o s ans s', φ o → W o s ans s' → I s → I s')
    (h : Exec W p s tr a s') (htr : ∀ ev ∈ tr, φ ev.op) (hs : I s) :
    I s' := by
  induction h with
  | pure => exact hs
  | call hw _ ih =>
    obtain ⟨hfirst, hrest⟩ := List.forall_mem_cons.mp htr
    exact ih hrest (hstep _ _ _ _ hfirst hw hs)

theorem Exec.of_makes (hstep : ∀ o s ans s', φ o → W o s ans s' → I s → I s') (hp : p.Makes φ)
    (h : Exec W p s tr a s') (hs : I s) : I s' :=
  h.of_trace hstep (h.makes_trace hp) hs

/-- Every call the program can make is one that `φ` picks, as long as the answers are as `ψ` says. -/
def Prog.MakesIf {S : Sig} {α : Type} (ψ : (o : S.Op) → S.Ans o → Prop) (φ : S.Op → Prop) :
    Prog S α → Prop
  | .pure _ => True
  | .call op k => φ op ∧ ∀ ans, ψ op ans → Prog.MakesIf ψ φ (k ans)

variable {ψ : (o : S.Op) → S.Ans o → Prop}

theorem Prog.Makes.makesIf (hp : p.Makes φ) : p.MakesIf ψ φ := by
  induction p with
  | pure a => trivial
  | call o k ih => exact ⟨hp.1, fun ans _ => ih ans (hp.2 ans)⟩

theorem Prog.MakesIf.bind {f : α → Prog S β} (hp : p.MakesIf ψ φ) (hf : ∀ a, (f a).MakesIf ψ φ) :
    (p >>= f).MakesIf ψ φ := by
  induction p with
  | pure a => exact hf a
  | call o k ih => exact ⟨hp.1, fun ans h => ih ans (hp.2 ans h)⟩

theorem Prog.MakesIf.of_bind {f : α → Prog S β} (h : (p >>= f).MakesIf ψ φ) : p.MakesIf ψ φ := by
  induction p with
  | pure a => trivial
  | call o k ih => exact ⟨h.1, fun ans hans => ih ans (h.2 ans hans)⟩

theorem Prog.MakesIf.run_bind (hx : x.run.MakesIf ψ φ) (hf : ∀ a, (f a).run.MakesIf ψ φ) :
    (x >>= f).run.MakesIf ψ φ := by
  rw [ExceptT.run_bind]
  refine hx.bind fun r => ?_
  cases r with
  | ok a => exact hf a
  | error e => trivial

theorem Prog.makesIf_op_bind {g : S.Ans o → Prog S α} :
    (Prog.op o >>= g).MakesIf ψ φ ↔ φ o ∧ ∀ ans, ψ o ans → (g ans).MakesIf ψ φ := Iff.rfl

variable {G R : σ → σ → Prop}

/-- From one guarantee to another, with the help of what every step keeps and of which calls are
    made. -/
theorem Sat.strengthen_makes {G' : σ → σ → Prop} {Q : α → σ → Prop} (hI : Stable R I)
    (hp : p.Makes φ) (hstep : ∀ o a ans b, φ o → W o a ans b → I a → G a b → G' a b ∧ I b)
    (h : Sat W R G Q p s) (hs : I s) : Sat W R G' (fun a s' => Q a s' ∧ I s') p s := by
  induction p generalizing s with
  | pure a =>
    intro s1 hR
    exact ⟨h s1 hR, hI s s1 hR hs⟩
  | call o k ih =>
    intro s1 hR ans s2 hw
    obtain ⟨hG, hk⟩ := h s1 hR ans s2 hw
    obtain ⟨hG', hs2⟩ := hstep o s1 ans s2 hp.1 hw (hI s s1 hR hs) hG
    exact ⟨hG', ih ans (hp.2 ans) hk hs2⟩

/-- A program keeps what all its calls keep. -/
theorem Sat.of_makes (hstable : Stable R I)
    (hstep : ∀ o s ans s', φ o → W o s ans s' → I s → G s s' ∧ I s') (hp : p.Makes φ) (hs : I s) :
    Sat W R G (fun _ => I) p s :=
  .mono (fun _ _ h => h.2) (.strengthen_makes hstable hp
    (fun o a ans b ho hw ha _ => hstep o a ans b ho hw ha)
    (.of_nothing (G := fun _ _ => True) fun _ _ => trivial) hs)

end

/-! ## 8. Programs inside programs -/

/-- A program over one signature, run by a program over another that answers its calls. -/
def Prog.handle {S T : Sig} {α : Type} (f : (o : S.Op) → Prog T (S.Ans o)) : Prog S α → Prog T α
  | .pure a => .pure a
  | .call o k => f o >>= fun ans => Prog.handle f (k ans)

section

variable {S T : Sig} {α : Type} {f : (o : S.Op) → Prog T (S.Ans o)}

theorem Prog.handle_bind {β : Type} (p : Prog S α) (k : α → Prog S β) :
    (p >>= k).handle f = p.handle f >>= fun a => (k a).handle f := by
  induction p with
  | pure a => rfl
  | call o k' ih =>
    show (f o >>= fun ans => (k' ans >>= k).handle f)
      = (f o >>= fun ans => (k' ans).handle f) >>= fun a => (k a).handle f
    rw [bind_assoc]
    exact congrArg _ (funext ih)

variable {p : Prog S α}

theorem Prog.Makes.handle {φ : S.Op → Prop} {ψ : T.Op → Prop} (hf : ∀ o, φ o → (f o).Makes ψ)
    (hp : p.Makes φ) : (p.handle f).Makes ψ := by
  induction p with
  | pure a => trivial
  | call o k ih => exact (hf o hp.1).bind fun ans => ih ans (hp.2 ans)

/-- A program that is run on a part of the state. `get` and `put` are that part, and each call
    works on it alone; so does the whole program. -/
theorem Exec.handle_inv {σ τ : Type} {W : World S σ} {V : World T τ} (get : τ → σ)
    (put : τ → σ → τ) (hget : ∀ s t, get (put s t) = t)
    (hput : ∀ s t t', put (put s t) t' = put s t') (hself : ∀ s, put s (get s) = s)
    (hop : ∀ o s tr ans s', Exec V (f o) s tr ans s' → ∃ t, W o (get s) ans t ∧ s' = put s t)
    {s s' : τ} {tr : List (Event T)} {a : α} (h : Exec V (p.handle f) s tr a s') :
    ∃ t tr', Exec W p (get s) tr' a t ∧ s' = put s t := by
  induction p generalizing s tr with
  | pure b =>
    cases h
    exact ⟨get s', [], .pure, (hself s').symm⟩
  | call o k ih =>
    obtain ⟨tr1, tr2, ans, s1, -, hfirst, hrest⟩ := Exec.bind_inv h
    obtain ⟨t, hw, rfl⟩ := hop o s tr1 ans s1 hfirst
    obtain ⟨t', tr', hrun, rfl⟩ := ih ans hrest
    rw [hget] at hrun
    exact ⟨t', _, .call hw hrun, hput s t t'⟩

end

end Svidlet.Lib
