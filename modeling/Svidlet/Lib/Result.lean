import Svidlet.Lib.Prog

/-!
# Early returns

`?` and `return Err(..)` over `Except`, and what follows when a function written with them has
answered `Ok`: every check on the way passed. The same for programs, where the checks stand between
calls.
-/

namespace Svidlet.Lib

variable {ε α β : Type}

/-- `if bad { return Err(e) }` -/
def refuseIf (bad : Prop) [Decidable bad] (e : ε) : Except ε Unit :=
  if bad then .error e else .ok ()

@[simp] theorem refuseIf_ok {bad : Prop} [Decidable bad] {e : ε} {u : Unit} :
    refuseIf bad e = .ok u ↔ ¬ bad := by
  unfold refuseIf
  split
  · rename_i hb
    simp [hb]
  · rename_i hb
    simp [hb]

theorem refuseIf_error {bad : Prop} [Decidable bad] {e e' : ε} :
    refuseIf bad e = .error e' ↔ bad ∧ e = e' := by
  unfold refuseIf
  by_cases hbad : bad
  · simp [hbad]
  · simp [hbad]

variable {x : Except ε α}

/-- If `x?` went on and the rest answered `Ok`, both did. -/
theorem bind_ok {f : α → Except ε β} {b : β} :
    (x >>= f) = .ok b ↔ ∃ a, x = .ok a ∧ f a = .ok b := by
  cases x with
  | error e =>
    constructor
    · intro h
      cases h
    · rintro ⟨a, ha, _⟩
      cases ha
  | ok a =>
    constructor
    · intro h
      exact ⟨a, rfl, h⟩
    · rintro ⟨a', ha, hf⟩
      cases ha
      exact hf

theorem pure_ok {a b : α} : (pure a : Except ε α) = .ok b ↔ a = b := by
  constructor
  · intro h
    cases h
    rfl
  · rintro rfl
    rfl

/-- A result that is there. -/
theorem ok_of_isSome (h : x.toOption.isSome = true) : x = .ok (x.toOption.get h) := by
  cases x with
  | error e => cases h
  | ok a => rfl

/-- A pure result inside a program. -/
def liftResult {S : Sig} (x : Except ε α) : Fallible S ε α := ExceptT.mk (pure x)

/-- Going on after a pure result: if it is an error, that is the answer. -/
theorem Sat.result_bind {S : Sig} {σ : Type} {W : World S σ} {R G : σ → σ → Prop}
    {f : α → Fallible S ε β} {Q : Except ε β → σ → Prop} {s : σ} (hQ : ∀ e, Stable R (Q (.error e)))
    (hok : ∀ a, x = .ok a → Sat W R G Q (f a).run s) (herr : ∀ e, x = .error e → Q (.error e) s) :
    Sat W R G Q (liftResult x >>= f).run s := by
  cases x with
  | ok a => exact hok a rfl
  | error e => exact .of_pure (hQ e) (herr e rfl)

/-! Runs that ended well, taken apart from the front. -/

section

variable {S : Sig} {σ : Type} {W : World S σ} {s s' : σ} {tr : List (Event S)}

variable {x : Except ε α} {f : α → Fallible S ε β}

theorem Exec.result_bind_ok {b : β} (h : Exec W (liftResult x >>= f).run s tr (.ok b) s') :
    ∃ a, x = .ok a ∧ Exec W (f a).run s tr (.ok b) s' := by
  cases x with
  | ok a => exact ⟨a, rfl, h⟩
  | error e => cases h

/-- Where an error came from: the result, or what followed it. -/
theorem Exec.result_bind_error {e : ε} (h : Exec W (liftResult x >>= f).run s tr (.error e) s') :
    x = .error e ∨ ∃ a, x = .ok a ∧ Exec W (f a).run s tr (.error e) s' := by
  cases x with
  | ok a => exact .inr ⟨a, rfl, h⟩
  | error e' =>
    cases h
    exact .inl rfl

variable {r : Except ε β}

theorem Exec.result_bind_inv (h : Exec W (liftResult x >>= f).run s tr r s') :
    (∃ e, r = .error e ∧ s' = s ∧ tr = []) ∨ ∃ a, x = .ok a ∧ Exec W (f a).run s tr r s' := by
  cases x with
  | ok a => exact .inr ⟨a, rfl, h⟩
  | error e =>
    cases h
    exact .inl ⟨e, rfl, rfl, rfl⟩

theorem Exec.lift_bind_inv {p : Prog S α}
    (h : Exec W ((ExceptT.lift p : Fallible S ε α) >>= f).run s tr r s') :
    ∃ tr1 tr2 a s1, tr = tr1 ++ tr2 ∧ Exec W p s tr1 a s1 ∧ Exec W (f a).run s1 tr2 r s' := by
  rw [ExceptT.run_bind_lift] at h
  exact h.bind_inv

theorem Exec.op_bind_inv {o : S.Op} {f : S.Ans o → Fallible S ε β}
    (h : Exec W ((ExceptT.lift (Prog.op o) : Fallible S ε _) >>= f).run s tr r s') :
    ∃ ans s1 tr', tr = ⟨o, ans⟩ :: tr' ∧ W o s ans s1 ∧ Exec W (f ans).run s1 tr' r s' := by
  rw [ExceptT.run_bind_lift] at h
  cases h with
  | call hw hk => exact ⟨_, _, _, rfl, hw, hk⟩

end

end Svidlet.Lib
