import Mathlib

/-!
# Arithmetic and slices that can go wrong

Sizes of 64 bits and slices by their bounds, as an implementation computes them: an addition or a
product that does not fit, and a slice that is not inside, have no value. A function written with these is
`Checked`: it answers, or returns an error, or **has gone wrong**.

> To prove that a function is safe is to prove that its checked version has a value; and the value is then
> the one that the function has over unbounded numbers.
-/

namespace Svidlet.Lib

variable {ε α β : Type}

def addUsize (a b : Nat) : Option Nat := if a + b < 2 ^ 64 then some (a + b) else none

def mulUsize (a b : Nat) : Option Nat := if a * b < 2 ^ 64 then some (a * b) else none

/-- `xs[start..stop]` -/
def slice (xs : List α) (start stop : Nat) : Option (List α) :=
  if start ≤ stop ∧ stop ≤ xs.length then some ((xs.drop start).take (stop - start)) else none

theorem addUsize_eq {a b : Nat} (h : a + b < 2 ^ 64) : addUsize a b = some (a + b) := if_pos h

theorem mulUsize_eq {a b : Nat} (h : a * b < 2 ^ 64) : mulUsize a b = some (a * b) := if_pos h

theorem slice_eq {xs : List α} {start len : Nat} (h : start + len ≤ xs.length) :
    slice xs start (start + len) = some ((xs.drop start).take len) := by
  rw [slice, if_pos ⟨Nat.le_add_right _ _, h⟩, Nat.add_sub_cancel_left]

theorem slice_front {xs front : List α} (h : front <+: xs) :
    slice xs 0 front.length = some front := by
  rw [slice, if_pos ⟨Nat.zero_le _, h.length_le⟩, List.drop_zero, Nat.sub_zero,
    ← List.prefix_iff_eq_take.mp h]

/-- A computation that has gone wrong, or ended with an error or a value. -/
abbrev Checked (ε α : Type) := ExceptT ε Option α

namespace Checked

/-- What must not go wrong. -/
def ofOption (x : Option α) : Checked ε α := ExceptT.lift x

/-- What has not gone wrong. -/
def ofResult (x : Except ε α) : Checked ε α := ExceptT.mk (some x)

/-- Going on after a step that is fine. -/
theorem ofOption_bind {x : Option α} {a : α} (h : x = some a) (f : α → Checked ε β) :
    (ofOption x >>= f) = f a := by
  subst h
  rfl

/-- Going on after a part that has been shown to be fine. -/
theorem ofResult_bind (x : Except ε α) (f : α → Checked ε β) (g : α → Except ε β)
    (h : ∀ a, x = .ok a → f a = ofResult (g a)) :
    ((ofResult x : Checked ε α) >>= f) = ofResult (x >>= g) := by
  cases x with
  | error e => rfl
  | ok a => exact h a rfl

end Checked

end Svidlet.Lib
