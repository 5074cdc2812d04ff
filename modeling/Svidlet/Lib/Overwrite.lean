import Mathlib

/-!
# Writing into a block

`copy_from_slice` into a part of a buffer, and reading parts of it back. A part that was written reads as it
was written, and every part that is in front of it or behind it reads as before.
-/

namespace Svidlet.Lib

variable {α : Type} {xs ys : List α} {start at' len : Nat}

/-- The buffer with `ys` written at `start`. -/
def overwrite (xs : List α) (start : Nat) (ys : List α) : List α :=
  xs.take start ++ ys ++ xs.drop (start + ys.length)

/-- `len` entries from `start` on. -/
def part (xs : List α) (start len : Nat) : List α := (xs.drop start).take len

theorem length_overwrite (h : start + ys.length ≤ xs.length) :
    (overwrite xs start ys).length = xs.length := by
  simp only [overwrite, List.length_append, List.length_take, List.length_drop]
  omega

theorem part_overwrite (h : start + ys.length ≤ xs.length) :
    part (overwrite xs start ys) start ys.length = ys := by
  have htake : (xs.take start).length = start := by
    rw [List.length_take]
    omega
  rw [part, overwrite, List.append_assoc, List.drop_left' htake, List.take_left' rfl]

/-- A part in front of what was written. -/
theorem part_overwrite_before (h : start + ys.length ≤ xs.length) (hbefore : at' + len ≤ start) :
    part (overwrite xs start ys) at' len = part xs at' len := by
  have htake : (xs.take start).length = start := by
    rw [List.length_take]
    omega
  rw [part, part, overwrite, List.append_assoc, List.drop_append_of_le_length (by omega),
    List.take_append_of_le_length (by rw [List.length_drop]; omega), List.drop_take, List.take_take,
    Nat.min_eq_left (by omega)]

/-- A part behind it. -/
theorem part_overwrite_after (h : start + ys.length ≤ xs.length) (hafter : start + ys.length ≤ at') :
    part (overwrite xs start ys) at' len = part xs at' len := by
  have htake : (xs.take start ++ ys).length = start + ys.length := by
    rw [List.length_append, List.length_take]
    omega
  rw [part, part, overwrite, List.drop_append, htake, List.drop_eq_nil_of_le (by omega), List.nil_append,
    List.drop_drop]
  congr 2
  omega

end Svidlet.Lib
