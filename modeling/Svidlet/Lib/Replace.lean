import Svidlet.Lib.Text

/-!
# Replacing a part of a text

`str::replace` goes through a text from the left. Where the part stands, the new text is written;
anywhere else one character is passed over. A part can only stand where its first character stands,
so a stretch of text without that character is copied as it is.
-/

namespace Svidlet.Lib

variable {part new : List Char}

/-- What is left of a part that was replaced is skipped. -/
theorem replaceChars_skip (skipped rest : List Char) :
    replaceChars part new skipped.length (skipped ++ rest) = replaceChars part new 0 rest := by
  induction skipped with
  | nil => rfl
  | cons c skipped ih =>
    rw [List.length_cons, List.cons_append, replaceChars]
    exact ih

variable {c : Char}

/-- Where the part stands, it is replaced. -/
theorem replaceChars_part (tail rest : List Char) :
    replaceChars (c :: tail) new 0 (c :: tail ++ rest) = new ++ replaceChars (c :: tail) new 0 rest := by
  have hprefix : (c :: tail).isPrefixOf (c :: (tail ++ rest)) = true :=
    List.isPrefixOf_iff_prefix.mpr ⟨rest, rfl⟩
  rw [List.cons_append, replaceChars, if_pos hprefix]
  exact congrArg (new ++ ·) (replaceChars_skip tail rest)

/-- Where it does not stand, a character is copied. -/
theorem replaceChars_other {rest : List Char} (h : ¬ part <+: c :: rest) :
    replaceChars part new 0 (c :: rest) = c :: replaceChars part new 0 rest := by
  have hno : part.isPrefixOf (c :: rest) = false := by
    rw [Bool.eq_false_iff]
    exact fun hprefix => h (List.isPrefixOf_iff_prefix.mp hprefix)
  rw [replaceChars, hno, if_neg Bool.false_ne_true]

/-- Text without the first character of the part is copied. -/
theorem replaceChars_append {tail text : List Char} (h : c ∉ text) (rest : List Char) :
    replaceChars (c :: tail) new 0 (text ++ rest) = text ++ replaceChars (c :: tail) new 0 rest := by
  induction text with
  | nil => rfl
  | cons d text ih =>
    simp only [List.mem_cons, not_or] at h
    rw [List.cons_append, List.cons_append, replaceChars_other, ih h.2]
    intro hprefix
    exact h.1 (List.cons_prefix_cons.mp hprefix).1

end Svidlet.Lib
