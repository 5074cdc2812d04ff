import Svidlet.Lib.Text

/-!
# Cutting and joining

`splitChar` cuts a text at a character. Its pieces, joined again, are the text, and pieces without
the character come back out of what they were joined to:

> `splitChar c (joined c piece pieces) = piece :: pieces`   if   `c` is in no piece.

A text that is made symbol by symbol is cut where the symbols are, as long as no symbol but the
separator is written with the character (`splitChar_flatMap`).
-/

namespace Svidlet.Lib

/-! ## 1. Pieces -/

/-- A first piece, and each of the others behind the character. -/
def joined (c : Char) (piece : List Char) (pieces : List (List Char)) : List Char :=
  piece ++ pieces.flatMap (c :: ·)

variable {c : Char}

theorem splitChar_of_not_mem {text : List Char} (h : c ∉ text) : splitChar c text = [text] := by
  induction text with
  | nil => rfl
  | cons d text ih =>
    simp only [List.mem_cons, not_or] at h
    rw [splitChar, ih h.2]
    simp [Ne.symm h.1]

theorem splitChar_joined {piece : List Char} {pieces : List (List Char)} (h : c ∉ piece)
    (hs : ∀ p ∈ pieces, c ∉ p) :
    splitChar c (joined c piece pieces) = piece :: pieces := by
  unfold joined
  induction pieces generalizing piece with
  | nil =>
    rw [List.flatMap_nil, List.append_nil]
    exact splitChar_of_not_mem h
  | cons next pieces ih =>
    obtain ⟨hnext, hrest⟩ := List.forall_mem_cons.mp hs
    show splitChar c (piece ++ c :: (next ++ pieces.flatMap (c :: ·))) = _
    rw [splitChar_append h, ih hnext hrest]

theorem splitChar_pieces (c : Char) (text : List Char) : ∃ piece pieces,
    text = joined c piece pieces ∧ c ∉ piece ∧ ∀ p ∈ pieces, c ∉ p := by
  induction text with
  | nil => exact ⟨[], [], rfl, by simp, by simp⟩
  | cons d text ih =>
    obtain ⟨piece, pieces, rfl, hpiece, hpieces⟩ := ih
    by_cases hd : d = c
    · subst hd
      exact ⟨[], piece :: pieces, rfl, by simp, List.forall_mem_cons.mpr ⟨hpiece, hpieces⟩⟩
    · exact ⟨d :: piece, pieces, rfl, by simp [Ne.symm hd, hpiece], hpieces⟩

theorem intercalate_cons (c : Char) (piece : List Char) (pieces : List (List Char)) :
    [c].intercalate (piece :: pieces) = joined c piece pieces := by
  induction pieces generalizing piece with
  | nil => simp [joined]
  | cons next pieces ih => simp [joined, List.intercalate_cons_cons, ih]

theorem intercalate_splitChar (c : Char) (text : List Char) :
    [c].intercalate (splitChar c text) = text := by
  obtain ⟨piece, pieces, rfl, hpiece, hpieces⟩ := splitChar_pieces c text
  rw [splitChar_joined hpiece hpieces, intercalate_cons]

theorem splitChar_intercalate {pieces : List (List Char)} (hne : pieces ≠ [])
    (h : ∀ piece ∈ pieces, c ∉ piece) : splitChar c ([c].intercalate pieces) = pieces := by
  obtain ⟨piece, pieces, rfl⟩ := List.exists_cons_of_ne_nil hne
  obtain ⟨hpiece, hpieces⟩ := List.forall_mem_cons.mp h
  rw [intercalate_cons, splitChar_joined hpiece hpieces]

/-! ## 2. Symbols -/

section

variable {α : Type} {f : α → List Char} {p : α → Bool}

theorem splitChar_append_of_not_mem {piece : List Char} (h : c ∉ piece) (text : List Char) :
    splitChar c (piece ++ text) = (splitChar c text).modifyHead (piece ++ ·) := by
  obtain ⟨first, others, rfl, hfirst, hothers⟩ := splitChar_pieces c text
  have hboth : c ∉ piece ++ first := by simp [h, hfirst]
  rw [splitChar_joined hfirst hothers, joined, ← List.append_assoc]
  exact splitChar_joined hboth hothers

/-- Cut the symbols and write each piece, or write the symbols and cut what was written. -/
theorem splitChar_flatMap {symbols : List α} (hsep : ∀ a ∈ symbols, p a = true → f a = [c])
    (hother : ∀ a ∈ symbols, p a = false → c ∉ f a) :
    splitChar c (symbols.flatMap f) = (symbols.splitOnP p).map (·.flatMap f) := by
  induction symbols with
  | nil => rfl
  | cons a symbols ih =>
    obtain ⟨hsep, hseps⟩ := List.forall_mem_cons.mp hsep
    obtain ⟨hother, hothers⟩ := List.forall_mem_cons.mp hother
    have ih := ih hseps hothers
    rw [List.flatMap_cons, List.splitOnP_cons_eq_if_modifyHead]
    cases ha : p a with
    | true =>
      rw [hsep ha, if_pos rfl, List.map_cons, ← ih]
      exact splitChar_append List.not_mem_nil _
    | false =>
      rw [if_neg Bool.false_ne_true, splitChar_append_of_not_mem (hother ha), ih]
      cases symbols.splitOnP p with
      | nil => rfl
      | cons first others => simp

/-- A piece has only symbols of the whole. -/
theorem mem_of_mem_splitOnP {a : α} {symbols piece : List α} (hpiece : piece ∈ symbols.splitOnP p)
    (ha : a ∈ piece) : a ∈ symbols := by
  induction symbols generalizing piece with
  | nil =>
    rw [List.splitOnP_nil, List.mem_singleton] at hpiece
    rwa [hpiece] at ha
  | cons b symbols ih =>
    rw [List.splitOnP_cons_eq_if_modifyHead] at hpiece
    split at hpiece
    · obtain rfl | hpiece := List.mem_cons.mp hpiece
      · cases ha
      · exact .tail _ (ih hpiece ha)
    cases hsplit : symbols.splitOnP p with
    | nil => exact absurd hsplit (List.splitOnP_ne_nil p symbols)
    | cons first others =>
      rw [hsplit] at hpiece ih
      -- the first piece has grown by `b`
      obtain rfl | hother := List.mem_cons.mp hpiece
      · obtain rfl | ha := List.mem_cons.mp ha
        · exact .head _
        · exact .tail _ (ih (.head _) ha)
      · exact .tail _ (ih (.tail _ hother) ha)

end

end Svidlet.Lib
