import Svidlet.Lib.Text

/-!
# What trimming takes away

`str::trim` takes away white space in front and behind. A text that was trimmed is a part of the text it
was, between two runs of white space (`trimWhile_split`), and neither begins nor ends with any.
-/

namespace Svidlet.Lib

section

variable {α : Type} {p : α → Bool} {xs front rest : List α} {c : α}

/-- The list without the entries with `p` in front and behind. -/
def trimWhile (p : α → Bool) (xs : List α) : List α :=
  ((xs.dropWhile p).reverse.dropWhile p).reverse

theorem trimWhile_split (p : α → Bool) (xs : List α) : ∃ before after,
    xs = before ++ trimWhile p xs ++ after ∧ (∀ c ∈ before, p c = true) ∧ ∀ c ∈ after, p c = true := by
  refine ⟨xs.takeWhile p, ((xs.dropWhile p).reverse.takeWhile p).reverse, ?_, ?_, ?_⟩
  · rw [List.append_assoc, trimWhile, ← List.reverse_append, List.takeWhile_append_dropWhile,
      List.reverse_reverse, List.takeWhile_append_dropWhile]
  · exact fun c hc => List.mem_takeWhile_imp hc
  · exact fun c hc => List.mem_takeWhile_imp (List.mem_reverse.mp hc)

/-- What is left does not end with such an entry. -/
theorem trimWhile_last (h : trimWhile p xs = front ++ [c]) : p c = false := by
  have hrev : (xs.dropWhile p).reverse.dropWhile p = c :: front.reverse := by
    rw [trimWhile] at h
    rw [← List.reverse_reverse ((xs.dropWhile p).reverse.dropWhile p), h]
    simp
  have hhead := List.head_dropWhile_not p (l := (xs.dropWhile p).reverse) (by rw [hrev]; simp)
  simpa [hrev] using hhead

/-- A list without such entries is left as it is. -/
theorem trimWhile_of_none (h : ∀ c ∈ xs, p c = false) : trimWhile p xs = xs := by
  have hdrop : ∀ ys : List α, (∀ c ∈ ys, p c = false) → ys.dropWhile p = ys := by
    intro ys hys
    cases ys with
    | nil => rfl
    | cons c ys => rw [List.dropWhile_cons, hys c List.mem_cons_self, if_neg Bool.false_ne_true]
  rw [trimWhile, hdrop xs h, hdrop xs.reverse fun c hc => h c (List.mem_reverse.mp hc),
    List.reverse_reverse]

/-- Such entries behind it make no difference. -/
theorem trimWhile_append {ys : List α} (h : ∀ c ∈ ys, p c = true) :
    trimWhile p (xs ++ ys) = trimWhile p xs := by
  have hall : ys.dropWhile p = [] := List.dropWhile_eq_nil_iff.mpr h
  rw [trimWhile, trimWhile, List.dropWhile_append]
  split
  · rename_i hempty
    rw [List.isEmpty_iff.mp hempty, hall]
  · rw [List.reverse_append, List.dropWhile_append_of_pos fun c hc => h c (List.mem_reverse.mp hc)]

/-- Trimming again takes nothing more. -/
theorem trimWhile_trimWhile (p : α → Bool) (xs : List α) :
    trimWhile p (trimWhile p xs) = trimWhile p xs := by
  have hfront : (trimWhile p xs).dropWhile p = trimWhile p xs := by
    cases hfirst : trimWhile p xs with
    | nil => rfl
    | cons c rest =>
      -- it begins as the list does once its front is gone
      have hpre : trimWhile p xs <+: xs.dropWhile p :=
        List.reverse_suffix.mp (by rw [trimWhile, List.reverse_reverse]; exact List.dropWhile_suffix p)
      rw [hfirst] at hpre
      obtain ⟨after, hafter⟩ := hpre
      have hhead := List.head_dropWhile_not p (l := xs) (by rw [← hafter]; simp)
      simp only [← hafter, List.cons_append, List.head_cons] at hhead
      rw [List.dropWhile_cons, hhead, if_neg Bool.false_ne_true]
  have hback : (trimWhile p xs).reverse.dropWhile p = (trimWhile p xs).reverse := by
    rw [trimWhile, List.reverse_reverse, List.dropWhile_idempotent]
  conv_lhs => rw [trimWhile]
  rw [hfront, hback, List.reverse_reverse]

end

theorem trim_toList (s : String) : (trim s).toList = trimWhile isWhite s.toList := by
  rw [trim, String.toList_ofList, trimWhile]

theorem trim_eq_self_iff {s : String} : trim s = s ↔ trimWhile isWhite s.toList = s.toList := by
  rw [← String.toList_inj, trim_toList]

theorem trim_trim (s : String) : trim (trim s) = trim s := by
  rw [trim_eq_self_iff, trim_toList, trimWhile_trimWhile]

theorem trim_append {s ws : String} (h : ∀ c ∈ ws.toList, isWhite c = true) : trim (s ++ ws) = trim s := by
  rw [← String.toList_inj, trim_toList, trim_toList, String.toList_append, trimWhile_append h]

end Svidlet.Lib
