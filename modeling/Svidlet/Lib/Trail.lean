import Mathlib

/-!
# Lists that have lost what is old

A counter that slides keeps a list of times and forgets from the front. What it keeps is compared with
what it could have kept: the list it would be if nothing had been forgotten, or the list of another
counter that forgot at other moments.

> `Trails cut xs q`: `q` is `xs` without some of its first entries, and these are not after `cut`.

As long as only what is after `cut` is asked for, the two lists cannot be told apart
(`Trails.dropWhile_eq`, `Trails.filter_eq`, `Trails.getLast_any`), and adding at the back or forgetting
more at the front keeps them so.
-/

namespace Svidlet.Lib

variable {α : Type} [LinearOrder α] {cut cut' t : α} {xs q : List α}

def Trails (cut : α) (xs q : List α) : Prop := ∃ old, xs = old ++ q ∧ ∀ t ∈ old, t ≤ cut

/-- In a list in order, what is not old is what remains once the old entries in front are dropped. -/
theorem filter_eq_dropWhile (hq : q.Pairwise (· ≤ ·)) (cut : α) :
    q.filter (fun t => cut < t) = q.dropWhile (fun t => t ≤ cut) := by
  induction q with
  | nil => rfl
  | cons t rest ih =>
    obtain ⟨hfirst, hrest⟩ := List.pairwise_cons.mp hq
    by_cases hold : t ≤ cut
    · simp only [List.filter_cons, List.dropWhile_cons, hold, not_lt.mpr hold, decide_true,
        decide_false, Bool.false_eq_true, if_true, if_false]
      exact ih hrest
    -- everything after a young entry is young
    have hall : ∀ u ∈ t :: rest, decide (cut < u) = true := by
      intro u hu
      rcases List.mem_cons.mp hu with rfl | hu
      · exact decide_eq_true (not_le.mp hold)
      · exact decide_eq_true (lt_of_lt_of_le (not_le.mp hold) (hfirst u hu))
    rw [List.filter_eq_self.mpr hall]
    simp [hold]

/-- In a list in order, the last entry is old only if all are. -/
theorem le_of_getLast_any (hq : q.Pairwise (· ≤ ·))
    (hlast : q.getLast?.any (fun t => cut < t) = false) : ∀ t ∈ q, t ≤ cut := by
  intro t ht
  have hne : q ≠ [] := List.ne_nil_of_mem ht
  rw [List.getLast?_eq_some_getLast hne, Option.any_some, decide_eq_false_iff_not, not_lt] at hlast
  rw [← List.dropLast_append_getLast hne] at hq ht
  rcases List.mem_append.mp ht with ht | ht
  · exact le_trans ((List.pairwise_append.mp hq).2.2 t ht _ (List.mem_singleton_self _)) hlast
  · rwa [List.mem_singleton.mp ht]

namespace Trails

theorem refl (cut : α) (xs : List α) : Trails cut xs xs := ⟨[], rfl, nofun⟩

theorem mono (h : Trails cut xs q) (hle : cut ≤ cut') : Trails cut' xs q := by
  obtain ⟨old, hxs, hold⟩ := h
  exact ⟨old, hxs, fun t ht => le_trans (hold t ht) hle⟩

theorem push (h : Trails cut xs q) (t : α) : Trails cut (xs ++ [t]) (q ++ [t]) := by
  obtain ⟨old, rfl, hold⟩ := h
  exact ⟨old, List.append_assoc _ _ _, hold⟩

/-- Forgetting what is old. -/
theorem expire (h : Trails cut xs q) : Trails cut xs (q.dropWhile fun t => t ≤ cut) := by
  obtain ⟨old, rfl, hold⟩ := h
  refine ⟨old ++ q.takeWhile fun t => t ≤ cut, ?_, ?_⟩
  · rw [List.append_assoc, List.takeWhile_append_dropWhile]
  intro t ht
  rcases List.mem_append.mp ht with ht | ht
  · exact hold t ht
  · have hold' := List.mem_takeWhile_imp ht
    exact of_decide_eq_true hold'

/-- Forgetting everything. -/
theorem clear (h : Trails cut xs q) (hall : ∀ t ∈ q, t ≤ cut) : Trails cut xs [] := by
  obtain ⟨old, rfl, hold⟩ := h
  refine ⟨old ++ q, (List.append_nil _).symm, ?_⟩
  intro t ht
  exact (List.mem_append.mp ht).elim (hold t) (hall t)

theorem sorted (h : Trails cut xs q) (hxs : xs.Pairwise (· ≤ ·)) : q.Pairwise (· ≤ ·) := by
  obtain ⟨old, rfl, _⟩ := h
  exact (List.pairwise_append.mp hxs).2.1

theorem dropWhile_eq (h : Trails cut xs q) (hle : cut ≤ cut') :
    xs.dropWhile (fun t => t ≤ cut') = q.dropWhile (fun t => t ≤ cut') := by
  obtain ⟨old, rfl, hold⟩ := h
  exact List.dropWhile_append_of_pos fun t ht => decide_eq_true (le_trans (hold t ht) hle)

theorem filter_eq (h : Trails cut xs q) (hle : cut ≤ cut') :
    xs.filter (fun t => cut' < t) = q.filter (fun t => cut' < t) := by
  obtain ⟨old, rfl, hold⟩ := h
  have hnone : old.filter (fun t => cut' < t) = [] := by
    refine List.filter_eq_nil_iff.mpr fun t ht => ?_
    simpa using le_trans (hold t ht) hle
  rw [List.filter_append, hnone, List.nil_append]

theorem getLast_any (h : Trails cut xs q) (hle : cut ≤ cut') :
    xs.getLast?.any (fun t => cut' < t) = q.getLast?.any (fun t => cut' < t) := by
  obtain ⟨old, rfl, hold⟩ := h
  cases q with
  | cons t rest => rw [List.getLast?_append, List.getLast?_cons, Option.some_or]
  | nil =>
    cases hlast : (old ++ []).getLast? with
    | none => rfl
    | some t =>
      have ht : t ∈ old := by
        have hmem := List.mem_of_getLast? hlast
        rwa [List.append_nil] at hmem
      simpa using le_trans (hold t ht) hle

end Trails

end Svidlet.Lib
