import Mathlib

/-!
# Patterns with a wildcard

A pattern is a list of letters of which one, the star, stands for any run of letters. `Fills` is the
language of such patterns, with a condition on what the stars may stand for:

> every star but the last stands for a run of letters that are `ok`.

The condition is there for matchers that look for the next piece of a pattern letter by letter and do not
look for the last one, which has to be at the end. With no condition on letters it is the plain
language.

The lemma that such a search rests on is `Fills.shift`: a text that is a filling stays one when a run of
letters is put in front of it, if it still begins as the pattern does. What the first star stands for
then changes, **but only by a rearrangement of that run**, so it stays `ok`.
-/

namespace Svidlet.Lib

/-- The pattern with a run of letters in the place of every star, and every star but the last replaced
    by a run of `ok` letters. -/
inductive Fills {α : Type} (star : α) (ok : α → Prop) : List α → List α → Prop where
  | nil : Fills star ok [] []
  | letter {a : α} {pattern text : List α} : a ≠ star → Fills star ok pattern text →
      Fills star ok (a :: pattern) (a :: text)
  | star {run pattern text : List α} : (star ∈ pattern → ∀ a ∈ run, ok a) →
      Fills star ok pattern text → Fills star ok (star :: pattern) (run ++ text)

variable {α : Type} {star : α} {ok ok' : α → Prop} {head tail text : List α}

/-- The letters before the first star stand for themselves. -/
theorem fills_append (hhead : star ∉ head) :
    Fills star ok (head ++ tail) text ↔ ∃ rest, text = head ++ rest ∧ Fills star ok tail rest := by
  induction head generalizing text with
  | nil => simp
  | cons a head ih =>
    simp only [List.mem_cons, not_or] at hhead
    constructor
    · intro h
      cases h with
      | letter _ hrest =>
        obtain ⟨rest, rfl, hfills⟩ := (ih hhead.2).mp hrest
        exact ⟨rest, rfl, hfills⟩
      | star _ _ => exact absurd rfl hhead.1
    · intro ⟨rest, htext, hfills⟩
      subst htext
      exact .letter (Ne.symm hhead.1) ((ih hhead.2).mpr ⟨rest, rfl, hfills⟩)

/-- A pattern without a star is its only filling. -/
theorem fills_plain (hhead : star ∉ head) : Fills star ok head text ↔ text = head := by
  have happend : Fills star ok (head ++ []) text ↔
      ∃ rest, text = head ++ rest ∧ Fills star ok [] rest := fills_append hhead
  rw [List.append_nil] at happend
  rw [happend]
  constructor
  · intro ⟨rest, htext, hnil⟩
    cases hnil
    simpa using htext
  · intro htext
    exact ⟨[], by simpa using htext, .nil⟩

theorem fills_star : Fills star ok (star :: tail) text ↔
    ∃ run rest, text = run ++ rest ∧ (star ∈ tail → ∀ a ∈ run, ok a) ∧ Fills star ok tail rest := by
  constructor
  · intro h
    cases h with
    | letter hne _ => exact absurd rfl hne
    | star hok hrest => exact ⟨_, _, rfl, hok, hrest⟩
  · intro ⟨run, rest, htext, hok, hrest⟩
    subst htext
    exact .star hok hrest

/-- The first star of a pattern. -/
theorem fills_split (hhead : star ∉ head) : Fills star ok (head ++ star :: tail) text ↔
    ∃ run rest, text = head ++ (run ++ rest) ∧ (star ∈ tail → ∀ a ∈ run, ok a) ∧
      Fills star ok tail rest := by
  rw [fills_append hhead]
  constructor
  · intro ⟨rest, htext, hfills⟩
    obtain ⟨run, rest', hrest, hok, hfills⟩ := fills_star.mp hfills
    exact ⟨run, rest', by rw [htext, hrest], hok, hfills⟩
  · intro ⟨run, rest, htext, hok, hfills⟩
    exact ⟨run ++ rest, htext, fills_star.mpr ⟨run, rest, rfl, hok, hfills⟩⟩

theorem Fills.mono {pattern : List α} (h : Fills star ok pattern text) (hok : ∀ a, ok a → ok' a) :
    Fills star ok' pattern text := by
  induction h with
  | nil => exact .nil
  | letter hne _ ih => exact .letter hne ih
  | star hrun _ ih => exact .star (fun hstar a ha => hok a (hrun hstar a ha)) ih

/-- **A run in front.** -/
theorem Fills.shift {run : List α} (hhead : star ∉ head)
    (h : Fills star ok (head ++ star :: tail) text) (hrun : ∀ a ∈ run, ok a)
    (hpre : head <+: run ++ text) : Fills star ok (head ++ star :: tail) (run ++ text) := by
  obtain ⟨gap, rest, rfl, hok, hfills⟩ := (fills_split hhead).mp h
  obtain ⟨after, hafter⟩ := hpre
  have hafter : head ++ after = (run ++ head) ++ (gap ++ rest) := by
    rw [hafter, List.append_assoc]
  -- what now follows the head is as long as the run, and the old gap after it
  have htake : (head ++ after).take (run ++ head).length = run ++ head := by
    rw [hafter, List.take_left]
  have hdrop : (head ++ after).drop (run ++ head).length = gap ++ rest := by
    rw [hafter, List.drop_left]
  have hlen : (run ++ head).length = head.length + run.length := by
    rw [List.length_append, Nat.add_comm]
  rw [hlen, List.take_length_add_append] at htake
  rw [hlen, List.drop_length_add_append] at hdrop
  have hperm : (after.take run.length).Perm run := by
    have hswap : (head ++ after.take run.length).Perm (head ++ run) := by
      rw [htake]
      exact List.perm_append_comm
    exact (List.perm_append_left_iff head).mp hswap
  refine (fills_split hhead).mpr ⟨after.take run.length ++ gap, rest, ?_, ?_, hfills⟩
  · have hback : after.take run.length ++ gap ++ rest = after := by
      rw [List.append_assoc, ← hdrop, List.take_append_drop]
    rw [hback, hafter, List.append_assoc]
  intro hstar a ha
  rcases List.mem_append.mp ha with ha | ha
  · exact hrun a (hperm.mem_iff.mp ha)
  · exact hok hstar a ha

end Svidlet.Lib
