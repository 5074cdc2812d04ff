import Svidlet.Issue.Matcher
import Svidlet.Lib.RegexAnchor
import Svidlet.Lib.Result

/-!
# The operator's pattern

`IdPolicy::new` takes a pattern that every ID has to match, and anchors it "on both ends", since an
unanchored one would match anywhere in the ID.  `anchor` does that by writing `^` in front of the
text and `$` behind it. For a pattern that is one sequence of items this is what is meant: the check
accepts an ID exactly if the whole of it matches. An alternation `a|b` at the top of the pattern becomes
`^a|b$`, and then

> the first alternative is tied to the start of the ID only, the last to its end only, and one in
> between to neither.

A pattern that ends inside a comment of the flag `x` swallows the `$` as well.
-/

namespace Svidlet.Issue

open Lib

/-! ## 1. How the anchored pattern is read -/

theorem startsWith_caret (pattern : String) :
    startsWith pattern "^" = true ↔ ∃ rest, pattern.toList = '^' :: rest := by
  simp only [startsWith, List.isPrefixOf_iff_prefix]
  exact ⟨fun ⟨rest, h⟩ => ⟨rest, h.symm⟩, fun ⟨rest, h⟩ => ⟨rest, h.symm⟩⟩

theorem endsWith_dollar (pattern : String) :
    (endsWith pattern "$" && !endsWith pattern "\\$") = true ↔
      ∃ rest, pattern.toList = rest ++ ['$'] ∧ rest.getLast? ≠ some '\\' := by
  have hone : endsWith pattern "$" = true ↔ ∃ rest, pattern.toList = rest ++ ['$'] := by
    simp only [endsWith, List.isSuffixOf_iff_suffix]
    exact ⟨fun ⟨rest, h⟩ => ⟨rest, h.symm⟩, fun ⟨rest, h⟩ => ⟨rest, h.symm⟩⟩
  have htwo : endsWith pattern "\\$" = true ↔ ∃ rest, pattern.toList = rest ++ ['\\'] ++ ['$'] := by
    simp only [endsWith, List.isSuffixOf_iff_suffix, List.append_assoc]
    exact ⟨fun ⟨rest, h⟩ => ⟨rest, h.symm⟩, fun ⟨rest, h⟩ => ⟨rest, h.symm⟩⟩
  rw [Bool.and_eq_true, Bool.not_eq_true', hone, ← Bool.not_eq_true, htwo]
  constructor
  · intro h
    obtain ⟨⟨rest, hrest⟩, hback⟩ := h
    refine ⟨rest, hrest, fun hlast => hback ?_⟩
    obtain ⟨init, rfl⟩ := List.getLast?_eq_some_iff.mp hlast
    exact ⟨init, hrest⟩
  · intro h
    obtain ⟨rest, hrest, hback⟩ := h
    refine ⟨⟨rest, hrest⟩, fun htail => hback ?_⟩
    obtain ⟨init, hinit⟩ := htail
    rw [hrest] at hinit
    rw [(List.append_inj' hinit rfl).1]
    simp

/-- A pattern without `^` and `$` of its own, once anchored. -/
theorem parse_anchor {pattern : String} {q : Re.Parsed} (hq : Re.parse pattern.toList = some q)
    (hends : q.re.usesEnds = false) : Re.parse (anchor pattern).toList = some q.anchored := by
  have hstart : startsWith pattern "^" = false := by
    rw [← Bool.not_eq_true, startsWith_caret]
    intro hcaret
    obtain ⟨rest, hrest⟩ := hcaret
    rw [hrest] at hq
    cases hends.symm.trans (Re.usesEnds_of_caret hq)
  cases hfinish : endsWith pattern "$" && !endsWith pattern "\\$" with
  | false =>
    have hanchor : (anchor pattern).toList = '^' :: pattern.toList ++ ['$'] := by
      simp [anchor, hstart, hfinish]
    rw [hanchor]
    exact Re.parse_anchored hq
  | true =>
    -- the dollar sign can only be part of a comment, which would swallow another one
    obtain ⟨rest, hrest, hback⟩ := (endsWith_dollar pattern).mp hfinish
    have hcomment : q.comment = true := by
      rw [hrest] at hq
      exact Re.comment_of_dollar hq hends hback
    have hanchor : (anchor pattern).toList = '^' :: pattern.toList := by
      simp [anchor, hstart, hfinish]
    have hframe : q.anchored = { q with frame := q.frame.lead .start } := by
      simp [Re.Parsed.anchored, hcomment]
    rw [hanchor, hframe]
    exact Re.parse_caret hq

/-! ## 2. What the check accepts -/

/-- The engine finds what a search for the pattern finds. Nothing is said of a pattern it refuses, or of
    one that is not in the syntax. -/
def RegexEngine.Searches (E : RegexEngine) : Prop :=
  ∀ pattern q re, Re.parse pattern.toList = some q → E.compile pattern = .ok re →
    ∀ text, E.isMatch re text = true ↔ q.re.Found text.toList

/-- An alternative matches a proper part of the text, where its own anchors let it. -/
def Slips (q : Re.Parsed) (text : List Char) : Prop := ∃ b ∈ q.bounds, ∃ left middle right,
    text = left ++ middle ++ right ∧ middle ≠ text ∧ b.On left middle right

/-- An alternative that matches a text as a whole is held by no anchor. -/
theorem found_anchored (q : Re.Parsed) (text : List Char) :
    q.anchored.re.Found text ↔ q.re.Matches text ∨ Slips q text := by
  constructor
  · intro hfound
    obtain ⟨left, middle, right, htext, hmatch⟩ := hfound
    obtain ⟨b, hb, hon⟩ := (q.anchored_holds left middle right).mp hmatch
    by_cases hwhole : middle = text
    · have hlen := congrArg List.length htext
      subst hwhole
      simp only [List.length_append] at hlen
      have hleft : left = [] := List.length_eq_zero_iff.mp (by omega)
      have hright : right = [] := List.length_eq_zero_iff.mp (by omega)
      subst hleft hright
      exact .inl ((q.re_holds _ _ _).mpr ⟨b, hb, hon.1⟩)
    · exact .inr ⟨b, hb, left, middle, right, htext, hwhole, hon⟩
  · intro h
    obtain hwhole | ⟨b, hb, left, middle, right, htext, -, hon⟩ := h
    · obtain ⟨b, hb, hholds⟩ := (q.re_holds _ _ _).mp hwhole
      have hon : b.On [] text [] := ⟨hholds, fun _ => rfl, fun _ => rfl⟩
      exact ⟨[], text, [], by simp, (q.anchored_holds _ _ _).mpr ⟨b, hb, hon⟩⟩
    · exact ⟨left, middle, right, htext, (q.anchored_holds _ _ _).mpr ⟨b, hb, hon⟩⟩

/-- With one alternative and no comment, both ends hold. -/
theorem not_slips_of_one {q : Re.Parsed} (hone : q.frame.before = []) (hcomment : q.comment = false)
    (text : List Char) : ¬ Slips q text := by
  intro hslips
  obtain ⟨b, hb, left, middle, right, htext, hproper, -, hstart, hend⟩ := hslips
  simp only [Re.Parsed.bounds, hone, hcomment, Re.boundsBefore, List.mem_singleton] at hb
  subst hb
  rw [hstart rfl, hend rfl] at htext
  exact hproper (by simpa using htext.symm)

/-- A policy with a pattern holds that pattern, anchored and compiled. -/
theorem IdPolicy.new_pattern {E : RegexEngine} {template pattern : String} {policy : IdPolicy E}
    (h : IdPolicy.new template (some pattern) = .ok policy) :
    ∃ re, E.compile (anchor pattern) = .ok re ∧ policy.pattern = some re := by
  unfold IdPolicy.new at h
  cases ht : IdTemplate.compile (E := E) template with
  | error e =>
    rw [ht] at h
    cases h
  | ok t =>
    cases hre : E.compile (anchor pattern) with
    | error e =>
      simp only [ht, hre] at h
      cases h
    | ok re =>
      simp only [ht, hre] at h
      cases h
      exact ⟨re, rfl, rfl⟩

theorem IdPolicy.check_iff {E : RegexEngine} {policy : IdPolicy E} {re : E.Regex}
    (h : policy.pattern = some re) (id : String) :
    policy.check id = .ok () ↔ E.isMatch re id = true := by
  cases hmatch : E.isMatch re id <;> simp [IdPolicy.check, h, hmatch]

/-- When the check of a pattern without `^` and `$` of its own accepts the IDs that match it as a
    whole, and no others: unless an alternative slips past the ends that are not its own. With one
    alternative none does. -/
theorem pattern_check_is_whole_match_iff {E : RegexEngine} (hE : E.Searches)
    {template pattern : String} {policy : IdPolicy E} {q : Re.Parsed}
    (hnew : IdPolicy.new template (some pattern) = .ok policy)
    (hq : Re.parse pattern.toList = some q) (hends : q.re.usesEnds = false) (id : String) :
    ((policy.check id = .ok () ↔ q.re.Matches id.toList) ↔
      (q.re.Matches id.toList ∨ ¬ Slips q id.toList)) ∧
    (q.frame.before = [] → q.comment = false →
      (policy.check id = .ok () ↔ q.re.Matches id.toList)) ∧
    (q.re.anchorFree = true → (q.re.Matches id.toList ↔ id.toList ∈ q.re.language)) := by
  obtain ⟨re, hre, hpattern⟩ := IdPolicy.new_pattern hnew
  have haccepts : policy.check id = .ok () ↔ q.re.Matches id.toList ∨ Slips q id.toList := by
    rw [IdPolicy.check_iff hpattern, hE _ _ _ (parse_anchor hq hends) hre, found_anchored]
  refine ⟨?_, ?_, fun hfree => Re.matches_iff_mem_language hfree _⟩
  · rw [haccepts]
    tauto
  intro hone hcomment
  have hslips := not_slips_of_one hone hcomment id.toList
  rw [haccepts]
  tauto

/-! ## 3. Running it -/

/-- An engine for the whole syntax. Groups are captured for the patterns of templates only. -/
def searchEngine : RegexEngine where
  Regex := Re × Option (List Matcher.Piece)
  compile pattern :=
    match Re.parse pattern.toList with
    | none => .error "unsupported pattern"
    | some q => .ok (q.re, Matcher.parsePieces pattern.toList.tail)
  isMatch re text := re.1.search text.toList
  captures re text := re.2.bind fun pieces => Matcher.templateEngine.captures pieces text

theorem searchEngine_searches : searchEngine.Searches := by
  intro pattern q re hq hre text
  simp only [searchEngine, hq] at hre
  cases hre
  exact Re.search_iff _ _

/-- A policy that holds every ID to a pattern. -/
def Held (pattern : String) : Prop :=
  (IdPolicy.new (E := searchEngine) "spiffe://\x7bcluster\x7d" (some pattern)).toOption.isSome = true

instance (pattern : String) : Decidable (Held pattern) := inferInstanceAs (Decidable (_ = true))

def heldTo (pattern : String) (h : Held pattern) : IdPolicy searchEngine :=
  (IdPolicy.new "spiffe://\x7bcluster\x7d" (some pattern)).toOption.get h

theorem held_group : Held "spiffe://(a|b)+" := by decide

/-- A pattern without an alternation at its top holds at both ends. -/
theorem pattern_check_is_whole_match_group :
    ∃ q, Re.parse "spiffe://(a|b)+".toList = some q ∧ q.re.usesEnds = false ∧
      ((heldTo _ held_group).check "spiffe://ax" = .ok () ↔ q.re.Matches "spiffe://ax".toList) := by
  have hq : ((Re.parse "spiffe://(a|b)+".toList).any fun q =>
      !q.re.usesEnds && q.frame.before.isEmpty && !q.comment) = true := by decide
  obtain ⟨q, hparse, hq⟩ := (Option.any_eq_true _ _).mp hq
  simp only [Bool.and_eq_true, Bool.not_eq_true', List.isEmpty_iff] at hq
  obtain ⟨⟨hends, hone⟩, hcomment⟩ := hq
  exact ⟨q, hparse, hends, (pattern_check_is_whole_match_iff searchEngine_searches
    (ok_of_isSome held_group) hparse hends "spiffe://ax").2.1 hone hcomment⟩

theorem held_alternation : Held "spiffe://a|spiffe://b" := by decide

def partId : SpiffeId := ⟨"spiffe://ax", by decide⟩

/-- `a|b` accepts what only begins with `a`. -/
theorem alternation_accepts_part :
    (heldTo _ held_alternation).render { cluster := "ax" } = .ok partId ∧
    (heldTo _ held_alternation).check partId.asStr = .ok () ∧
    ∃ q, Re.parse "spiffe://a|spiffe://b".toList = some q ∧ q.re.usesEnds = false ∧
      ¬ q.re.Matches partId.asStr.toList := by
  refine ⟨by decide, by decide, ?_⟩
  have hq : ((Re.parse "spiffe://a|spiffe://b".toList).any fun q =>
      !q.re.usesEnds && !decide (q.re.Matches "spiffe://ax".toList)) = true := by decide
  obtain ⟨q, hparse, hq⟩ := (Option.any_eq_true _ _).mp hq
  simp only [Bool.and_eq_true, Bool.not_eq_true', decide_eq_false_iff_not] at hq
  exact ⟨q, hparse, hq.1, hq.2⟩

end Svidlet.Issue
