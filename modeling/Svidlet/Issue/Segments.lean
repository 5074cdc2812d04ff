import Svidlet.Issue.Rendering
import Svidlet.Lib.Pieces

/-!
# Path segments

What stands between two slashes of an ID is a segment, and segments are what an identity is told by:
a value that could write a slash, or nothing at all, could write somebody else's ID.

A template is a sequence of symbols, characters of its literals and placeholders. Cut it where its
literals have a slash:

> the segments of an ID are the pieces of its template, with the values put in.

So there are as many, in the same places, and a piece with a placeholder in it is not empty
(`values_keep_segments`). That holds for any value that passes `check_segment`.

Whether a text is an ID at all is decided by `SpiffeId::parse`. It means to accept a trust domain and
then segments, each behind a slash and none of them empty; section 3 says what it does accept.
-/

namespace Svidlet.Issue

open Lib

/-! ## 1. The pieces of a template -/

inductive Symbol where
  | char (c : Char)
  | field (f : Field)
  deriving DecidableEq, Repr

def Part.symbols : Part → List Symbol
  | .literal text => text.toList.map .char
  | .field f => [.field f]

/-- A template, cut at the slashes of its literals. -/
def templatePieces (parts : List Part) : List (List Symbol) :=
  (parts.flatMap Part.symbols).splitOn (.char '/')

def Symbol.spelled (attrs : WorkloadAttributes) : Symbol → List Char
  | .char c => [c]
  | .field f => (attrs.get f).toList

theorem Part.spelled_symbols (attrs : WorkloadAttributes) (part : Part) :
    part.symbols.flatMap (Symbol.spelled attrs) = spelled attrs part := by
  cases part with
  | literal text =>
    show (text.toList.map Symbol.char).flatMap (Symbol.spelled attrs) = text.toList
    rw [List.flatMap_map]
    exact List.flatMap_singleton' _
  | field f => simp [Part.symbols, Symbol.spelled, spelled]

theorem spelled_symbols (attrs : WorkloadAttributes) (parts : List Part) :
    (parts.flatMap Part.symbols).flatMap (Symbol.spelled attrs) = parts.flatMap (spelled attrs) := by
  rw [List.flatMap_assoc]
  exact List.flatMap_congr fun part _ => part.spelled_symbols attrs

/-! ## 2. The segments of an ID -/

section

variable {E : RegexEngine} {t : IdTemplate E} {attrs : WorkloadAttributes} {id : SpiffeId}

theorem mem_fieldsOf {parts : List Part} {f : Field}
    (h : Symbol.field f ∈ parts.flatMap Part.symbols) : f ∈ fieldsOf parts := by
  induction parts with
  | nil => cases h
  | cons part parts ih =>
    rw [List.flatMap_cons] at h
    obtain h | h := List.mem_append.mp h
    · cases part with
      | literal text => simp [Part.symbols] at h
      | field g => simp_all [Part.symbols, fieldsOf]
    · have hrest := ih h
      cases part <;> simp [fieldsOf, hrest]

theorem segment_of_rendered (h : t.render attrs = .ok id) {f : Field}
    (hf : Symbol.field f ∈ t.parts.flatMap Part.symbols) : Segment (attrs.get f) :=
  (IdTemplate.render_ok.mp h).1 f (mem_fieldsOf hf)

theorem slash_not_mem_of_segment {value : String} (h : Segment value) : '/' ∉ value.toList := by
  intro hmem
  exact absurd (h.2 _ hmem) (by decide)

theorem rendered_symbols (h : t.render attrs = .ok id) :
    id.asStr.toList = (t.parts.flatMap Part.symbols).flatMap (Symbol.spelled attrs) := by
  obtain ⟨s, hs, hid⟩ := bind_ok.mp h
  rw [SpiffeId.parse_asStr hid, renderParts_spelled hs, spelled_symbols]

/-- **No value can add, remove or blank a segment.** -/
theorem values_keep_segments (h : t.render attrs = .ok id) :
    (splitChar '/' id.asStr.toList).length = (templatePieces t.parts).length ∧
    splitChar '/' id.asStr.toList =
      (templatePieces t.parts).map (·.flatMap (Symbol.spelled attrs)) ∧
    ∀ piece ∈ templatePieces t.parts, (∃ f, .field f ∈ piece) →
      piece.flatMap (Symbol.spelled attrs) ≠ [] := by
  have hpieces : splitChar '/' id.asStr.toList =
      (templatePieces t.parts).map (·.flatMap (Symbol.spelled attrs)) := by
    rw [rendered_symbols h]
    apply splitChar_flatMap
    · intro symbol _ hslash
      rw [beq_iff_eq.mp hslash]
      rfl
    intro symbol hmem hslash
    cases symbol with
    | char c =>
      have hc : c ≠ '/' := by
        intro heq
        simp [heq] at hslash
      simpa [Symbol.spelled] using Ne.symm hc
    | field f => exact slash_not_mem_of_segment (segment_of_rendered h hmem)
  refine ⟨by rw [hpieces, List.length_map], hpieces, ?_⟩
  intro piece hpiece hfield hempty
  obtain ⟨f, hf⟩ := hfield
  have hvalue := segment_of_rendered h (mem_of_mem_splitOnP hpiece hf)
  exact hvalue.1 (List.flatMap_eq_nil_iff.mp hempty _ hf)

end

def slashId : SpiffeId := ⟨"spiffe://c/n", by decide⟩

theorem values_keep_segments_slash :
    slashTemplate.render ⟨"", "c", "n", "", "", "", ""⟩ = .ok slashId ∧
    (splitChar '/' slashId.asStr.toList).length = (templatePieces slashTemplate.parts).length ∧
    (templatePieces slashTemplate.parts).length = 4 := by
  have hrender : slashTemplate.render ⟨"", "c", "n", "", "", "", ""⟩ = .ok slashId := by decide
  exact ⟨hrender, (values_keep_segments hrender).1, by decide⟩

/-! ## 3. What `parse` accepts -/

/-- A trust domain, and segments behind it. -/
def WellFormedId (raw : String) : Prop :=
  ∃ domain segments, raw.toList = "spiffe://".toList ++ joined '/' domain segments ∧
    (domain ≠ [] ∧ '/' ∉ domain) ∧ ∀ segment ∈ segments, segment ≠ [] ∧ '/' ∉ segment

/-- A trust domain and a slash, and that is all. -/
def EndsInBareSlash (raw : String) : Prop :=
  ∃ domain, raw.toList = "spiffe://".toList ++ joined '/' domain [[]] ∧ domain ≠ [] ∧ '/' ∉ domain

theorem idPieces_joined {domain : List Char} {segments : List (List Char)} (hdomain : '/' ∉ domain)
    (hsegments : ∀ segment ∈ segments, '/' ∉ segment) :
    idPieces (blanks (joined '/' domain segments) [true]) = true ↔
      domain ≠ [] ∧ (segments = [[]] ∨ ∀ segment ∈ segments, segment ≠ []) := by
  rw [← blanks_splitChar, splitChar_joined hdomain hsegments, List.map_cons]
  have hbare : segments.map List.isEmpty = [true] ↔ segments = [[]] := by
    rw [List.map_eq_singleton_iff]
    simp
  have hall : (segments.map List.isEmpty).contains true = false ↔
      ∀ segment ∈ segments, segment ≠ [] := by
    simp only [ne_eq, List.forall_mem_ne']
    simp
  cases domain with
  | nil => simp [idPieces]
  | cons c domain =>
    simp only [List.isEmpty_cons, idPieces, Bool.or_eq_true, decide_eq_true_eq, Bool.not_eq_true',
      List.map_eq_nil_iff, hbare, hall, ne_eq, reduceCtorEq, not_false_eq_true, true_and]
    constructor
    · intro h
      obtain (rfl | h) | h := h
      · exact .inr (by simp)
      · exact .inl h
      · exact .inr h
    · intro h
      obtain h | h := h
      · exact .inl (.inr h)
      · exact .inr h

variable {raw : String}

/-- The trust domain and the segments of a text are what stands between its slashes. -/
theorem checkId_iff : checkId raw = .ok () ↔
    raw.utf8ByteSize ≤ maxIdLen ∧ (WellFormedId raw ∨ EndsInBareSlash raw) := by
  rw [checkId_ok]
  constructor
  · intro h
    obtain ⟨rest, hraw, hsize, hpieces⟩ := h
    obtain ⟨domain, segments, rfl, hdomain, hsegments⟩ := splitChar_pieces '/' rest
    refine ⟨hsize, ?_⟩
    obtain ⟨hne, rfl | hall⟩ := (idPieces_joined hdomain hsegments).mp hpieces
    · exact .inr ⟨domain, hraw, hne, hdomain⟩
    · exact .inl ⟨domain, segments, hraw, ⟨hne, hdomain⟩, fun s hs => ⟨hall s hs, hsegments s hs⟩⟩
  · intro h
    obtain ⟨hsize, hform | hbare⟩ := h
    · obtain ⟨domain, segments, hraw, ⟨hne, hdomain⟩, hall⟩ := hform
      refine ⟨_, hraw, hsize, (idPieces_joined hdomain fun s hs => (hall s hs).2).mpr ⟨hne, .inr ?_⟩⟩
      exact fun s hs => (hall s hs).1
    · obtain ⟨domain, hraw, hne, hdomain⟩ := hbare
      exact ⟨_, hraw, hsize, (idPieces_joined hdomain (by simp)).mpr ⟨hne, .inl rfl⟩⟩

theorem EndsInBareSlash.not_wellFormed (h : EndsInBareSlash raw) : ¬ WellFormedId raw := by
  intro hform
  obtain ⟨domain, hraw, -, hdomain⟩ := h
  obtain ⟨domain', segments, hraw', ⟨-, hdomain'⟩, hall⟩ := hform
  -- a text is cut in one way only, so there would be an empty segment
  have hcut : splitChar '/' (joined '/' domain [[]]) = [domain, []] :=
    splitChar_joined hdomain (by simp)
  rw [List.append_cancel_left (hraw.symm.trans hraw'),
    splitChar_joined hdomain' fun s hs => (hall s hs).2] at hcut
  obtain ⟨-, rfl⟩ := List.cons.inj hcut
  exact (hall [] (.head _)).1 rfl

theorem parse_ok_iff : (∃ id, SpiffeId.parse raw = .ok id) ↔ checkId raw = .ok () := by
  constructor
  · intro h
    obtain ⟨id, hid⟩ := h
    rw [← SpiffeId.parse_asStr hid]
    exact id.valid
  · intro h
    refine ⟨⟨raw, h⟩, ?_⟩
    unfold SpiffeId.parse
    split
    · rfl
    · rename_i e he
      rw [h] at he
      cases he

/-- **`parse` accepts IDs of the form, and no others, but for one slash too many**: behind a trust
    domain without a path it is let through. -/
theorem parse_accepts_form_iff (raw : String) :
    ((∃ id, SpiffeId.parse raw = .ok id) ↔ raw.utf8ByteSize ≤ maxIdLen ∧ WellFormedId raw) ↔
      ¬ (raw.utf8ByteSize ≤ maxIdLen ∧ EndsInBareSlash raw) := by
  rw [parse_ok_iff, checkId_iff]
  constructor
  · intro h hbare
    exact hbare.2.not_wellFormed (h.mp ⟨hbare.1, .inr hbare.2⟩).2
  · intro h
    constructor
    · intro haccepted
      obtain ⟨hsize, hform | hbare⟩ := haccepted
      · exact ⟨hsize, hform⟩
      · exact absurd ⟨hsize, hbare⟩ h
    · intro hform
      exact ⟨hform.1, .inl hform.2⟩

theorem bare_slash_is_accepted : (∃ id, SpiffeId.parse "spiffe://example.org/" = .ok id) ∧
      ¬ WellFormedId "spiffe://example.org/" := by
  have hbare : EndsInBareSlash "spiffe://example.org/" :=
    ⟨"example.org".toList, by decide, by decide, by decide⟩
  exact ⟨parse_ok_iff.mpr (checkId_iff.mpr ⟨by decide, .inr hbare⟩), hbare.not_wellFormed⟩

end Svidlet.Issue
