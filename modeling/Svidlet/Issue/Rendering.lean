import Svidlet.Issue.Matcher
import Svidlet.Lib.Holes
import Svidlet.Lib.Result

/-!
# Two workloads and one ID

`IdTemplate::render` puts values between literals. Values are held to letters, digits, `-`, `.` and
`_`, so none of them can add a `/`; but a template may separate its placeholders by a dot, and
`spiffe://{cluster}.{trust_domain}` gives cluster `a.b` in `c` and cluster `a` in `b.c` one ID.
`compile` renders one probe, with values that have no dot.

When can it happen? A template is a text with holes (`Svidlet.Lib.Holes`), so:

> two attribute sets with one ID exist exactly if some text between two placeholders **slides** by
> a word that still fits into the 2048 bytes of an ID.

A slash, or any other character that values cannot have, keeps the text between from sliding.
-/

namespace Svidlet.Issue

open Lib

/-! ## 1. A template as a text with holes -/

/-- The literal text in front of the first placeholder. -/
def leadOf : List Part → List Char
  | .literal text :: rest => text.toList ++ leadOf rest
  | _ => []

/-- The literal text behind each placeholder. -/
def gapsOf : List Part → List (List Char)
  | [] => []
  | .literal _ :: rest => gapsOf rest
  | .field _ :: rest => leadOf rest :: gapsOf rest

def fieldsOf : List Part → List Field
  | [] => []
  | .literal _ :: rest => fieldsOf rest
  | .field f :: rest => f :: fieldsOf rest

def valuesOf (attrs : WorkloadAttributes) (parts : List Part) : List (List Char) :=
  (fieldsOf parts).map fun f => (attrs.get f).toList

theorem length_gapsOf (parts : List Part) : (gapsOf parts).length = (fieldsOf parts).length := by
  induction parts with
  | nil => rfl
  | cons part rest ih => cases part <;> simp [gapsOf, fieldsOf, ih]

theorem length_valuesOf (attrs : WorkloadAttributes) (parts : List Part) :
    (gapsOf parts).length = (valuesOf attrs parts).length := by
  simp [valuesOf, length_gapsOf]

/-- What `check_segment` lets through. -/
def Segment (value : String) : Prop := value.toList ≠ [] ∧ ∀ c ∈ value.toList, segmentChar c = true

theorem checkSegment_ok {f : Field} {value : String} :
    checkSegment f value = .ok () ↔ Segment value := by
  have hempty : value.isEmpty = true ↔ value.toList = [] := by
    rw [String.isEmpty_iff, ← String.toList_eq_nil_iff]
  unfold checkSegment Segment
  by_cases hv : value.toList = []
  · simp [hempty.mpr hv, hv]
  rw [if_neg (fun h => hv (hempty.mp h))]
  cases hfind : value.toList.find? fun c => !segmentChar c with
  | none =>
    simp only [List.find?_eq_none, Bool.not_eq_true, Bool.not_eq_false'] at hfind
    simpa [hv] using hfind
  | some bad =>
    have hbad := List.find?_some hfind
    have hmem := List.mem_of_find?_eq_some hfind
    simp only [Bool.not_eq_true'] at hbad
    simp only [reduceCtorEq, false_iff, not_and]
    intro _ hall
    rw [hall bad hmem] at hbad
    cases hbad

variable {attrs : WorkloadAttributes} {parts : List Part}

/-- What is rendered, and when. -/
theorem renderParts_ok {s : String} : IdTemplate.renderParts attrs parts = .ok s ↔
      (∀ f ∈ fieldsOf parts, Segment (attrs.get f)) ∧
      s.toList = leadOf parts ++ fill (gapsOf parts) (valuesOf attrs parts) := by
  induction parts generalizing s with
  | nil =>
    constructor
    · intro h
      cases h
      exact ⟨by simp [fieldsOf], rfl⟩
    · intro h
      have hs : s = "" := String.toList_injective h.2
      rw [hs]
      rfl
  | cons part rest ih =>
    cases part with
    | literal text =>
      simp only [IdTemplate.renderParts, bind_ok, pure_ok, ih, fieldsOf, leadOf, gapsOf, valuesOf]
      constructor
      · rintro ⟨tail, ⟨hseg, htail⟩, rfl⟩
        exact ⟨hseg, by simp [htail]⟩
      · rintro ⟨hseg, hs⟩
        refine ⟨String.ofList _, ⟨hseg, String.toList_ofList⟩, ?_⟩
        apply String.toList_injective
        simp [hs]
    | field f =>
      simp only [IdTemplate.renderParts, bind_ok, pure_ok, ih, fieldsOf, leadOf, gapsOf, valuesOf,
        List.mem_cons, forall_eq_or_imp, List.map_cons, fill_cons, List.nil_append]
      constructor
      · rintro ⟨_, hcheck, tail, ⟨hseg, htail⟩, rfl⟩
        exact ⟨⟨checkSegment_ok.mp hcheck, hseg⟩, by simp [htail]⟩
      · rintro ⟨⟨hf, hseg⟩, hs⟩
        refine ⟨(), checkSegment_ok.mpr hf, String.ofList _, ⟨hseg, String.toList_ofList⟩, ?_⟩
        apply String.toList_injective
        simp [hs]

/-- A part with the attributes put in. -/
def spelled (attrs : WorkloadAttributes) : Part → List Char
  | .literal text => text.toList
  | .field f => (attrs.get f).toList

theorem renderParts_spelled {s : String} (h : IdTemplate.renderParts attrs parts = .ok s) :
    s.toList = parts.flatMap (spelled attrs) := by
  induction parts generalizing s with
  | nil =>
    cases h
    rfl
  | cons part rest ih =>
    cases part with
    | literal text =>
      obtain ⟨tail, htail, hs⟩ := bind_ok.mp h
      rw [← pure_ok.mp hs, String.toList_append, ih htail]
      rfl
    | field f =>
      obtain ⟨_, _, h⟩ := bind_ok.mp h
      obtain ⟨tail, htail, hs⟩ := bind_ok.mp h
      rw [← pure_ok.mp hs, String.toList_append, ih htail]
      rfl

theorem values_segment (h : ∀ f ∈ fieldsOf parts, Segment (attrs.get f)) :
    Values (fun c => segmentChar c = true) (valuesOf attrs parts) := by
  intro v hv
  obtain ⟨f, hf, rfl⟩ := List.mem_map.mp hv
  exact h f hf

theorem values_noSlash (h : ∀ f ∈ fieldsOf parts, Segment (attrs.get f)) :
    Values (· ≠ '/') (valuesOf attrs parts) := by
  intro v hv
  obtain ⟨hne, hall⟩ := values_segment h v hv
  refine ⟨hne, fun c hc => ?_⟩
  rintro rfl
  exact absurd (hall _ hc) (by decide)

/-- The fields of an accepted template are those of its parts, none twice. -/
theorem collectFields_ok {seen fields : List Field} (h : collectFields parts seen = .ok fields)
    (hseen : seen.Nodup) :
    fields = seen ++ fieldsOf parts ∧ fields.Nodup := by
  induction parts generalizing seen with
  | nil =>
    cases h
    exact ⟨by simp [fieldsOf], hseen⟩
  | cons part rest ih =>
    cases part with
    | literal text => exact ih h hseen
    | field f =>
      simp only [collectFields] at h
      split at h
      · cases h
      rename_i hf
      obtain ⟨hfields, hnodup⟩ := ih h (List.nodup_append.mpr
        ⟨hseen, List.nodup_singleton f, by rintro a ha b hb rfl; simp_all⟩)
      exact ⟨by simp [hfields, fieldsOf], hnodup⟩

/-! ## 2. How a template begins -/

theorem leadOf_append_literal (parts : List Part) (text : String) :
    leadOf (parts ++ [.literal text]) =
      leadOf parts ++ if (fieldsOf parts).isEmpty then text.toList else [] := by
  induction parts with
  | nil => simp [leadOf, fieldsOf]
  | cons part rest ih => cases part <;> simp [leadOf, fieldsOf, ih]

theorem leadOf_append_field (parts : List Part) (f : Field) :
    leadOf (parts ++ [.field f]) = leadOf parts := by
  induction parts with
  | nil => rfl
  | cons part rest ih => cases part <;> simp [leadOf, ih]

theorem leadOf_pushLiteral (parts : List Part) (text : List Char) :
    leadOf (pushLiteral parts text) = leadOf (parts ++ [.literal (String.ofList text)]) := by
  rw [leadOf_append_literal, pushLiteral]
  cases text with
  | nil => simp
  | cons c text =>
    show leadOf (parts ++ [.literal (String.ofList (c :: text))]) = _
    rw [leadOf_append_literal]

variable {raw : String}

/-- What was read before the first placeholder stays at the front. -/
theorem splitTemplate_lead (chars : List Char) (name : Option (List Char)) (text : List Char)
    (parts : List Part) :
    ∀ out, splitTemplate raw chars name text parts = .ok out →
      leadOf (parts ++ [.literal (String.ofList text)]) <+: leadOf out := by
  have hmore : ∀ (parts : List Part) (text : List Char) (c : Char),
      leadOf (parts ++ [.literal (String.ofList text)]) <+:
        leadOf (parts ++ [.literal (String.ofList (text ++ [c]))]) := by
    intro parts text c
    rw [leadOf_append_literal, leadOf_append_literal]
    split <;> simp
  induction chars, name, text, parts using splitTemplate.induct with
  | case1 text parts =>
    intro out h
    cases h
    exact ⟨[], by rw [List.append_nil, leadOf_pushLiteral]⟩
  | case2 name x y =>
    intro out h
    cases h
  | case3 rest name text parts field hfield ih =>
    intro out h
    simp only [splitTemplate, hfield] at h
    have hlead := ih out h
    rw [leadOf_append_literal, leadOf_append_field, leadOf_pushLiteral] at hlead
    exact (List.prefix_append _ _).trans hlead
  | case4 rest name text parts hfield =>
    intro out h
    simp [splitTemplate, hfield] at h
  | case5 c rest name text parts hc ih =>
    intro out h
    rw [splitTemplate] at h
    · exact ih out h
    · exact hc
  | case6 rest text parts ih =>
    intro out h
    rw [splitTemplate] at h
    exact (hmore parts text _).trans (ih out h)
  | case7 rest text parts ih =>
    intro out h
    rw [splitTemplate] at h
    exact (hmore parts text _).trans (ih out h)
  | case8 rest text parts hrest ih =>
    intro out h
    rw [splitTemplate] at h
    · exact ih out h
    · exact hrest
  | case9 rest x y hrest =>
    intro out h
    rw [splitTemplate] at h
    · cases h
    · exact hrest
  | case10 c rest text parts h1 h2 h3 h4 ih =>
    intro out h
    rw [splitTemplate] at h
    · exact (hmore parts text _).trans (ih out h)
    all_goals assumption

/-- An accepted template begins with the scheme, outside its placeholders. -/
theorem split_lead (h : split raw = .ok parts) (hraw : startsWith raw "spiffe://" = true) :
    "spiffe://".toList <+: leadOf parts := by
  obtain ⟨rest, hrest⟩ := List.isPrefixOf_iff_prefix.mp hraw
  unfold split at h
  rw [← hrest] at h
  have hlead := splitTemplate_lead rest none "spiffe://".toList [] parts h
  simpa [leadOf] using hlead

/-! ## 3. What makes a text an ID -/

/-- Which of the pieces between slashes are empty, one character at a time from the right. -/
def blanks (text : List Char) (after : List Bool) : List Bool :=
  text.foldr (fun c after => if c = '/' then true :: after else false :: after.tail) after

theorem blanks_append (a b : List Char) (after : List Bool) :
    blanks (a ++ b) after = blanks a (blanks b after) := List.foldr_append

theorem blanks_splitChar (text : List Char) :
    (splitChar '/' text).map List.isEmpty = blanks text [true] := by
  induction text with
  | nil => rfl
  | cons c text ih =>
    show _ = if c = '/' then true :: blanks text [true] else false :: (blanks text [true]).tail
    rw [← ih, splitChar]
    cases hpieces : splitChar '/' text with
    | nil => exact absurd hpieces (splitChar_ne_nil '/' text)
    | cons piece pieces => by_cases hc : c = '/' <;> simp [hc]

theorem blanks_ne_nil (text : List Char) : blanks text [true] ≠ [] := by
  rw [← blanks_splitChar]
  simp [splitChar_ne_nil]

/-- A value is one piece, whatever it is. -/
theorem blanks_value {v : List Char} (hne : v ≠ []) (hv : '/' ∉ v) (after : List Bool) :
    blanks v after = false :: after.tail := by
  induction v with
  | nil => exact absurd rfl hne
  | cons c v ih =>
    have hc : c ≠ '/' := fun h => hv (by simp [h])
    show (if c = '/' then _ else _) = _
    rw [if_neg hc]
    cases v with
    | nil => rfl
    | cons d v =>
      have htail := ih (List.cons_ne_nil d v) (fun h => hv (.tail _ h))
      show false :: (blanks (d :: v) after).tail = _
      rw [htail]
      rfl

theorem blanks_fill {gaps vs ws : List (List Char)} (hvs : gaps.length = vs.length)
    (hws : gaps.length = ws.length) (hv : Values (· ≠ '/') vs) (hw : Values (· ≠ '/') ws)
    (after : List Bool) : blanks (fill gaps vs) after = blanks (fill gaps ws) after := by
  induction gaps generalizing vs ws with
  | nil => simp
  | cons gap gaps ih =>
    cases vs with
    | nil => cases hvs
    | cons v vs =>
    cases ws with
    | nil => cases hws
    | cons w ws =>
    have hslash : ∀ {u : List Char} {us}, Values (· ≠ '/') (u :: us) → u ≠ [] ∧ '/' ∉ u :=
      fun h => ⟨(h _ (.head _)).1, fun hmem => (h _ (.head _)).2 _ hmem rfl⟩
    simp only [fill_cons, List.append_assoc, blanks_append]
    rw [ih (Nat.succ.inj hvs) (Nat.succ.inj hws) hv.tail hw.tail,
      blanks_value (hslash hv).1 (hslash hv).2, blanks_value (hslash hw).1 (hslash hw).2]

/-- A trust domain, and a path without empty segments, or none. -/
def idPieces : List Bool → Bool
  | false :: path => path = [] || path = [true] || !path.contains true
  | _ => false

/-- The pieces in the terms of `checkId`: the trust domain, and the path behind the first slash. -/
theorem idPieces_iff (rest : List Char) : idPieces (blanks rest [true]) = true ↔
      ((splitOnce '/' rest).getD (rest, [])).1 ≠ [] ∧
      ¬ ((splitChar '/' ((splitOnce '/' rest).getD (rest, [])).2).any List.isEmpty = true ∧
        ((splitOnce '/' rest).getD (rest, [])).2 ≠ []) := by
  cases hsplit : splitOnce '/' rest with
  | none =>
    have hslash := splitOnce_none hsplit
    by_cases hrest : rest = []
    · simp [hrest, idPieces, blanks]
    · simp [hrest, idPieces, blanks_value hrest hslash]
  | some pair =>
    obtain ⟨domain, path⟩ := pair
    have hslash := splitOnce_not_mem hsplit
    obtain rfl := splitOnce_eq hsplit
    have hany : (splitChar '/' path).any List.isEmpty = (blanks path [true]).contains true := by
      rw [← blanks_splitChar]
      simp [List.any_eq]
    have hpath : blanks path [true] = [true] ↔ path = [] := by
      constructor
      · intro h
        cases path with
        | nil => rfl
        | cons c path =>
          change (if c = '/' then true :: blanks path [true] else _) = _ at h
          split at h
          · exact absurd (List.cons.inj h).2 (blanks_ne_nil path)
          · cases h
      · rintro rfl
        rfl
    simp only [Option.getD_some, blanks_append]
    show idPieces (blanks domain (true :: blanks path [true])) = true ↔ _
    by_cases hdomain : domain = []
    · simp [hdomain, blanks, idPieces]
    · rw [blanks_value hdomain hslash, hany]
      simp only [List.tail_cons, idPieces, blanks_ne_nil, hpath]
      by_cases hempty : path = [] <;> simp [hempty, hdomain]

/-- When a text is an ID. -/
theorem checkId_ok : checkId raw = .ok () ↔ ∃ rest, raw.toList = "spiffe://".toList ++ rest ∧
      raw.utf8ByteSize ≤ maxIdLen ∧ idPieces (blanks rest [true]) = true := by
  have hstrip : ∀ rest, stripPrefix raw "spiffe://" = some rest ↔
      raw.toList = "spiffe://".toList ++ rest.toList := by
    intro rest
    constructor
    · exact toList_of_stripPrefix
    · intro h
      have hraw : raw = "spiffe://" ++ rest := String.toList_injective (by rw [h]; simp)
      rw [hraw, stripPrefix_append]
  unfold checkId
  cases h : stripPrefix raw "spiffe://" with
  | none =>
    simp only [reduceCtorEq, false_iff]
    rintro ⟨rest, hrest, -⟩
    have hrest' : raw.toList = "spiffe://".toList ++ (String.ofList rest).toList := by
      rw [hrest]
      exact congrArg _ String.toList_ofList.symm
    have hsome := (hstrip (String.ofList rest)).mpr hrest'
    rw [h] at hsome
    cases hsome
  | some rest =>
    have hraw := (hstrip rest).mp h
    have hpieces : (∃ rest', raw.toList = "spiffe://".toList ++ rest' ∧
        raw.utf8ByteSize ≤ maxIdLen ∧ idPieces (blanks rest' [true]) = true) ↔
        raw.utf8ByteSize ≤ maxIdLen ∧ idPieces (blanks rest.toList [true]) = true := by
      constructor
      · rintro ⟨rest', hrest, hsize, hok⟩
        rw [hraw] at hrest
        rw [List.append_cancel_left hrest]
        exact ⟨hsize, hok⟩
      · rintro ⟨hsize, hok⟩
        exact ⟨rest.toList, hraw, hsize, hok⟩
    rw [hpieces, idPieces_iff]
    by_cases hsize : raw.utf8ByteSize > maxIdLen
    · simp only [hsize, if_true, reduceCtorEq, false_iff]
      omega
    simp only [hsize, if_false, Nat.le_of_not_lt hsize, true_and]
    by_cases hdomain : ((splitOnce '/' rest.toList).getD (rest.toList, [])).1 = []
    · simp [hdomain]
    simp only [hdomain, if_false, ne_eq, not_false_eq_true, true_and]
    split
    · rename_i hblank
      simp only [Bool.and_eq_true, Bool.not_eq_true', List.isEmpty_eq_false_iff] at hblank
      simp [hblank]
    · rename_i hblank
      simp only [Bool.and_eq_true, Bool.not_eq_true', List.isEmpty_eq_false_iff] at hblank
      simp only [hblank, not_false_eq_true]

/-! ## 4. How long an ID is -/

/-- The characters of a value take one byte each. -/
theorem utf8Size_of_segmentChar {c : Char} (h : segmentChar c = true) : c.utf8Size = 1 := by
  rw [Char.utf8Size_eq_one_iff]
  simp only [segmentChar, Char.isAlphanum, Char.isAlpha, Char.isUpper, Char.isLower, Char.isDigit,
    Bool.or_eq_true, Bool.and_eq_true, decide_eq_true_eq] at h
  obtain ((((((h | h) | h) | rfl) | rfl) | rfl)) := h
  · exact UInt32.le_trans h.2 (by decide)
  · exact UInt32.le_trans h.2 (by decide)
  · exact UInt32.le_trans h.2 (by decide)
  all_goals decide

theorem utf8ByteSize_eq (s : String) : s.utf8ByteSize = String.utf8Len s.toList := by
  rw [← String.utf8ByteSize_ofList, String.ofList_toList]

theorem utf8Len_segment {v : List Char} (h : ∀ c ∈ v, segmentChar c = true) :
    String.utf8Len v = v.length := by
  induction v with
  | nil => rfl
  | cons c v ih =>
    simp only [List.mem_cons, forall_eq_or_imp] at h
    rw [String.utf8Len_cons, ih h.2, utf8Size_of_segmentChar h.1, List.length_cons]

theorem utf8Len_fill {gaps vs : List (List Char)} (hlen : gaps.length = vs.length)
    (h : Values (fun c => segmentChar c = true) vs) :
    String.utf8Len (fill gaps vs) = String.utf8Len gaps.flatten + vs.flatten.length := by
  induction gaps generalizing vs with
  | nil =>
    obtain rfl := List.length_eq_zero_iff.mp hlen.symm
    rfl
  | cons gap gaps ih =>
    cases vs with
    | nil => cases hlen
    | cons v vs =>
      simp only [fill_cons, String.utf8Len_append, List.flatten_cons, List.length_append,
        utf8Len_segment (h v (.head _)).2, ih (Nat.succ.inj hlen) h.tail]
      omega

/-- What every ID of a template takes: its literals, and a character for each value. -/
def fixedSize (parts : List Part) : Nat :=
  String.utf8Len (leadOf parts) + String.utf8Len (gapsOf parts).flatten + (fieldsOf parts).length

/-! ## 5. Accepted templates -/

section

variable {E : RegexEngine} {t : IdTemplate E} {attrs : WorkloadAttributes} {id : SpiffeId}

/-- What `render` has put together. -/
theorem IdTemplate.render_ok :
    t.render attrs = .ok id ↔ (∀ f ∈ fieldsOf t.parts, Segment (attrs.get f)) ∧
      id.asStr.toList = leadOf t.parts ++ fill (gapsOf t.parts) (valuesOf attrs t.parts) := by
  unfold IdTemplate.render
  rw [bind_ok]
  constructor
  · intro h
    obtain ⟨s, hs, hid⟩ := h
    rw [SpiffeId.parse_asStr hid]
    exact renderParts_ok.mp hs
  · intro h
    refine ⟨id.asStr, renderParts_ok.mpr h, ?_⟩
    unfold SpiffeId.parse
    split
    · rfl
    · rename_i e he
      rw [id.valid] at he
      cases he

/-- A policy renders what its template renders, if its pattern allows it. -/
theorem IdPolicy.render_ok {policy : IdPolicy E} (h : policy.render attrs = .ok id) :
    policy.template.render attrs = .ok id ∧ policy.check id.asStr = .ok () := by
  unfold IdPolicy.render at h
  obtain ⟨id', ht, h⟩ := bind_ok.mp h
  obtain ⟨_, hcheck, h⟩ := bind_ok.mp h
  obtain rfl := pure_ok.mp h
  exact ⟨ht, hcheck⟩

/-- What `compile` has checked. -/
structure IdTemplate.Compiled (t : IdTemplate E) : Prop where
  fields_eq : t.fields = fieldsOf t.parts
  nodup : (fieldsOf t.parts).Nodup
  lead : "spiffe://".toList <+: leadOf t.parts
  matcher : E.compile (matcherPattern t.parts) = .ok t.matcher
  /-- The probe was rendered, so there are IDs of this shape. -/
  probe : ∃ attrs id, t.render attrs = .ok id

/-- The steps of `compile`, all of which went well. -/
theorem IdTemplate.compile_ok {raw : String} (h : IdTemplate.compile raw = .ok t) :
    split raw = .ok t.parts ∧ collectFields t.parts [] = .ok t.fields ∧
      startsWith raw "spiffe://" = true ∧ E.compile (matcherPattern t.parts) = .ok t.matcher ∧
      ∃ rendered, t.render t.probeAttributes = .ok rendered := by
  unfold IdTemplate.compile at h
  obtain ⟨parts, hparts, h⟩ := bind_ok.mp h
  obtain ⟨fields, hfields, h⟩ := bind_ok.mp h
  cases hraw : startsWith raw "spiffe://" with
  | false =>
    rw [hraw] at h
    cases h
  | true =>
    simp only [hraw, Bool.not_true, Bool.false_eq_true, if_false] at h
    cases hnone : fields.isEmpty with
    | true =>
      rw [hnone] at h
      cases h
    | false =>
      simp only [hnone, Bool.false_eq_true, if_false] at h
      cases hmatcher : E.compile (matcherPattern parts) with
      | error e =>
        rw [hmatcher] at h
        cases h
      | ok matcher =>
        simp only [hmatcher] at h
        obtain ⟨rendered, hrendered, h⟩ := bind_ok.mp h
        split at h
        · cases h
        · cases h
          exact ⟨hparts, hfields, rfl, hmatcher, rendered, hrendered⟩

theorem IdTemplate.compiled {raw : String} (h : IdTemplate.compile raw = .ok t) : t.Compiled := by
  obtain ⟨hparts, hfields, hraw, hmatcher, rendered, hrendered⟩ := IdTemplate.compile_ok h
  obtain ⟨heq, hnodup⟩ := collectFields_ok hfields List.nodup_nil
  rw [List.nil_append] at heq
  exact ⟨heq, heq ▸ hnodup, split_lead hparts hraw, hmatcher, _, rendered, hrendered⟩

/-- A policy has the compiled template. -/
theorem IdPolicy.new_compiled {template : String} {pattern : Option String} {policy : IdPolicy E}
    (h : IdPolicy.new template pattern = .ok policy) : policy.template.Compiled := by
  obtain ⟨t, ht, h⟩ := bind_ok.mp h
  have hsame : policy.template = t := by
    cases pattern with
    | none =>
      cases h
      rfl
    | some src =>
      simp only at h
      split at h
      · cases h
      · cases h
        rfl
  rw [hsame]
  exact IdTemplate.compiled ht

/-- Whatever fits is rendered: the probe has shown that the literals make an ID. -/
theorem IdTemplate.Compiled.renders (h : t.Compiled)
    (hseg : ∀ f ∈ fieldsOf t.parts, Segment (attrs.get f))
    (hsize : String.utf8Len (leadOf t.parts) + String.utf8Len (gapsOf t.parts).flatten +
      (valuesOf attrs t.parts).flatten.length ≤ maxIdLen) :
    ∃ id, t.render attrs = .ok id := by
  obtain ⟨probe, id, hprobe⟩ := h.probe
  obtain ⟨hprobeSeg, hid⟩ := IdTemplate.render_ok.mp hprobe
  obtain ⟨rest, hrest, -, hpieces⟩ := checkId_ok.mp id.valid
  obtain ⟨lead, hlead⟩ := h.lead
  let text := leadOf t.parts ++ fill (gapsOf t.parts) (valuesOf attrs t.parts)
  have hvalid : checkId (String.ofList text) = .ok () := by
    refine checkId_ok.mpr ⟨lead ++ fill (gapsOf t.parts) (valuesOf attrs t.parts), ?_, ?_, ?_⟩
    · simp [text, ← hlead]
    · rw [String.utf8ByteSize_ofList, String.utf8Len_append,
        utf8Len_fill (length_valuesOf attrs t.parts) (values_segment hseg)]
      omega
    have hsame : rest = lead ++ fill (gapsOf t.parts) (valuesOf probe t.parts) := by
      rw [hid, ← hlead, List.append_assoc] at hrest
      exact (List.append_cancel_left hrest).symm
    rw [hsame, blanks_append, blanks_fill (length_valuesOf probe t.parts)
      (length_valuesOf attrs t.parts) (values_noSlash hprobeSeg) (values_noSlash hseg),
      ← blanks_append] at hpieces
    exact hpieces
  exact ⟨⟨String.ofList text, hvalid⟩, IdTemplate.render_ok.mpr ⟨hseg, String.toList_ofList⟩⟩

/-! ## 6. When two workloads can share an ID -/

/-- Some text between two placeholders slides by a word that fits. -/
def Collides (parts : List Part) : Prop := ∃ gap ∈ (gapsOf parts).dropLast, ∃ p,
    Slides (fun c => segmentChar c = true) gap p ∧ fixedSize parts + p ≤ maxIdLen

/-- IDs are told apart by the fields they are rendered from. -/
def Distinct (t : IdTemplate E) : Prop :=
  ∀ a b id, t.render a = .ok id → t.render b = .ok id → ∀ f ∈ t.fields, a.get f = b.get f

theorem length_flatten_le (h : t.render attrs = .ok id) :
    String.utf8Len (leadOf t.parts) + String.utf8Len (gapsOf t.parts).flatten +
      (valuesOf attrs t.parts).flatten.length ≤ maxIdLen := by
  obtain ⟨hseg, hid⟩ := IdTemplate.render_ok.mp h
  obtain ⟨-, -, hsize, -⟩ := checkId_ok.mp id.valid
  rw [utf8ByteSize_eq, hid, String.utf8Len_append,
    utf8Len_fill (length_valuesOf attrs t.parts) (values_segment hseg)] at hsize
  omega

theorem distinct_of_not_collides (ht : t.Compiled) (h : ¬ Collides t.parts) : Distinct t := by
  intro a b id ha hb f hf
  by_contra hne
  obtain ⟨hsegA, hidA⟩ := IdTemplate.render_ok.mp ha
  obtain ⟨hsegB, hidB⟩ := IdTemplate.render_ok.mp hb
  have hfill := List.append_cancel_left (hidA.symm.trans hidB)
  have hvalues : valuesOf a t.parts ≠ valuesOf b t.parts := by
    intro heq
    rw [ht.fields_eq] at hf
    exact hne (String.toList_injective (List.map_inj_left.mp heq f hf))
  obtain ⟨gap, hgap, p, hslides, hroom⟩ := fill_collision (length_valuesOf a t.parts)
    (length_valuesOf b t.parts) (values_segment hsegA) (values_segment hsegB) hfill hvalues
  have hsize := length_flatten_le ha
  refine h ⟨gap, hgap, p, hslides, ?_⟩
  have hcount : (valuesOf a t.parts).length = (fieldsOf t.parts).length := by simp [valuesOf]
  unfold fixedSize
  omega

theorem mem_dropLast_split {α : Type} {a : α} {l : List α} (h : a ∈ l.dropLast) :
    ∃ before next after, l = before ++ a :: next :: after := by
  induction l with
  | nil => cases h
  | cons b l ih =>
    cases l with
    | nil => cases h
    | cons c l =>
      obtain rfl | hmem := List.mem_cons.mp h
      · exact ⟨[], c, l, rfl⟩
      · obtain ⟨before, next, after, heq⟩ := ih hmem
        exact ⟨b :: before, next, after, by rw [heq]; rfl⟩

/-- The attributes with these values. -/
def WorkloadAttributes.ofGet (value : Field → String) : WorkloadAttributes where
  trustDomain := value .trustDomain
  cluster := value .cluster
  ns := value .ns
  serviceAccount := value .serviceAccount
  podName := value .podName
  podUid := value .podUid
  nodeName := value .nodeName

@[simp] theorem WorkloadAttributes.get_ofGet (value : Field → String) (f : Field) :
    (WorkloadAttributes.ofGet value).get f = value f := by
  cases f <;> rfl

/-- One letter everywhere but in one field. -/
def oddOne (f : Field) (value : List Char) : WorkloadAttributes :=
  .ofGet fun g => if g = f then String.ofList value else "a"

theorem oddOne_values {f : Field} (value : List Char) {before after : List Field}
    (hnodup : (before ++ f :: after).Nodup) :
    (before ++ f :: after).map (fun g => ((oddOne f value).get g).toList) =
      before.map (fun _ => ['a']) ++ value :: after.map (fun _ => ['a']) := by
  have hother : ∀ l : List Field, f ∉ l →
      l.map (fun g => ((oddOne f value).get g).toList) = l.map fun _ => ['a'] := by
    intro l hl
    refine List.map_congr_left fun g hg => ?_
    have hgf : g ≠ f := fun h => hl (h ▸ hg)
    simp [oddOne, hgf]
  rw [List.nodup_append, List.nodup_cons] at hnodup
  obtain ⟨-, ⟨hafter, -⟩, hbefore⟩ := hnodup
  have hfront : f ∉ before := fun h => hbefore f h f (by simp) rfl
  rw [List.map_append, List.map_cons, hother before hfront, hother after hafter]
  simp [oddOne]

theorem oddOne_segment {f : Field} {value : List Char} (hne : value ≠ [])
    (hok : ∀ c ∈ value, segmentChar c = true) (g : Field) : Segment ((oddOne f value).get g) := by
  by_cases hg : g = f
  · simpa [oddOne, hg, Segment] using ⟨hne, hok⟩
  · simp only [oddOne, WorkloadAttributes.get_ofGet, hg, if_false]
    exact ⟨by decide, List.all_eq_true.mp (by decide)⟩

theorem length_flatten_letters (fields : List Field) :
    (fields.map fun _ => ['a']).flatten.length = fields.length := by
  simp

theorem collides_not_distinct (ht : t.Compiled) (h : Collides t.parts) : ¬ Distinct t := by
  obtain ⟨gap, hgap, p, ⟨hp, w, w', hw, hwok, hwok', hslide⟩, hsize⟩ := h
  obtain ⟨before, next, after, hgaps⟩ := mem_dropLast_split hgap
  -- the two fields around the gap
  obtain ⟨fs, f, g, gs, hfields, hfs⟩ : ∃ fs f g gs, fieldsOf t.parts = fs ++ f :: g :: gs ∧
      before.length = fs.length := by
    have hlen := length_gapsOf t.parts
    rw [hgaps] at hlen
    obtain ⟨f, g, gs, hdrop⟩ : ∃ f g gs, (fieldsOf t.parts).drop before.length = f :: g :: gs := by
      have hlong : 2 ≤ ((fieldsOf t.parts).drop before.length).length := by
        rw [List.length_drop, ← hlen]
        simp
      match hd : (fieldsOf t.parts).drop before.length, hlong with
      | f :: g :: gs, _ => exact ⟨f, g, gs, rfl⟩
    refine ⟨(fieldsOf t.parts).take before.length, f, g, gs, ?_, ?_⟩
    · rw [← hdrop, List.take_append_drop]
    · rw [List.length_take, ← hlen]
      simp
  have hnodup := ht.nodup
  rw [hfields] at hnodup
  have hw'len : w'.length = p := by
    have hlen := congrArg List.length hslide
    simp only [List.length_append] at hlen
    omega
  -- the word on either side of the gap
  let a := oddOne f (['a'] ++ w)
  let b := oddOne g (w' ++ ['a'])
  have ha : valuesOf a t.parts =
      fs.map (fun _ => ['a']) ++ (['a'] ++ w) :: ['a'] :: gs.map fun _ => ['a'] := by
    rw [valuesOf, hfields]
    exact oddOne_values _ hnodup
  have hb : valuesOf b t.parts =
      fs.map (fun _ => ['a']) ++ ['a'] :: (w' ++ ['a']) :: gs.map fun _ => ['a'] := by
    have hnodup' : (fs ++ [f] ++ g :: gs).Nodup := by simpa using hnodup
    have hvalues := oddOne_values (w' ++ ['a']) hnodup'
    rw [valuesOf, hfields]
    simpa using hvalues
  have hletter : segmentChar 'a' = true := by decide
  have hsegA : ∀ x ∈ fieldsOf t.parts, Segment (a.get x) := fun x _ =>
    oddOne_segment (by simp) (by simpa [hletter] using hwok) x
  have hsegB : ∀ x ∈ fieldsOf t.parts, Segment (b.get x) := fun x _ =>
    oddOne_segment (by simp) (by simpa [or_imp, forall_and, hletter] using hwok') x
  have hcount : (fieldsOf t.parts).length = fs.length + 2 + gs.length := by
    rw [hfields]
    simp
    omega
  unfold fixedSize at hsize
  obtain ⟨idA, hidA⟩ := ht.renders hsegA (by
    rw [ha]
    simp only [List.flatten_append, List.flatten_cons, List.length_append, length_flatten_letters,
      List.length_cons, List.length_nil]
    omega)
  obtain ⟨idB, hidB⟩ := ht.renders hsegB (by
    rw [hb]
    simp only [List.flatten_append, List.flatten_cons, List.length_append, length_flatten_letters,
      List.length_cons, List.length_nil]
    omega)
  have hsame : idA = idB := by
    apply SpiffeId.ext_asStr
    apply String.toList_injective
    rw [(IdTemplate.render_ok.mp hidA).2, (IdTemplate.render_ok.mp hidB).2, ha, hb, hgaps,
      fill_slide hslide (by simpa using hfs)]
  intro hdistinct
  have hget := hdistinct a b idA hidA (hsame ▸ hidB) f (by rw [ht.fields_eq, hfields]; simp)
  have hfg : f ≠ g := by
    rintro rfl
    simp [List.nodup_append] at hnodup
  have hgetA : a.get f = String.ofList (['a'] ++ w) := by simp [a, oddOne]
  have hgetB : b.get f = String.ofList ['a'] := by simp [b, oddOne, hfg]
  rw [hgetA, hgetB] at hget
  have hlen := congrArg List.length (String.ofList_injective hget)
  simp only [List.length_append, List.length_cons, List.length_nil] at hlen
  omega

/-- A character that values cannot have keeps a gap from sliding. -/
theorem not_collides_of_separators {parts : List Part}
    (h : ∀ gap ∈ (gapsOf parts).dropLast, ∃ c ∈ gap, segmentChar c = false) :
    ¬ Collides parts := by
  rintro ⟨gap, hgap, p, ⟨hp, w, w', hw, hwok, -, hslide⟩, -⟩
  obtain ⟨c, hc, hbad⟩ := h gap hgap
  have hne : w ≠ [] := by
    rintro rfl
    simp only [List.length_nil] at hw
    omega
  have hslide' : w ++ gap ++ [] = gap ++ w' := by simpa using hslide
  have hok := ok_of_overlap hne hwok hslide' c hc
  rw [hbad] at hok
  cases hok

/-- When an accepted template gives different workloads different IDs. -/
theorem ids_are_distinct_iff {raw : String} {t : IdTemplate E}
    (h : IdTemplate.compile raw = .ok t) :
    (Distinct t ↔ ¬ Collides t.parts) ∧
    ((∀ gap ∈ (gapsOf t.parts).dropLast, ∃ c ∈ gap, segmentChar c = false) → Distinct t) := by
  have ht := IdTemplate.compiled h
  refine ⟨⟨fun hd hc => collides_not_distinct ht hc hd, distinct_of_not_collides ht⟩, ?_⟩
  intro hsep
  exact distinct_of_not_collides ht (not_collides_of_separators hsep)

end

/-! ## 7. With a slash, and with a dot -/

open Matcher (templateEngine)

theorem slash_compiles : (IdTemplate.compile (E := templateEngine)
    "spiffe://\x7bcluster\x7d/\x7bnamespace\x7d").toOption.isSome = true := by decide

def slashTemplate : IdTemplate templateEngine :=
  (IdTemplate.compile "spiffe://\x7bcluster\x7d/\x7bnamespace\x7d").toOption.get slash_compiles

theorem slash_ids_are_distinct : Distinct slashTemplate := by
  have hgaps : (gapsOf slashTemplate.parts).dropLast = [['/']] := by decide
  apply (ids_are_distinct_iff (t := slashTemplate) (ok_of_isSome slash_compiles)).2
  have hslash : segmentChar '/' = false := by decide
  rw [hgaps]
  simp [hslash]

theorem dot_compiles : (IdTemplate.compile (E := templateEngine)
    "spiffe://\x7bcluster\x7d.\x7btrust_domain\x7d").toOption.isSome = true := by decide

def dotTemplate : IdTemplate templateEngine :=
  (IdTemplate.compile "spiffe://\x7bcluster\x7d.\x7btrust_domain\x7d").toOption.get dot_compiles

def dotId : SpiffeId := ⟨"spiffe://a.b.c", by decide⟩

/-- Cluster `a.b` of `c` and cluster `a` of `b.c`. -/
theorem dot_ids_collide :
    IdTemplate.compile "spiffe://\x7bcluster\x7d.\x7btrust_domain\x7d" = .ok dotTemplate ∧
    dotTemplate.render { cluster := "a.b", trustDomain := "c" } = .ok dotId ∧
    dotTemplate.render { cluster := "a", trustDomain := "b.c" } = .ok dotId ∧
    Field.cluster ∈ dotTemplate.fields ∧ ¬ Distinct dotTemplate := by
  have hab : dotTemplate.render { cluster := "a.b", trustDomain := "c" } = .ok dotId := by
    decide
  have hbc : dotTemplate.render { cluster := "a", trustDomain := "b.c" } = .ok dotId := by
    decide
  have hfield : Field.cluster ∈ dotTemplate.fields := by decide
  refine ⟨ok_of_isSome dot_compiles, hab, hbc, hfield, fun hdistinct => ?_⟩
  exact absurd (hdistinct _ _ _ hab hbc _ hfield) (by decide)

end Svidlet.Issue
