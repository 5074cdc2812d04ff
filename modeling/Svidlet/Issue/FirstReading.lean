import Svidlet.Issue.Rendering

/-!
# Taking an ID apart

`attributes_of` matches an ID against the template, with a lazy group for each placeholder. A lazy
group ends as early as the rest of the pattern lets it, so what is captured is the **first reading** of
the ID: of all the ways to read it as an instance of the template, the one whose first value is
shortest, then the second, and so on.

`RegexEngine.TakesFirst` says that of the matcher of a template. It follows from what the crate
documents of the patterns it is given (`LeftmostLazy`), since the escaped literals are read as
themselves; sections 3 to 5 prove both, and that the engine in `Svidlet.Issue.Matcher` is such a one.
-/

namespace Svidlet.Issue

open Lib

/-! ## 1. The engine -/

/-- The captured groups of an ID are its first reading. Group 0 is the whole. -/
def RegexEngine.TakesFirst (E : RegexEngine) : Prop :=
  ∀ parts m, E.compile (matcherPattern parts) = .ok m → ∀ (text : String) rest vs,
    text.toList = leadOf parts ++ rest → FirstReading (· ≠ '/') (gapsOf parts) rest vs →
      E.captures m text = some (some text :: vs.map fun v => some (String.ofList v))

/-! ## 2. Attributes -/

@[simp] theorem WorkloadAttributes.get_set (attrs : WorkloadAttributes) (f g : Field)
    (value : String) : (attrs.set f value).get g = if g = f then value else attrs.get g := by
  cases f <;> cases g <;> rfl

/-- The captured values, field by field. -/
theorem readGroups_values (text : String) {fields : List Field} {vs : List (List Char)}
    (hlen : fields.length = vs.length) (before : List (List Char)) (attrs : WorkloadAttributes)
    (hnodup : fields.Nodup) :
    ∃ back, IdTemplate.readGroups (some text :: (before ++ vs).map fun v => some (String.ofList v))
        (fields.zipIdx before.length) attrs = some back ∧
      (∀ (i : Nat) f, fields[i]? = some f → vs[i]? = some (back.get f).toList) ∧
      ∀ f, f ∉ fields → back.get f = attrs.get f := by
  induction fields generalizing vs before attrs with
  | nil => exact ⟨attrs, rfl, by simp, fun _ _ => rfl⟩
  | cons f fields ih =>
    cases vs with
    | nil => cases hlen
    | cons v vs =>
    obtain ⟨hf, hnodup⟩ := List.nodup_cons.mp hnodup
    obtain ⟨back, hback, hin, hout⟩ := ih (Nat.succ.inj hlen) (before ++ [v])
      (attrs.set f (String.ofList v)) hnodup
    refine ⟨back, ?_, ?_, ?_⟩
    · rw [List.zipIdx_cons]
      have hgroup : ((some text :: (before ++ v :: vs).map fun v =>
          some (String.ofList v))[before.length + 1]?).join = some (String.ofList v) := by simp
      simp only [IdTemplate.readGroups, hgroup, Option.bind_eq_bind, Option.bind_some]
      simpa using hback
    · intro i g hg
      cases i with
      | zero =>
        obtain rfl := Option.some.inj hg
        have hvalue := hout f hf
        simp at hvalue
        simp [hvalue]
      | succ i => exact hin i g hg
    · intro g hg
      rw [hout g (fun h => hg (List.mem_cons_of_mem _ h))]
      have hgf : g ≠ f := fun h => hg (by simp [h])
      simp [hgf]

/-- The first reading of the ID of `attrs` gives another value to a field that is looked at. -/
def Misread (looked : List Field) (parts : List Part) (attrs : WorkloadAttributes) : Prop :=
  ∃ vs, FirstReading (· ≠ '/') (gapsOf parts) (fill (gapsOf parts) (valuesOf attrs parts)) vs ∧
    ∃ (i : Nat) (f : Field), (fieldsOf parts)[i]? = some f ∧ f ∈ looked ∧
      vs[i]? ≠ some (attrs.get f).toList

/-- A character between any two placeholders that values do not have. -/
def Separated (parts : List Part) : Prop :=
  ∀ gap ∈ (gapsOf parts).dropLast, ∃ c ∈ gap, segmentChar c = false

section

variable {E : RegexEngine} {t : IdTemplate E}

/-- What `attributes_of` answers to an ID that can be read. -/
theorem attributesOf_first (hE : E.TakesFirst) (ht : t.Compiled) {id : String} {rest : List Char}
    {vs : List (List Char)} (hid : id.toList = leadOf t.parts ++ rest)
    (hfirst : FirstReading (· ≠ '/') (gapsOf t.parts) rest vs) :
    ∃ back, t.attributesOf id = some back ∧
      (∀ (i : Nat) f, (fieldsOf t.parts)[i]? = some f → vs[i]? = some (back.get f).toList) ∧
      ∀ f, f ∉ fieldsOf t.parts → back.get f = "" := by
  have hlen : (fieldsOf t.parts).length = vs.length := by
    rw [← hfirst.1.length_eq, length_gapsOf]
  obtain ⟨back, hback, hin, hout⟩ := readGroups_values id hlen [] {} ht.nodup
  refine ⟨back, ?_, hin, fun f hf => ?_⟩
  · unfold IdTemplate.attributesOf
    rw [hE _ _ ht.matcher _ _ _ hid hfirst, ht.fields_eq]
    exact hback
  · rw [hout f hf]
    cases f <;> rfl

variable {attrs : WorkloadAttributes} {id : SpiffeId}

/-- What was rendered, as a reading of itself. -/
theorem rendered_reading (h : t.render attrs = .ok id) :
    id.asStr.toList = leadOf t.parts ++ fill (gapsOf t.parts) (valuesOf attrs t.parts) ∧
    Reading (fun c => segmentChar c = true) (gapsOf t.parts)
      (fill (gapsOf t.parts) (valuesOf attrs t.parts)) (valuesOf attrs t.parts) ∧
    Reading (· ≠ '/') (gapsOf t.parts)
      (fill (gapsOf t.parts) (valuesOf attrs t.parts)) (valuesOf attrs t.parts) := by
  obtain ⟨hseg, hid⟩ := IdTemplate.render_ok.mp h
  exact ⟨hid, ⟨length_valuesOf attrs t.parts, values_segment hseg, rfl⟩,
    ⟨length_valuesOf attrs t.parts, values_noSlash hseg, rfl⟩⟩

/-- What `attributes_of` gives back of the attributes an ID was rendered from. -/
structure ReadBack (parts : List Part) (attrs back : WorkloadAttributes) : Prop where
  absent : ∀ f, f ∉ fieldsOf parts → back.get f = ""
  present : ∀ f ∈ fieldsOf parts, back.get f ≠ ""
  right_iff : ∀ looked, ¬ Misread looked parts attrs ↔
    ∀ f ∈ fieldsOf parts, f ∈ looked → back.get f = attrs.get f

theorem read_back (hE : E.TakesFirst) (ht : t.Compiled) (h : t.render attrs = .ok id) :
    ∃ back, t.attributesOf id.asStr = some back ∧ ReadBack t.parts attrs back := by
  obtain ⟨hid, -, hread⟩ := rendered_reading h
  obtain ⟨vs, hfirst⟩ := hread.exists_first
  obtain ⟨back, hback, hin, hout⟩ := attributesOf_first hE ht hid hfirst
  refine ⟨back, hback, hout, ?_, fun looked => ⟨?_, ?_⟩⟩
  · intro f hf hempty
    obtain ⟨i, hi⟩ := List.mem_iff_getElem?.mp hf
    have hmem := List.mem_of_getElem? (hin i f hi)
    exact (hfirst.1.values _ hmem).1 (by rw [hempty]; rfl)
  · intro hright f hf hlooked
    obtain ⟨i, hi⟩ := List.mem_iff_getElem?.mp hf
    by_contra hne
    refine hright ⟨vs, hfirst, i, f, hi, hlooked, ?_⟩
    rw [hin i f hi]
    intro heq
    exact hne (String.toList_injective (Option.some.inj heq))
  · rintro hsame ⟨ws, hws, i, f, hf, hlooked, hne⟩
    rw [hws.unique hfirst, hin i f hf, hsame f (List.mem_of_getElem? hf) hlooked] at hne
    exact hne rfl

theorem not_misread_of_separated (h : t.render attrs = .ok id) (hsep : Separated t.parts)
    (looked : List Field) :
    ¬ Misread looked t.parts attrs := by
  rintro ⟨vs, hfirst, i, f, hf, -, hne⟩
  obtain ⟨-, hown, hread⟩ := rendered_reading h
  have hownFirst : FirstReading (· ≠ '/') (gapsOf t.parts)
      (fill (gapsOf t.parts) (valuesOf attrs t.parts)) (valuesOf attrs t.parts) := by
    refine ⟨hread, fun ws hws => not_earlier_of_separators hown hws fun gap hgap => ?_⟩
    obtain ⟨c, hc, hbad⟩ := hsep gap hgap
    exact ⟨c, hc, by simp [hbad]⟩
  rw [hfirst.unique hownFirst] at hne
  exact hne (by simp [valuesOf, hf])

end

/-! ## 3. The engine of templates takes the first reading -/

namespace Matcher

/-- How a text is read by pieces, and what its groups are. -/
inductive PReads : List Piece → List Char → List (List Char) → Prop
  | nil : PReads [] [] []
  | char {c : Char} {ps : List Piece} {text : List Char} {gs : List (List Char)} :
      PReads ps text gs → PReads (.char c :: ps) (c :: text) gs
  | group {d : Char} {ps : List Piece} {text g : List Char} {gs : List (List Char)} :
      d ≠ '/' → PReads (.more :: ps) text (g :: gs) → PReads (.group :: ps) (d :: text) ((d :: g) :: gs)
  | stop {ps : List Piece} {text : List Char} {gs : List (List Char)} :
      PReads ps text gs → PReads (.more :: ps) text ([] :: gs)
  | more {d : Char} {ps : List Piece} {text g : List Char} {gs : List (List Char)} :
      d ≠ '/' → PReads (.more :: ps) text (g :: gs) → PReads (.more :: ps) (d :: text) ((d :: g) :: gs)

/-- The answer to a text: its first reading, or that there is none. -/
def Answers (ps : List Piece) (text : List Char) : Option (List (List Char)) → Prop
  | some gs => PReads ps text gs ∧ ∀ gs', PReads ps text gs' → ¬ Earlier gs' gs
  | none => ∀ gs, ¬ PReads ps text gs

variable {ps : List Piece} {text : List Char}

/-- A group that goes on has its next character in front. -/
theorem answers_grow {qs : List Piece} {d : Char} {answer : Option (List (List Char))}
    (h : Answers (.more :: ps) text answer)
    (hin : ∀ g gs, PReads (.more :: ps) text (g :: gs) → PReads qs (d :: text) ((d :: g) :: gs))
    (hout : ∀ gs, PReads qs (d :: text) gs →
      ∃ g rest, gs = (d :: g) :: rest ∧ PReads (.more :: ps) text (g :: rest)) :
    Answers qs (d :: text) (grow d <$> answer) := by
  cases answer with
  | none =>
    intro gs hgs
    obtain ⟨g, rest, rfl, hsub⟩ := hout gs hgs
    exact h _ hsub
  | some gs =>
    obtain ⟨hread, hfirst⟩ := h
    cases gs with
    | nil => cases hread
    | cons g gs =>
      refine ⟨hin g gs hread, fun gs' hgs' hearlier => ?_⟩
      obtain ⟨g', rest, rfl, hsub⟩ := hout gs' hgs'
      refine hfirst _ hsub ?_
      simpa [grow, Earlier] using hearlier

theorem groups_answers (fuel : Nat) (ps : List Piece) (text : List Char)
    (hfuel : ps.length + text.length < fuel) : Answers ps text (groups fuel ps text) := by
  induction fuel generalizing ps text with
  | zero => omega
  | succ fuel ih =>
    cases ps with
    | nil =>
      cases text with
      | nil =>
        refine ⟨.nil, fun gs hgs => ?_⟩
        cases hgs
        exact id
      | cons d ds =>
        intro gs hgs
        cases hgs
    | cons p ps =>
      simp only [List.length_cons] at hfuel
      cases p with
      | char c =>
        cases text with
        | nil =>
          intro gs hgs
          cases hgs
        | cons d ds =>
          simp only [List.length_cons] at hfuel
          have hsub := ih ps ds (by omega)
          show Answers _ _ (if c = d then groups fuel ps ds else none)
          split
          · rename_i hcd
            subst hcd
            cases hg : groups fuel ps ds with
            | none =>
              rw [hg] at hsub
              intro gs hgs
              cases hgs with
              | char h => exact hsub _ h
            | some gs =>
              rw [hg] at hsub
              refine ⟨.char hsub.1, fun gs' hgs' => ?_⟩
              cases hgs' with
              | char h => exact hsub.2 _ h
          · rename_i hcd
            intro gs hgs
            cases hgs
            exact hcd rfl
      | group =>
        cases text with
        | nil =>
          intro gs hgs
          cases hgs
        | cons d ds =>
          simp only [List.length_cons] at hfuel
          show Answers _ _ (if d = '/' then none else grow d <$> groups fuel (.more :: ps) ds)
          split
          · rename_i hd
            intro gs hgs
            cases hgs with
            | group hne => exact hne hd
          rename_i hd
          refine answers_grow (ih (.more :: ps) ds (by simp; omega)) (fun g gs h => .group hd h) ?_
          intro gs hgs
          cases hgs with
          | group _ h => exact ⟨_, _, rfl, h⟩
      | more =>
        have hstop := ih ps text (by omega)
        cases hg : groups fuel ps text with
        | some gs =>
          have hgroups : groups (fuel + 1) (.more :: ps) text = some ([] :: gs) := by
            simp [groups, hg]
          rw [hg] at hstop
          rw [hgroups]
          refine ⟨.stop hstop.1, fun gs' hgs' => ?_⟩
          cases hgs' with
          | stop h => simpa [Earlier] using hstop.2 _ h
          | more _ h => simp [Earlier]
        | none =>
          rw [hg] at hstop
          cases text with
          | nil =>
            have hgroups : groups (fuel + 1) (.more :: ps) [] = none := by simp [groups, hg]
            rw [hgroups]
            intro gs hgs
            cases hgs with
            | stop h => exact hstop _ h
          | cons d ds =>
            simp only [List.length_cons] at hfuel
            have hgroups : groups (fuel + 1) (.more :: ps) (d :: ds) =
                if d = '/' then none else grow d <$> groups fuel (.more :: ps) ds := by
              simp [groups, hg]
            rw [hgroups]
            split
            · rename_i hd
              intro gs hgs
              cases hgs with
              | stop h => exact hstop _ h
              | more hne => exact hne hd
            rename_i hd
            refine answers_grow (ih (.more :: ps) ds (by simp; omega)) (fun g gs h => .more hd h) ?_
            intro gs hgs
            cases hgs with
            | stop h => exact absurd h (hstop _)
            | more _ h => exact ⟨_, _, rfl, h⟩

variable {gs : List (List Char)}

theorem pReads_more_iff :
    PReads (.more :: ps) text gs ↔ ∃ v rest gs', gs = v :: gs' ∧ text = v ++ rest ∧
      (∀ c ∈ v, c ≠ '/') ∧ PReads ps rest gs' := by
  constructor
  · intro h
    generalize hqs : Piece.more :: ps = qs at h
    induction h with
    | nil => cases hqs
    | char h ih => cases hqs
    | group hd h ih => cases hqs
    | stop h ih =>
      cases hqs
      exact ⟨[], _, _, rfl, rfl, by simp, h⟩
    | more hd h ih =>
      obtain ⟨v, rest, gs', hgs, rfl, hv, hrest⟩ := ih hqs
      cases hgs
      exact ⟨_ :: _, rest, _, rfl, rfl, by simpa [hd] using hv, hrest⟩
  · intro h
    obtain ⟨v, rest, gs', rfl, rfl, hv, hrest⟩ := h
    induction v with
    | nil => exact .stop hrest
    | cons c v ih =>
      simp only [List.mem_cons, forall_eq_or_imp] at hv
      exact .more hv.1 (ih hv.2)

theorem pReads_group_iff :
    PReads (.group :: ps) text gs ↔ ∃ v rest gs', gs = v :: gs' ∧ text = v ++ rest ∧
      (v ≠ [] ∧ ∀ c ∈ v, c ≠ '/') ∧ PReads ps rest gs' := by
  constructor
  · intro h
    cases h with
    | group hd h =>
      obtain ⟨v, rest, gs', hgs, rfl, hv, hrest⟩ := pReads_more_iff.mp h
      cases hgs
      exact ⟨_ :: _, rest, _, rfl, rfl, ⟨by simp, by simpa [hd] using hv⟩, hrest⟩
  · intro h
    obtain ⟨v, rest, gs', rfl, rfl, ⟨hne, hv⟩, hrest⟩ := h
    obtain ⟨d, v, rfl⟩ := List.exists_cons_of_ne_nil hne
    simp only [List.mem_cons, forall_eq_or_imp] at hv
    exact .group hv.1 (pReads_more_iff.mpr ⟨v, rest, gs', rfl, rfl, hv.2, hrest⟩)

theorem pReads_chars_iff {chars : List Char} :
    PReads (chars.map .char ++ ps) text gs ↔ ∃ rest, text = chars ++ rest ∧ PReads ps rest gs := by
  induction chars generalizing text with
  | nil => simp
  | cons c chars ih =>
    constructor
    · intro h
      cases h with
      | char h =>
        obtain ⟨rest, rfl, hrest⟩ := ih.mp h
        exact ⟨rest, rfl, hrest⟩
    · intro h
      obtain ⟨rest, rfl, hrest⟩ := h
      exact .char (ih.mpr ⟨rest, rfl, hrest⟩)

/-- The pieces of a template. -/
def piecesOf : List Part → List Piece
  | [] => []
  | .literal text :: rest => text.toList.map .char ++ piecesOf rest
  | .field _ :: rest => .group :: piecesOf rest

/-- Reading by pieces is reading an instance of the template. -/
theorem pReads_iff {parts : List Part} : PReads (piecesOf parts) text gs ↔
      ∃ rest, text = leadOf parts ++ rest ∧ Reading (· ≠ '/') (gapsOf parts) rest gs := by
  induction parts generalizing text gs with
  | nil =>
    constructor
    · intro h
      cases h
      exact ⟨[], rfl, rfl, by simp [Values], rfl⟩
    · intro h
      obtain ⟨rest, htext, hread⟩ := h
      obtain rfl := List.length_eq_zero_iff.mp hread.length_eq.symm
      have hrest : [] = rest := hread.fill_eq
      rw [htext, ← hrest]
      exact .nil
  | cons part rest ih =>
    cases part with
    | literal text' =>
      simp only [piecesOf, pReads_chars_iff, ih, leadOf, gapsOf]
      constructor
      · rintro ⟨_, rfl, tail, rfl, hread⟩
        exact ⟨tail, by simp, hread⟩
      · rintro ⟨tail, rfl, hread⟩
        exact ⟨_, by simp, tail, rfl, hread⟩
    | field f =>
      simp only [piecesOf, pReads_group_iff, ih, leadOf, gapsOf, List.nil_append]
      constructor
      · rintro ⟨v, _, gs', rfl, rfl, hv, tail, rfl, hread⟩
        refine ⟨_, rfl, by simp [hread.length_eq], ?_, by simp [hread.fill_eq]⟩
        intro w hw
        obtain rfl | hw := List.mem_cons.mp hw
        · exact hv
        · exact hread.values w hw
      · rintro ⟨tail, rfl, hread⟩
        cases gs with
        | nil => cases hread.length_eq
        | cons v gs =>
          have hfill := hread.fill_eq
          simp only [fill_cons, List.append_assoc] at hfill
          exact ⟨v, _, gs, rfl, hfill.symm, hread.values v (.head _), _, rfl,
            Nat.succ.inj hread.length_eq, hread.values.tail, rfl⟩

/-! ## 4. The pattern of a template is read as its pieces -/

theorem toList_escape (text : String) : (escape text).toList =
    text.toList.flatMap fun c => if isMeta c then ['\\', c] else [c] := by
  unfold escape
  rw [String.toList_ofList]
  refine congrArg (text.toList.flatMap ·) (funext fun c => ?_)
  exact if_congr (by rw [isMeta, decide_eq_true_eq]) rfl rfl

theorem parsePieces_chars (text rest : List Char) :
    parsePieces ((text.flatMap fun c => if isMeta c then ['\\', c] else [c]) ++ rest) =
      (parsePieces rest).map (text.map .char ++ ·) := by
  induction text with
  | nil => simp
  | cons c text ih =>
    rw [List.flatMap_cons, List.append_assoc]
    by_cases hc : isMeta c = true
    · rw [if_pos hc, List.cons_append, List.cons_append, List.nil_append, parsePieces.eq_3,
        if_pos hc, ih]
      cases parsePieces rest <;> rfl
    rw [if_neg hc, List.cons_append, List.nil_append]
    -- none of the characters that mean something in a pattern
    have hne : ∀ d, isMeta d = true → c ≠ d := by
      rintro d hd rfl
      exact hc hd
    rw [parsePieces.eq_4 _ _ (fun h => absurd h (hne _ (by decide)))
      (fun _ h => absurd h (hne _ (by decide)))
      (fun _ _ h => absurd h (hne _ (by decide))), if_neg hc, ih]
    cases parsePieces rest <;> rfl

theorem parsePieces_parts (parts : List Part) (rest : List Char) :
    parsePieces ((String.join (parts.map fun
      | .literal text => escape text
      | .field _ => "([^/]+?)")).toList ++ rest) =
      (parsePieces rest).map (piecesOf parts ++ ·) := by
  rw [String.toList_join]
  induction parts with
  | nil => simp [piecesOf]
  | cons part parts ih =>
    rw [List.map_cons, List.flatMap_cons, List.append_assoc]
    cases part with
    | literal text =>
      rw [toList_escape, parsePieces_chars, ih]
      cases parsePieces rest <;> simp [piecesOf]
    | field f =>
      have hgroup : "([^/]+?)".toList = ['(', '[', '^', '/', ']', '+', '?', ')'] := by decide
      rw [hgroup]
      simp only [List.cons_append, List.nil_append]
      rw [parsePieces.eq_2, ih]
      cases parsePieces rest <;> rfl

theorem toList_matcherPattern (parts : List Part) : (matcherPattern parts).toList =
    '^' :: ((String.join (parts.map fun
      | .literal text => escape text
      | .field _ => "([^/]+?)")).toList ++ ['$']) := by
  unfold matcherPattern
  rw [String.toList_append, String.toList_append]
  rfl

theorem parsePieces_matcherPattern (parts : List Part) : parsePieces ((String.join (parts.map fun
      | .literal text => escape text
      | .field _ => "([^/]+?)")).toList ++ ['$']) = some (piecesOf parts) := by
  rw [parsePieces_parts, parsePieces.eq_1]
  simp

/-! ## 5. Leftmost and lazy -/

/-- What the crate promises for patterns of this kind: the groups are those of the match that is
    preferred when groups are lazy, and there is none if the text does not match. -/
def LeftmostLazy (E : RegexEngine) : Prop :=
  ∀ (pattern : String) rest ps m, pattern.toList = '^' :: rest → parsePieces rest = some ps →
    E.compile pattern = .ok m → ∀ (text : String) answer, Answers ps text.toList answer →
      E.captures m text = answer.map fun gs => some text :: gs.map fun g => some (String.ofList g)

/-- Then the groups of a template's matcher are the first reading, since its literals are read as
    themselves. -/
theorem LeftmostLazy.takesFirst {E : RegexEngine} (hE : LeftmostLazy E) : E.TakesFirst := by
  intro parts m hm text rest vs htext hfirst
  have hreads : ∀ gs, PReads (piecesOf parts) text.toList gs ↔
      Reading (· ≠ '/') (gapsOf parts) rest gs := by
    intro gs
    rw [pReads_iff]
    constructor
    · intro ⟨rest', heq, hread⟩
      rw [htext] at heq
      rw [List.append_cancel_left heq]
      exact hread
    · intro hread
      exact ⟨rest, htext, hread⟩
  have hanswer : Answers (piecesOf parts) text.toList (some vs) :=
    ⟨(hreads vs).mpr hfirst.1, fun ws hws => hfirst.2 ws ((hreads ws).mp hws)⟩
  exact hE _ _ _ m (toList_matcherPattern parts) (parsePieces_matcherPattern parts) hm text _ hanswer

/-- Of two different readings one is earlier: where they part, one stops and the other goes on. -/
theorem PReads.trichotomy {hs : List (List Char)} (hg : PReads ps text gs)
    (hh : PReads ps text hs) : gs = hs ∨ Earlier gs hs ∨ Earlier hs gs := by
  have hgrow : ∀ {d : Char} {g h : List Char} {gs hs : List (List Char)},
      (g :: gs = h :: hs ∨ Earlier (g :: gs) (h :: hs) ∨ Earlier (h :: hs) (g :: gs)) →
      (d :: g) :: gs = (d :: h) :: hs ∨ Earlier ((d :: g) :: gs) ((d :: h) :: hs) ∨
        Earlier ((d :: h) :: hs) ((d :: g) :: gs) := by
    intro d g h gs hs hcases
    simpa [Earlier] using hcases
  induction hg generalizing hs with
  | nil =>
    cases hh
    exact .inl rfl
  | char _ ih =>
    cases hh with
    | char hh => exact ih hh
  | group _ _ ih =>
    cases hh with
    | group _ hh => exact hgrow (ih hh)
  | stop _ ih =>
    cases hh with
    | stop hh => simpa [Earlier] using ih hh
    | more _ hh => simp [Earlier]
  | more _ _ ih =>
    cases hh with
    | stop hh => simp [Earlier]
    | more _ hh => exact hgrow (ih hh)

theorem Answers.unique {a b : Option (List (List Char))} (ha : Answers ps text a)
    (hb : Answers ps text b) : a = b := by
  cases a with
  | none =>
    cases b with
    | none => rfl
    | some hs => exact absurd hb.1 (ha hs)
  | some gs =>
    cases b with
    | none => exact absurd ha.1 (hb gs)
    | some hs =>
      obtain hsame | hlt | hgt := ha.1.trichotomy hb.1
      · rw [hsame]
      · exact absurd hlt (hb.2 gs ha.1)
      · exact absurd hgt (ha.2 hs hb.1)

theorem templateEngine_leftmostLazy : LeftmostLazy templateEngine := by
  intro pattern rest ps m hpattern hparse hm text answer hanswer
  simp only [templateEngine, hpattern, hparse] at hm
  obtain rfl := Except.ok.inj hm
  have hgroups := groups_answers (text.length + ps.length * 2 + 1) ps text.toList
    (by rw [String.length_toList]; omega)
  show Option.map _ (groups _ ps _) = _
  rw [hgroups.unique hanswer]

/-- **The engine of templates takes the first reading.** -/
theorem templateEngine_takesFirst : templateEngine.TakesFirst := templateEngine_leftmostLazy.takesFirst

end Matcher

/-! ## 6. Cutting an ID -/

/-- A text cut into the literals of a template, in their order, and a piece for each placeholder. -/
inductive Cut : List Part → List Char → List (List Char) → Prop
  | nil : Cut [] [] []
  | literal {text parts rest pieces} : Cut parts rest pieces →
      Cut (.literal text :: parts) (text.toList ++ rest) pieces
  | field {f parts piece rest pieces} : piece ≠ [] → '/' ∉ piece → Cut parts rest pieces →
      Cut (.field f :: parts) (piece ++ rest) (piece :: pieces)

theorem cut_iff {parts : List Part} {text : List Char} {pieces : List (List Char)} :
    Cut parts text pieces ↔ Matcher.PReads (Matcher.piecesOf parts) text pieces := by
  induction parts generalizing text pieces with
  | nil =>
    constructor
    · intro h
      cases h
      exact .nil
    · intro h
      cases h
      exact .nil
  | cons part parts ih =>
    cases part with
    | literal lit =>
      rw [Matcher.piecesOf, Matcher.pReads_chars_iff]
      constructor
      · intro h
        cases h with
        | literal hrest => exact ⟨_, rfl, ih.mp hrest⟩
      · intro h
        obtain ⟨rest, rfl, hrest⟩ := h
        exact .literal (ih.mpr hrest)
    | field f =>
      rw [Matcher.piecesOf, Matcher.pReads_group_iff]
      constructor
      · intro h
        cases h with
        | field hne hslash hrest =>
          exact ⟨_, _, _, rfl, rfl, ⟨hne, fun c hc heq => hslash (heq ▸ hc)⟩, ih.mp hrest⟩
      · intro h
        obtain ⟨piece, rest, pieces, rfl, rfl, ⟨hne, hslash⟩, hrest⟩ := h
        exact .field hne (fun hmem => hslash _ hmem rfl) (ih.mpr hrest)

section

variable {E : RegexEngine} {t : IdTemplate E} {id : String}

/-- The values are the pieces of a cut, and there are values if there is a cut. -/
theorem attributesOf_of_cut (hE : Matcher.LeftmostLazy E) (ht : t.Compiled)
    {pieces : List (List Char)} (h : Cut t.parts id.toList pieces) :
    ∃ back, t.attributesOf id = some back ∧
      Cut t.parts id.toList (t.fields.map fun f => (back.get f).toList) := by
  obtain ⟨rest, hid, hread⟩ := Matcher.pReads_iff.mp (cut_iff.mp h)
  obtain ⟨vs, hfirst⟩ := hread.exists_first
  obtain ⟨back, hback, hin, -⟩ := attributesOf_first hE.takesFirst ht hid hfirst
  refine ⟨back, hback, cut_iff.mpr (Matcher.pReads_iff.mpr ⟨rest, hid, ?_⟩)⟩
  have hlen : vs.length = (fieldsOf t.parts).length := by
    rw [← length_gapsOf, hfirst.1.length_eq]
  have hvalues : t.fields.map (fun f => (back.get f).toList) = vs := by
    rw [ht.fields_eq]
    apply List.ext_getElem?
    intro i
    rw [List.getElem?_map]
    cases hi : (fieldsOf t.parts)[i]? with
    | none => rw [List.getElem?_eq_none (hlen ▸ List.getElem?_eq_none_iff.mp hi)]; rfl
    | some f => exact (hin i f hi).symm
  rw [hvalues]
  exact hfirst.1

theorem attributesOf_of_no_cut (hE : Matcher.LeftmostLazy E) (ht : t.Compiled)
    (h : ∀ pieces, ¬ Cut t.parts id.toList pieces) : t.attributesOf id = none := by
  have hanswer : Matcher.Answers (Matcher.piecesOf t.parts) id.toList none :=
    fun pieces hreads => h pieces (cut_iff.mpr hreads)
  unfold IdTemplate.attributesOf
  rw [hE _ _ _ _ (Matcher.toList_matcherPattern t.parts)
    (Matcher.parsePieces_matcherPattern t.parts) ht.matcher id none hanswer]
  rfl

/-- **`attributes_of` reads what can be cut, and nothing else**, and its values are a cut. -/
theorem attributes_of_iff_cut (hE : Matcher.LeftmostLazy E) {raw : String}
    (h : IdTemplate.compile raw = .ok t) (id : String) :
    ((t.attributesOf id).isSome ↔ ∃ pieces, Cut t.parts id.toList pieces) ∧
    ∀ back, t.attributesOf id = some back →
      Cut t.parts id.toList (t.fields.map fun f => (back.get f).toList) := by
  have ht := IdTemplate.compiled h
  by_cases hcut : ∃ pieces, Cut t.parts id.toList pieces
  · obtain ⟨pieces, hpieces⟩ := hcut
    obtain ⟨back, hback, hvalues⟩ := attributesOf_of_cut hE ht hpieces
    refine ⟨by simp [hback, Exists.intro pieces hpieces], ?_⟩
    intro other hother
    rw [← Option.some.inj (hback.symm.trans hother)]
    exact hvalues
  · have hnone := attributesOf_of_no_cut hE ht (not_exists.mp hcut)
    simp [hnone, hcut]

end

theorem attributes_of_iff_cut_slash :
    slashTemplate.attributesOf "spiffe://c/n" = some { cluster := "c", ns := "n" } ∧
    Cut slashTemplate.parts "spiffe://c/n".toList [['c'], ['n']] := by
  have hread : slashTemplate.attributesOf "spiffe://c/n" = some { cluster := "c", ns := "n" } := by
    decide
  exact ⟨hread, (attributes_of_iff_cut Matcher.templateEngine_leftmostLazy
    (ok_of_isSome slash_compiles) _).2 _ hread⟩

end Svidlet.Issue
