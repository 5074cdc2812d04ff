import Svidlet.Issue.Rendering

/-!
# How a template is read

`split` goes through a template once, from left to right, in one of two modes: outside a placeholder,
where a doubled brace is a brace, and inside one, where nothing is special but the `}` that ends it.
The other direction is printing: double the braces of a literal, put a field between single ones.

> `split (printParts parts) = .ok parts`, if no literal is empty and no two are neighbours.

Runs of braces look as if they could be read in more than one way, `{{{cluster}}}` say. They cannot:
whatever a template begins with, one of seven things is to be done (`scan_induction`), and the two modes
of the scanner come down to one equation for each (section 2). That gives the round trip, and also
what a template is refused for (`Meets`): a `}` by itself, a placeholder without end, or one with a name
that no field has.
-/

namespace Svidlet.Issue

open Lib

/-! ## 1. Seven ways to begin -/

/-- What stands between the braces of a placeholder. -/
structure PlaceholderName (name : List Char) : Prop where
  /-- Two braces would be a literal one. -/
  single : name.head? ≠ some '{'
  /-- The first `}` ends it. -/
  closed : '}' ∉ name

/-- The seven cases of a text that is read from left to right. -/
theorem scan_induction {motive : List Char → Prop} (nil : motive [])
    (openBrace : ∀ rest, motive rest → motive ('{' :: '{' :: rest))
    (closeBrace : ∀ rest, motive rest → motive ('}' :: '}' :: rest))
    (placeholder : ∀ name rest, PlaceholderName name → motive rest → motive ('{' :: (name ++ '}' :: rest)))
    (unclosed : ∀ name, PlaceholderName name → motive ('{' :: name))
    (stray : ∀ rest, rest.head? ≠ some '}' → motive ('}' :: rest))
    (plain : ∀ c rest, c ≠ '{' → c ≠ '}' → motive rest → motive (c :: rest)) (chars : List Char) :
    motive chars := by
  -- a placeholder takes more than one character, so the length goes down and not the list
  induction hlen : chars.length using Nat.strongRecOn generalizing chars with
  | ind n ih =>
  subst hlen
  cases chars with
  | nil => exact nil
  | cons c rest =>
    have hsub : ∀ tail : List Char, tail.length < (c :: rest).length → motive tail :=
      fun tail hlt => ih tail.length hlt tail rfl
    by_cases hopen : c = '{'
    · subst hopen
      by_cases hdouble : rest.head? = some '{'
      · obtain ⟨tail, rfl⟩ := List.head?_eq_some_iff.mp hdouble
        exact openBrace tail (hsub tail (by simp only [List.length_cons]; omega))
      cases hsplit : splitOnce '}' rest with
      | none => exact unclosed rest ⟨hdouble, splitOnce_none hsplit⟩
      | some pair =>
        obtain ⟨name, tail⟩ := pair
        have hrest := splitOnce_eq hsplit
        subst hrest
        have hsingle : name.head? ≠ some '{' := by
          intro hhead
          obtain ⟨more, rfl⟩ := List.head?_eq_some_iff.mp hhead
          exact hdouble rfl
        apply placeholder name tail ⟨hsingle, splitOnce_not_mem hsplit⟩
        apply hsub
        simp only [List.length_cons, List.length_append]
        omega
    · by_cases hclose : c = '}'
      · subst hclose
        by_cases hdouble : rest.head? = some '}'
        · obtain ⟨tail, rfl⟩ := List.head?_eq_some_iff.mp hdouble
          exact closeBrace tail (hsub tail (by simp only [List.length_cons]; omega))
        · exact stray rest hdouble
      · exact plain c rest hopen hclose (hsub rest (by simp))

/-! ## 2. What `split` does in each of them -/

section

variable {raw : String} {text rest name : List Char} {parts : List Part}

/-- What is wrong with a template, where it goes wrong. -/
inductive Flaw where
  | stray
  | unclosed (name : List Char)
  | unknown (name : List Char)

/-- How `split` says so. -/
def Flaw.error (raw : String) : Flaw → Error
  | .stray => .config ("SPIFFE ID template " ++ debugStr raw
      ++ " has an unmatched \x7d; write \x7d\x7d for a literal brace")
  | .unclosed name => .config ("SPIFFE ID template " ++ debugStr raw ++ " has an unclosed \x7b"
      ++ String.ofList name)
  | .unknown name => .config ("SPIFFE ID template " ++ debugStr raw ++ " uses unknown placeholder "
      ++ Field.braced (String.ofList name) ++ "; known placeholders are " ++ Field.known)

/-- The field that a placeholder names. -/
def fieldNamed (name : List Char) : Option Field := Field.parse (trim (String.ofList name))

theorem splitTemplate_openBrace : splitTemplate raw ('{' :: '{' :: rest) none text parts =
    splitTemplate raw rest none (text ++ ['{']) parts := by
  rw [splitTemplate]

theorem splitTemplate_closeBrace : splitTemplate raw ('}' :: '}' :: rest) none text parts =
    splitTemplate raw rest none (text ++ ['}']) parts := by
  rw [splitTemplate]

theorem splitTemplate_stray (h : rest.head? ≠ some '}') :
    splitTemplate raw ('}' :: rest) none text parts = .error (Flaw.stray.error raw) := by
  rw [splitTemplate]
  · rfl
  · rintro tail rfl
    exact h rfl

theorem splitTemplate_plain {c : Char} (hopen : c ≠ '{') (hclose : c ≠ '}') :
    splitTemplate raw (c :: rest) none text parts = splitTemplate raw rest none (text ++ [c]) parts := by
  rw [splitTemplate]
  · exact fun _ h => absurd h hopen
  · exact fun _ h => absurd h hclose
  · exact hopen
  · exact hclose

/-- The second mode: up to the `}`, whatever comes. -/
theorem splitTemplate_inside {tail : List Char} (h : '}' ∉ name) (front : List Char) :
    splitTemplate raw (name ++ tail) (some front) text parts =
      splitTemplate raw tail (some (front ++ name)) text parts := by
  induction name generalizing front with
  | nil => simp
  | cons c name ih =>
    simp only [List.mem_cons, not_or] at h
    rw [List.cons_append, splitTemplate]
    · rw [ih h.2]
      simp
    · exact fun hc => h.1 hc.symm

theorem splitTemplate_enter (h : rest.head? ≠ some '{') :
    splitTemplate raw ('{' :: rest) none text parts = splitTemplate raw rest (some []) text parts := by
  rw [splitTemplate]
  rintro tail rfl
  exact h rfl

theorem splitTemplate_unclosed (h : PlaceholderName name) :
    splitTemplate raw ('{' :: name) none text parts = .error ((Flaw.unclosed name).error raw) := by
  have hinside : splitTemplate raw name (some []) text parts =
      splitTemplate raw [] (some ([] ++ name)) text parts := by
    rw [← splitTemplate_inside h.closed, List.append_nil]
  rw [splitTemplate_enter h.single, hinside]
  rfl

theorem splitTemplate_placeholder (h : PlaceholderName name) :
    splitTemplate raw ('{' :: (name ++ '}' :: rest)) none text parts =
      match fieldNamed name with
      | some field => splitTemplate raw rest none [] (pushLiteral parts text ++ [.field field])
      | none => .error ((Flaw.unknown name).error raw) := by
  have hsingle : (name ++ '}' :: rest).head? ≠ some '{' := by
    cases name with
    | nil => simp
    | cons c name => exact h.single
  rw [splitTemplate_enter hsingle, splitTemplate_inside h.closed, List.nil_append, splitTemplate]
  rfl

end

/-! ## 3. What is refused -/

/-- Read from the left, the text comes to a flaw. -/
inductive Meets : List Char → Flaw → Prop
  | stray {rest : List Char} : rest.head? ≠ some '}' → Meets ('}' :: rest) .stray
  | unclosed {name : List Char} : PlaceholderName name → Meets ('{' :: name) (.unclosed name)
  | unknown {name rest : List Char} : PlaceholderName name → fieldNamed name = none →
      Meets ('{' :: (name ++ '}' :: rest)) (.unknown name)
  | openBrace {rest : List Char} {flaw : Flaw} : Meets rest flaw → Meets ('{' :: '{' :: rest) flaw
  | closeBrace {rest : List Char} {flaw : Flaw} : Meets rest flaw → Meets ('}' :: '}' :: rest) flaw
  | placeholder {name rest : List Char} {field : Field} {flaw : Flaw} : PlaceholderName name →
      fieldNamed name = some field → Meets rest flaw → Meets ('{' :: (name ++ '}' :: rest)) flaw
  | plain {c : Char} {rest : List Char} {flaw : Flaw} : c ≠ '{' → c ≠ '}' → Meets rest flaw →
      Meets (c :: rest) flaw

variable {raw : String}

/-- What is met is what the scan says, with any literal and any parts before. -/
theorem Meets.splitTemplate {chars : List Char} {flaw : Flaw} (h : Meets chars flaw) :
    ∀ text parts, splitTemplate raw chars none text parts = .error (flaw.error raw) := by
  induction h with
  | stray h => exact fun _ _ => splitTemplate_stray h
  | unclosed h => exact fun _ _ => splitTemplate_unclosed h
  | unknown h hname =>
    intro text parts
    rw [splitTemplate_placeholder h, hname]
  | openBrace _ ih =>
    intro text parts
    rw [splitTemplate_openBrace]
    exact ih _ _
  | closeBrace _ ih =>
    intro text parts
    rw [splitTemplate_closeBrace]
    exact ih _ _
  | placeholder h hname _ ih =>
    intro text parts
    rw [splitTemplate_placeholder h, hname]
    exact ih _ _
  | plain hopen hclose _ ih =>
    intro text parts
    rw [splitTemplate_plain hopen hclose]
    exact ih _ _

/-- A text without a flaw is read to its end. -/
theorem splitTemplate_total (raw : String) (chars : List Char) :
    (∃ flaw, Meets chars flaw) ∨ ∀ text parts, ∃ out, splitTemplate raw chars none text parts = .ok out := by
  induction chars using scan_induction with
  | nil => exact .inr fun text parts => ⟨_, rfl⟩
  | openBrace rest ih =>
    obtain ⟨flaw, hflaw⟩ | hok := ih
    · exact .inl ⟨flaw, .openBrace hflaw⟩
    · refine .inr fun text parts => ?_
      rw [splitTemplate_openBrace]
      exact hok _ _
  | closeBrace rest ih =>
    obtain ⟨flaw, hflaw⟩ | hok := ih
    · exact .inl ⟨flaw, .closeBrace hflaw⟩
    · refine .inr fun text parts => ?_
      rw [splitTemplate_closeBrace]
      exact hok _ _
  | placeholder name rest hname ih =>
    cases hfield : fieldNamed name with
    | none => exact .inl ⟨_, .unknown hname hfield⟩
    | some field =>
      obtain ⟨flaw, hflaw⟩ | hok := ih
      · exact .inl ⟨flaw, .placeholder hname hfield hflaw⟩
      · refine .inr fun text parts => ?_
        rw [splitTemplate_placeholder hname, hfield]
        exact hok _ _
  | unclosed name hname => exact .inl ⟨_, .unclosed hname⟩
  | stray rest hrest => exact .inl ⟨_, .stray hrest⟩
  | plain c rest hopen hclose ih =>
    obtain ⟨flaw, hflaw⟩ | hok := ih
    · exact .inl ⟨flaw, .plain hopen hclose hflaw⟩
    · refine .inr fun text parts => ?_
      rw [splitTemplate_plain hopen hclose]
      exact hok _ _

theorem split_error_iff {e : Error} :
    split raw = .error e ↔ ∃ flaw, Meets raw.toList flaw ∧ e = flaw.error raw := by
  unfold split
  constructor
  · intro h
    obtain ⟨flaw, hflaw⟩ | hok := splitTemplate_total raw raw.toList
    · rw [hflaw.splitTemplate] at h
      exact ⟨flaw, hflaw, (Except.error.inj h).symm⟩
    · obtain ⟨out, hout⟩ := hok [] []
      rw [hout] at h
      cases h
  · intro h
    obtain ⟨flaw, hflaw, rfl⟩ := h
    exact hflaw.splitTemplate _ _

/-! ## 4. Printing -/

def double (c : Char) : List Char := if c = '{' ∨ c = '}' then [c, c] else [c]

def printPart : Part → List Char
  | .literal text => text.toList.flatMap double
  | .field f => '{' :: (f.asStr.toList ++ ['}'])

def printParts (parts : List Part) : String := String.ofList (parts.flatMap printPart)

/-- The text of a literal is read back, wherever it stands. -/
theorem splitTemplate_double (literal rest text : List Char) (parts : List Part) :
    splitTemplate raw (literal.flatMap double ++ rest) none text parts =
      splitTemplate raw rest none (text ++ literal) parts := by
  induction literal generalizing text with
  | nil => simp
  | cons c literal ih =>
    have hnext : splitTemplate raw (double c ++ (literal.flatMap double ++ rest)) none text parts =
        splitTemplate raw (literal.flatMap double ++ rest) none (text ++ [c]) parts := by
      by_cases hopen : c = '{'
      · subst hopen
        exact splitTemplate_openBrace
      by_cases hclose : c = '}'
      · subst hclose
        exact splitTemplate_closeBrace
      · rw [double, if_neg (not_or.mpr ⟨hopen, hclose⟩)]
        exact splitTemplate_plain hopen hclose
    rw [List.flatMap_cons, List.append_assoc, hnext, ih]
    simp

theorem placeholderName_asStr (f : Field) : PlaceholderName f.asStr.toList := by
  constructor
  · cases f <;> decide
  · cases f <;> decide

theorem fieldNamed_asStr (f : Field) : fieldNamed f.asStr.toList = some f := by
  cases f <;> decide

theorem splitTemplate_field (f : Field) (rest text : List Char) (parts : List Part) :
    splitTemplate raw (printPart (.field f) ++ rest) none text parts =
      splitTemplate raw rest none [] (pushLiteral parts text ++ [.field f]) := by
  have hprinted : printPart (.field f) ++ rest = '{' :: (f.asStr.toList ++ '}' :: rest) := by
    simp [printPart]
  rw [hprinted, splitTemplate_placeholder (placeholderName_asStr f), fieldNamed_asStr]

/-- No literal is empty. -/
def NoEmptyLiteral (parts : List Part) : Prop := ∀ text, .literal text ∈ parts → text ≠ ""

/-- No two literals are neighbours. -/
def NeverAdjacent (parts : List Part) : Prop :=
  ∀ before s t after, parts ≠ before ++ .literal s :: .literal t :: after

theorem NeverAdjacent.tail {part : Part} {parts : List Part} (h : NeverAdjacent (part :: parts)) :
    NeverAdjacent parts := by
  intro before s t after heq
  exact h (part :: before) s t after (by rw [heq]; rfl)

theorem NeverAdjacent.after_literal {s : String} {parts : List Part}
    (h : NeverAdjacent (.literal s :: parts)) (t : String) (after : List Part) :
    parts ≠ .literal t :: after := by
  intro heq
  exact h [] s t after (by rw [heq]; rfl)

/-- A literal that is still being read can only be followed by a field. -/
theorem splitTemplate_printed {printed : List Part} (hne : NoEmptyLiteral printed)
    (hadj : NeverAdjacent printed) (text : List Char) (parts : List Part)
    (hopen : text = [] ∨ ∀ t after, printed ≠ .literal t :: after) :
    splitTemplate raw (printed.flatMap printPart) none text parts =
      .ok (pushLiteral parts text ++ printed) := by
  induction printed generalizing text parts with
  | nil => simp [splitTemplate]
  | cons part printed ih =>
    have hne' : NoEmptyLiteral printed := fun t ht => hne t (.tail _ ht)
    rw [List.flatMap_cons]
    cases part with
    | literal t =>
      obtain rfl | hno := hopen
      · have ht : t.toList ≠ [] := by
          rw [Ne, String.toList_eq_nil_iff]
          exact hne t (.head _)
        rw [printPart, splitTemplate_double, ih hne' hadj.tail _ _ (.inr hadj.after_literal)]
        simp [pushLiteral, ht]
      · exact absurd rfl (hno t printed)
    | field f =>
      rw [splitTemplate_field, ih hne' hadj.tail _ _ (.inl rfl)]
      simp [pushLiteral]

/-! ## 5. Both together -/

/-- **Splitting undoes printing**, and what is refused is what has a stray brace, a placeholder that
    is not closed or one with a name that is not known. -/
theorem split_inverts_printing :
    (∀ parts, NoEmptyLiteral parts → NeverAdjacent parts → split (printParts parts) = .ok parts) ∧
      ∀ raw, (∃ e, split raw = .error e) ↔ ∃ flaw, Meets raw.toList flaw := by
  constructor
  · intro parts hne hadj
    unfold split printParts
    rw [String.toList_ofList, splitTemplate_printed hne hadj [] [] (.inl rfl)]
    rfl
  · intro raw
    constructor
    · intro h
      obtain ⟨e, he⟩ := h
      obtain ⟨flaw, hflaw, -⟩ := split_error_iff.mp he
      exact ⟨flaw, hflaw⟩
    · intro h
      obtain ⟨flaw, hflaw⟩ := h
      exact ⟨_, split_error_iff.mpr ⟨flaw, hflaw, rfl⟩⟩

/-- A template with braces in its literals and two placeholders side by side, and one with a stray
    brace. -/
theorem split_inverts_printing_braces :
    split (printParts [.literal "a\x7b\x7d", .field .cluster, .field .ns, .literal "\x7db"])
        = .ok [.literal "a\x7b\x7d", .field .cluster, .field .ns, .literal "\x7db"] ∧
      ∃ flaw, Meets "a\x7db".toList flaw := by
  refine ⟨split_inverts_printing.1 _ ?_ ?_, (split_inverts_printing.2 _).mp ⟨_, rfl⟩⟩
  · intro text hmem
    simp only [List.mem_cons, Part.literal.injEq, reduceCtorEq, List.not_mem_nil, or_false,
      false_or] at hmem
    rcases hmem with rfl | rfl <;> decide
  · rintro (_ | ⟨_, _ | ⟨_, _ | ⟨_, _ | ⟨_, before⟩⟩⟩⟩) s t after heq <;> simp at heq

end Svidlet.Issue
