import Mathlib

/-!
# Regular expressions over text

An expression is matched *somewhere in a text*: between what is left of it and what is right of it.
That is what gives `^` and `$` a meaning, and it is the meaning of a search: an expression is found in
a text if some part of the text matches where it stands.

> `r.Holds left middle right` — `r` matches `middle`, which stands between `left` and `right`;
> `r.Matches text`            — `r` matches the whole of `text`;
> `r.Found text`              — a search for `r` in `text` succeeds;
> `r.language`                — for an expression without anchors, the texts it matches, wherever
>                               they stand.

Which of several matches a search reports does not matter here, so greedy and lazy repetition are
the same. Section 4 computes `Holds`, so that a search can be run.
-/

namespace Svidlet.Lib

/-! ## 1. Expressions -/

/-- A member of a bracketed class: what is in some ranges, or what is not. -/
structure ClassItem where
  ranges : List (Char × Char)
  negated : Bool := false
  deriving DecidableEq, Repr

namespace ClassItem

def has (item : ClassItem) (c : Char) : Bool :=
  (item.ranges.any fun range => range.1 ≤ c && c ≤ range.2) != item.negated

def one (c : Char) : ClassItem := ⟨[(c, c)], false⟩

-- the named sets are ASCII
def digit : ClassItem := ⟨[('0', '9')], false⟩
def space : ClassItem := ⟨[('\t', '\r'), (' ', ' ')], false⟩
def word : ClassItem := ⟨[('0', '9'), ('A', 'Z'), ('_', '_'), ('a', 'z')], false⟩

def negate (item : ClassItem) : ClassItem := { item with negated := !item.negated }

end ClassItem

/-- A set of characters: these, or all but these; with `folded`, whatever their case. -/
structure CharSet where
  items : List ClassItem
  negated : Bool
  folded : Bool
  deriving DecidableEq, Repr

/-- The other case of an ASCII letter. -/
def swapCase (c : Char) : Char := if c.isUpper then c.toLower else c.toUpper

def CharSet.has (set : CharSet) (c : Char) : Bool :=
  (set.items.any fun item => item.has c || (set.folded && item.has (swapCase c))) != set.negated

inductive Re where
  | empty
  | set (s : CharSet)
  | start
  | finish
  | boundary (negated : Bool)
  | seq (a b : Re)
  | alt (a b : Re)
  | rep (a : Re) (least : Nat) (most : Option Nat)
  deriving DecidableEq, Repr

namespace Re

/-! ## 2. Matching -/

/-- Whether one of two neighbours is a word character and the other is not. -/
def atBoundary (left right : List Char) : Bool :=
  left.getLast?.any ClassItem.word.has != right.head?.any ClassItem.word.has

/-- `n` matches of `P`, one right after the other. -/
def Power (P : List Char → List Char → List Char → Prop) :
    Nat → List Char → List Char → List Char → Prop
  | 0, _, middle, _ => middle = []
  | n + 1, left, middle, right => ∃ u v, middle = u ++ v ∧ P left u (v ++ right) ∧
      Power P n (left ++ u) v right

def Holds : Re → List Char → List Char → List Char → Prop
  | .empty, _, middle, _ => middle = []
  | .set s, _, middle, _ => ∃ c, middle = [c] ∧ s.has c = true
  | .start, left, middle, _ => middle = [] ∧ left = []
  | .finish, _, middle, right => middle = [] ∧ right = []
  | .boundary negated, left, middle, right => middle = [] ∧ atBoundary left right ≠ negated
  | .seq a b, left, middle, right => ∃ u v, middle = u ++ v ∧ a.Holds left u (v ++ right) ∧
      b.Holds (left ++ u) v right
  | .alt a b, left, middle, right => a.Holds left middle right ∨ b.Holds left middle right
  | .rep a least most, left, middle, right => ∃ n, least ≤ n ∧ (∀ k ∈ most, n ≤ k) ∧
      Power a.Holds n left middle right

/-- The whole text matches. -/
def Matches (r : Re) (text : List Char) : Prop := r.Holds [] text []

/-- A search for the expression in the text succeeds. -/
def Found (r : Re) (text : List Char) : Prop :=
  ∃ left middle right, text = left ++ middle ++ right ∧ r.Holds left middle right

/-! ## 3. Expressions without anchors -/

/-- Neither `^`, `$` nor a word boundary. -/
def anchorFree : Re → Bool
  | .empty | .set _ => true
  | .start | .finish | .boundary _ => false
  | .seq a b | .alt a b => a.anchorFree && b.anchorFree
  | .rep a _ _ => a.anchorFree

/-- The texts an expression without anchors matches. -/
def language : Re → Language Char
  | .empty => 1
  | .set s => {text | ∃ c, text = [c] ∧ s.has c = true}
  | .start | .finish | .boundary _ => 0
  | .seq a b => a.language * b.language
  | .alt a b => a.language + b.language
  | .rep a least most => {text | ∃ n, least ≤ n ∧ (∀ k ∈ most, n ≤ k) ∧ text ∈ a.language ^ n}

variable {P : List Char → List Char → List Char → Prop}

theorem power_iff {L : Language Char} (h : ∀ left middle right, P left middle right ↔ middle ∈ L)
    (n : Nat) (left middle right : List Char) : Power P n left middle right ↔ middle ∈ L ^ n := by
  induction n generalizing left middle with
  | zero => simp [Power, Language.mem_one]
  | succ n ih =>
    rw [pow_succ', Language.mem_mul]
    simp only [Power, h, ih]
    constructor
    · intro hsplit
      obtain ⟨u, v, rfl, hu, hv⟩ := hsplit
      exact ⟨u, hu, v, hv, rfl⟩
    · intro hsplit
      obtain ⟨u, hu, v, hv, rfl⟩ := hsplit
      exact ⟨u, v, rfl, hu, hv⟩

/-- Without anchors it does not matter where a text stands. -/
theorem holds_iff_mem_language {r : Re} (hr : r.anchorFree = true) (left middle right : List Char) :
    r.Holds left middle right ↔ middle ∈ r.language := by
  induction r generalizing left middle right with
  | empty => simp [Holds, language, Language.mem_one]
  | set s => rfl
  | start => cases hr
  | finish => cases hr
  | boundary negated => cases hr
  | seq a b iha ihb =>
    obtain ⟨ha, hb⟩ := Bool.and_eq_true_iff.mp hr
    simp only [Holds, language, Language.mem_mul, iha ha, ihb hb]
    constructor
    · intro hsplit
      obtain ⟨u, v, rfl, hu, hv⟩ := hsplit
      exact ⟨u, hu, v, hv, rfl⟩
    · intro hsplit
      obtain ⟨u, hu, v, hv, rfl⟩ := hsplit
      exact ⟨u, v, rfl, hu, hv⟩
  | alt a b iha ihb =>
    obtain ⟨ha, hb⟩ := Bool.and_eq_true_iff.mp hr
    simp only [Holds, language, Language.mem_add, iha ha, ihb hb]
  | rep a least most ih =>
    have hpower := power_iff fun left middle right => ih hr left middle right
    simp only [Holds, hpower]
    rfl

theorem matches_iff_mem_language {r : Re} (hr : r.anchorFree = true) (text : List Char) :
    r.Matches text ↔ text ∈ r.language :=
  holds_iff_mem_language hr [] text []

/-- Whether `^` or `$` occurs. -/
def usesEnds : Re → Bool
  | .empty | .set _ | .boundary _ => false
  | .start | .finish => true
  | .seq a b | .alt a b => a.usesEnds || b.usesEnds
  | .rep a _ _ => a.usesEnds

/-! ## 4. Running a search -/

/-- `lengths` lists how long the matches can be that begin at a place in a text. -/
def Computes (lengths : List Char → List Char → List Nat)
    (P : List Char → List Char → List Char → Prop) : Prop :=
  ∀ left text k, k ∈ lengths left text ↔
    ∃ middle right, text = middle ++ right ∧ middle.length = k ∧ P left middle right

def seqLengths (first second : List Char → List Char → List Nat) (left text : List Char) :
    List Nat :=
  (first left text).flatMap fun k =>
    (second (left ++ text.take k) (text.drop k)).map (k + ·)

def powerLengths (once : List Char → List Char → List Nat) : Nat → List Char → List Char → List Nat
  | 0 => fun _ _ => [0]
  | n + 1 => seqLengths once (powerLengths once n)

/-- The lengths of the matches at the front of `text`. A repetition needs to be tried at most once
    more than its least number for each character. -/
def lengths : Re → List Char → List Char → List Nat
  | .empty, _, _ => [0]
  | .set _, _, [] => []
  | .set s, _, c :: _ => if s.has c then [1] else []
  | .start, left, _ => if left = [] then [0] else []
  | .finish, _, text => if text = [] then [0] else []
  | .boundary negated, left, text => if atBoundary left text ≠ negated then [0] else []
  | .seq a b, left, text => seqLengths a.lengths b.lengths left text
  | .alt a b, left, text => a.lengths left text ++ b.lengths left text
  | .rep a least most, left, text =>
    (List.range (text.length + 1)).flatMap fun more =>
      if most.all (least + more ≤ ·) then powerLengths a.lengths (least + more) left text else []

def search (r : Re) (text : List Char) : Bool :=
  (List.range (text.length + 1)).any fun i => !(r.lengths (text.take i) (text.drop i)).isEmpty

theorem computes_seq {first second : List Char → List Char → List Nat}
    {Q : List Char → List Char → List Char → Prop} (hfirst : Computes first P)
    (hsecond : Computes second Q) :
    Computes (seqLengths first second) fun left middle right =>
      ∃ u v, middle = u ++ v ∧ P left u (v ++ right) ∧ Q (left ++ u) v right := by
  intro left text k
  simp only [seqLengths, List.mem_flatMap, List.mem_map, hfirst _ _ _, hsecond _ _ _]
  constructor
  · intro hk
    obtain ⟨i, ⟨u, rest, rfl, rfl, hu⟩, j, ⟨v, right, hrest, rfl, hv⟩, rfl⟩ := hk
    rw [List.drop_left] at hrest
    rw [List.take_left] at hv
    subst hrest
    exact ⟨u ++ v, right, by simp, by simp, u, v, rfl, hu, hv⟩
  · intro hk
    obtain ⟨middle, right, rfl, rfl, u, v, rfl, hu, hv⟩ := hk
    refine ⟨u.length, ⟨u, v ++ right, by simp, rfl, hu⟩, v.length, ⟨v, right, by simp, rfl, ?_⟩,
      by simp⟩
    simpa using hv

theorem computes_power {once : List Char → List Char → List Nat} (honce : Computes once P)
    (n : Nat) :
    Computes (powerLengths once n) (Power P n) := by
  induction n with
  | zero =>
    intro left text k
    simp only [powerLengths, Power, List.mem_singleton]
    constructor
    · rintro rfl
      exact ⟨[], text, rfl, rfl, rfl⟩
    · rintro ⟨middle, right, -, rfl, rfl⟩
      rfl
  | succ n ih => exact computes_seq honce ih

/-- Of more matches than there are characters one is empty, and can be left out. -/
theorem power_pred {n : Nat} {left middle right : List Char} (h : Power P (n + 1) left middle right)
    (hn : middle.length ≤ n) : Power P n left middle right := by
  induction n generalizing left middle with
  | zero =>
    obtain rfl := List.length_eq_zero_iff.mp (Nat.le_zero.mp hn)
    rfl
  | succ n ih =>
    obtain ⟨u, v, rfl, hu, hv⟩ := h
    cases u with
    | nil => simpa using hv
    | cons c u =>
      simp only [List.cons_append, List.length_cons, List.length_append] at hn
      exact ⟨c :: u, v, rfl, hu, ih hv (by omega)⟩

theorem power_bounded {least n : Nat} {left middle right : List Char}
    (h : Power P n left middle right) (hn : least ≤ n) :
    ∃ more, more ≤ middle.length ∧ least + more ≤ n ∧ Power P (least + more) left middle right := by
  induction n with
  | zero =>
    obtain rfl := Nat.le_zero.mp hn
    exact ⟨0, Nat.zero_le _, Nat.le_refl _, h⟩
  | succ n ih =>
    by_cases hlong : n + 1 ≤ least + middle.length
    · refine ⟨n + 1 - least, by omega, by omega, ?_⟩
      rwa [Nat.add_sub_cancel' hn]
    · obtain ⟨more, hmore, hle, hpower⟩ := ih (power_pred h (by omega)) (by omega)
      exact ⟨more, hmore, by omega, hpower⟩

/-- A match that consumes nothing, under a condition on its neighbours. -/
theorem computes_empty {C : List Char → List Char → Prop} [∀ l t, Decidable (C l t)] :
    Computes (fun left text => if C left text then [0] else [])
      fun left middle right => middle = [] ∧ C left right := by
  intro left text k
  constructor
  · intro hk
    by_cases hhere : C left text
    · simp only [hhere, if_true, List.mem_singleton] at hk
      exact ⟨[], text, rfl, hk.symm, rfl, hhere⟩
    · simp [hhere] at hk
  · intro hk
    obtain ⟨middle, right, rfl, rfl, rfl, hhere⟩ := hk
    simpa using hhere

theorem lengths_computes (r : Re) : Computes r.lengths r.Holds := by
  induction r with
  | empty =>
    intro left text k
    have h := computes_empty (C := fun _ _ => True) left text k
    simpa [lengths, Holds] using h
  | set s =>
    intro left text k
    cases text with
    | nil => simp [lengths, Holds]
    | cons c text =>
      simp only [lengths, Holds]
      constructor
      · intro hk
        by_cases hc : s.has c = true
        · simp only [hc, if_true, List.mem_singleton] at hk
          exact ⟨[c], text, rfl, hk.symm, c, rfl, hc⟩
        · simp [hc] at hk
      · intro hk
        obtain ⟨middle, right, htext, rfl, d, rfl, hd⟩ := hk
        cases htext
        simp [hd]
  | start => exact computes_empty
  | finish => exact computes_empty
  | boundary negated => exact computes_empty
  | seq a b iha ihb => exact computes_seq iha ihb
  | alt a b iha ihb =>
    intro left text k
    simp only [lengths, List.mem_append, iha _ _ _, ihb _ _ _, Holds]
    constructor
    · rintro (⟨middle, right, htext, hk, h⟩ | ⟨middle, right, htext, hk, h⟩)
      · exact ⟨middle, right, htext, hk, .inl h⟩
      · exact ⟨middle, right, htext, hk, .inr h⟩
    · rintro ⟨middle, right, htext, hk, h | h⟩
      · exact .inl ⟨middle, right, htext, hk, h⟩
      · exact .inr ⟨middle, right, htext, hk, h⟩
  | rep a least most ih =>
    intro left text k
    simp only [lengths, Holds, List.mem_flatMap, List.mem_range]
    constructor
    · intro hk
      obtain ⟨more, -, hk⟩ := hk
      by_cases hmost : most.all (least + more ≤ ·) = true
      · rw [if_pos hmost, computes_power ih _ _ _ _] at hk
        obtain ⟨middle, right, htext, hlen, hpower⟩ := hk
        have hle : ∀ m ∈ most, least + more ≤ m := by simpa [Option.all_eq_true] using hmost
        exact ⟨middle, right, htext, hlen, least + more, Nat.le_add_right _ _, hle, hpower⟩
      · simp [hmost] at hk
    · intro hk
      obtain ⟨middle, right, rfl, rfl, n, hleast, hmost, hpower⟩ := hk
      obtain ⟨more, hmore, hn, hpower⟩ := power_bounded hpower hleast
      refine ⟨more, by simp; omega, ?_⟩
      have hall : most.all (least + more ≤ ·) = true := by
        simp only [Option.all_eq_true, decide_eq_true_eq]
        intro m hm
        exact Nat.le_trans hn (hmost m hm)
      rw [if_pos hall]
      exact (computes_power ih _ _ _ _).mpr ⟨middle, right, rfl, rfl, hpower⟩

theorem search_iff (r : Re) (text : List Char) : r.search text = true ↔ r.Found text := by
  simp only [search, List.any_eq_true, List.mem_range, Bool.not_eq_true', List.isEmpty_eq_false_iff]
  constructor
  · intro hfound
    obtain ⟨i, -, hne⟩ := hfound
    obtain ⟨k, hk⟩ := List.exists_mem_of_ne_nil _ hne
    obtain ⟨middle, right, htext, -, hr⟩ := (r.lengths_computes _ _ _).mp hk
    refine ⟨text.take i, middle, right, ?_, hr⟩
    rw [List.append_assoc, ← htext, List.take_append_drop]
  · intro hfound
    obtain ⟨left, middle, right, rfl, hr⟩ := hfound
    have hbound : left.length < (left ++ middle ++ right).length + 1 := by
      rw [List.append_assoc, List.length_append]
      omega
    refine ⟨left.length, hbound, List.ne_nil_of_mem (a := middle.length) ?_⟩
    refine (r.lengths_computes _ _ _).mpr ⟨middle, right, by simp, rfl, ?_⟩
    simpa using hr

theorem matches_iff_length (r : Re) (text : List Char) :
    text.length ∈ r.lengths [] text ↔ r.Matches text := by
  rw [r.lengths_computes]
  constructor
  · intro hlength
    obtain ⟨middle, right, rfl, hlen, hr⟩ := hlength
    have hright : right = [] := by simpa using hlen
    subst hright
    rw [List.append_nil]
    exact hr
  · intro hr
    exact ⟨text, [], by simp, rfl, hr⟩

instance (r : Re) (text : List Char) : Decidable (r.Matches text) :=
  decidable_of_iff (text.length ∈ r.lengths [] text) (r.matches_iff_length text)

instance (r : Re) (text : List Char) : Decidable (r.Found text) :=
  decidable_of_iff (r.search text = true) (r.search_iff text)

end Re

end Svidlet.Lib
