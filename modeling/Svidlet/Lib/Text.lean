import Mathlib

/-!
# Strings as lists of characters

The string functions of the standard library that the programs use, over `String.toList`, so that
they compute by recursion on a list and have the lemmas lists have.
-/

namespace Svidlet.Lib

/-- `str::strip_prefix`. -/
def stripPrefix (s pre : String) : Option String :=
  if pre.toList <+: s.toList then some (String.ofList (s.toList.drop pre.toList.length)) else none

@[simp] theorem stripPrefix_append (pre s : String) : stripPrefix (pre ++ s) pre = some s := by
  simp [stripPrefix]

theorem toList_of_stripPrefix {s pre rest : String} (h : stripPrefix s pre = some rest) :
    s.toList = pre.toList ++ rest.toList := by
  unfold stripPrefix at h
  split at h
  · rename_i hp
    obtain ⟨u, hu⟩ := hp
    obtain rfl := Option.some.inj h
    rw [← hu]
    simp
  · cases h

/-- `str::starts_with`. -/
def startsWith (s pre : String) : Bool := pre.toList.isPrefixOf s.toList

/-- `str::ends_with`. -/
def endsWith (s suf : String) : Bool := suf.toList.isSuffixOf s.toList

/-- `str::contains`, for a text. -/
def containsText (s part : String) : Bool := s.toList.tails.any part.toList.isPrefixOf

/-- `str::split_once`, for a character. -/
def splitOnce (c : Char) : List Char → Option (List Char × List Char)
  | [] => none
  | d :: rest =>
    if d = c then some ([], rest)
    else (splitOnce c rest).map fun pair => (d :: pair.1, pair.2)

variable {c : Char}

theorem splitOnce_eq : ∀ {text before after : List Char},
    splitOnce c text = some (before, after) → text = before ++ c :: after
  | d :: rest, before, after, h => by
    unfold splitOnce at h
    split at h
    · rename_i hd
      obtain ⟨rfl, rfl⟩ := Prod.mk.inj (Option.some.inj h)
      rw [hd]
      rfl
    obtain ⟨⟨before', after'⟩, hrest, hpair⟩ := Option.map_eq_some_iff.mp h
    obtain ⟨rfl, rfl⟩ := Prod.mk.inj hpair
    rw [splitOnce_eq hrest]
    rfl

theorem splitOnce_not_mem : ∀ {text before after : List Char},
    splitOnce c text = some (before, after) → c ∉ before
  | d :: rest, before, after, h => by
    unfold splitOnce at h
    split at h
    · obtain ⟨rfl, rfl⟩ := Prod.mk.inj (Option.some.inj h)
      simp
    rename_i hd
    obtain ⟨⟨before', after'⟩, hrest, hpair⟩ := Option.map_eq_some_iff.mp h
    obtain ⟨rfl, rfl⟩ := Prod.mk.inj hpair
    have hmem := splitOnce_not_mem hrest
    simp [hmem, Ne.symm hd]

theorem splitOnce_none : ∀ {text : List Char}, splitOnce c text = none → c ∉ text
  | [], _ => by simp
  | d :: rest, h => by
    unfold splitOnce at h
    split at h
    · cases h
    · rename_i hd
      have hmem := splitOnce_none (Option.map_eq_none_iff.mp h)
      simp [hmem, Ne.symm hd]

/-- `str::split`, for a character: always at least one piece. -/
def splitChar (c : Char) : List Char → List (List Char)
  | [] => [[]]
  | d :: rest =>
    match splitChar c rest with
    | [] => [[d]]
    | piece :: pieces => if d = c then [] :: piece :: pieces else (d :: piece) :: pieces

theorem splitChar_ne_nil (c : Char) (text : List Char) : splitChar c text ≠ [] := by
  cases text with
  | nil => simp [splitChar]
  | cons d rest =>
    unfold splitChar
    split
    · simp
    · split <;> simp

/-- A piece that ends at the character is split off. -/
theorem splitChar_append {piece : List Char} (h : c ∉ piece) (rest : List Char) :
    splitChar c (piece ++ c :: rest) = piece :: splitChar c rest := by
  induction piece with
  | nil =>
    rw [List.nil_append, splitChar]
    cases hs : splitChar c rest with
    | nil => exact absurd hs (splitChar_ne_nil c rest)
    | cons first pieces => simp
  | cons d piece ih =>
    simp only [List.mem_cons, not_or] at h
    rw [List.cons_append, splitChar, ih h.2]
    simp [Ne.symm h.1]

/-- `str::trim_matches`, for a character. -/
def trimMatches (c : Char) (s : String) : String :=
  String.ofList ((s.toList.dropWhile (· = c)).reverse.dropWhile (· = c)).reverse

/-- `str::replace`, from the left; `skip` characters of a part already replaced are left out. -/
def replaceChars (part new : List Char) : Nat → List Char → List Char
  | _, [] => []
  | skip + 1, _ :: rest => replaceChars part new skip rest
  | 0, c :: rest =>
    if part.isPrefixOf (c :: rest) then new ++ replaceChars part new (part.length - 1) rest
    else c :: replaceChars part new 0 rest

def replaceText (s part new : String) : String :=
  String.ofList (replaceChars part.toList new.toList 0 s.toList)

/-- What a run of `writeln!` writes. -/
def writeLines (lines : List String) : String := String.join (lines.map (· ++ "\n"))

/-- Lines without a line break are read off what was written, and nothing follows them. -/
theorem splitChar_writeLines {lines : List String} (h : ∀ line ∈ lines, '\n' ∉ line.toList) :
    splitChar '\n' (writeLines lines).toList = lines.map String.toList ++ [[]] := by
  rw [writeLines, String.toList_join, List.flatMap_map]
  induction lines with
  | nil => rfl
  | cons line rest ih =>
    obtain ⟨hline, hrest⟩ := List.forall_mem_cons.mp h
    have hfirst : (line :: rest).flatMap (fun l : String => (l ++ "\n").toList) =
        line.toList ++ '\n' :: rest.flatMap (fun l : String => (l ++ "\n").toList) := by
      simp
    rw [hfirst, splitChar_append hline, ih hrest]
    rfl

/-- The characters `str::trim` removes. -/
def isWhite (c : Char) : Bool :=
  c.toNat ∈ [0x9, 0xA, 0xB, 0xC, 0xD, 0x20, 0x85, 0xA0, 0x1680, 0x2028, 0x2029, 0x202F, 0x205F,
    0x3000] || (0x2000 ≤ c.toNat && c.toNat ≤ 0x200A)

/-- `str::trim`. -/
def trim (s : String) : String :=
  String.ofList ((s.toList.dropWhile isWhite).reverse.dropWhile isWhite).reverse

def hexDigits (n : Nat) : String := String.ofList (Nat.toDigits 16 n)

/-- What holds of every digit holds of all digits of a number. -/
theorem forall_mem_toDigits {base : Nat} (hbase : 1 < base) {p : Char → Prop}
    (hdigit : ∀ n < base, p (Nat.digitChar n)) (n : Nat) : ∀ c ∈ Nat.toDigits base n, p c := by
  induction n using Nat.strongRecOn with
  | ind n ih =>
    intro c hc
    by_cases hsmall : n < base
    · rw [Nat.toDigits_of_lt_base hsmall, List.mem_singleton] at hc
      rw [hc]
      exact hdigit n hsmall
    have hle := Nat.not_lt.mp hsmall
    rw [Nat.toDigits_of_base_le hbase hle, List.mem_append, List.mem_singleton] at hc
    rcases hc with hc | rfl
    · exact ih (n / base) (Nat.div_lt_self (by omega) hbase) c hc
    · exact hdigit _ (Nat.mod_lt _ (by omega))

/-- Beyond ASCII, the code points that the debug format takes for unprintable: controls, separators,
    formats, the blocks of combining marks, private use, and what never is a character. Left out are the
    marks inside the block of a script and the gaps between scripts, which are other ones with every
    version of the Unicode tables. -/
def unprintable : List (Nat × Nat) :=
  [(0x80, 0xA0), (0xAD, 0xAD), (0x300, 0x36F), (0x600, 0x605), (0x61C, 0x61C), (0x6DD, 0x6DD),
    (0x70F, 0x70F), (0x890, 0x891), (0x8E2, 0x8E2), (0x1680, 0x1680), (0x180E, 0x180E),
    (0x1AB0, 0x1ACE), (0x1DC0, 0x1DFF), (0x2000, 0x200F), (0x2028, 0x202F), (0x205F, 0x206F),
    (0x20D0, 0x20F0), (0x3000, 0x3000), (0xE000, 0xF8FF), (0xFDD0, 0xFDEF), (0xFE00, 0xFE0F),
    (0xFE20, 0xFE2F), (0xFEFF, 0xFEFF), (0xFFF0, 0xFFFB), (0xFFFE, 0xFFFF), (0x110BD, 0x110BD),
    (0x110CD, 0x110CD), (0x13430, 0x13440), (0x1BCA0, 0x1BCA3), (0x1D173, 0x1D17A),
    (0x1FFFE, 0x1FFFF), (0x2FFFE, 0x2FFFF), (0x323B0, 0x10FFFF)]

/-- The characters that the debug format writes by their number. -/
def isUnprintable (c : Char) : Bool :=
  c.toNat < 0x20 || c.toNat = 0x7F ||
    0x80 ≤ c.toNat && unprintable.any fun range => range.1 ≤ c.toNat && c.toNat ≤ range.2

/-- How the debug format writes one character of a text. -/
def escapeDebug (c : Char) : String :=
  if c = '"' then "\\\"" else if c = '\\' then "\\\\"
  else if c = '\n' then "\\n" else if c = '\r' then "\\r" else if c = '\t' then "\\t"
  else if c.toNat = 0 then "\\0"
  else if isUnprintable c then "\\u\x7b" ++ hexDigits c.toNat ++ "\x7d"
  else String.singleton c

/-- The debug format of a text. -/
def debugStr (s : String) : String := "\"" ++ String.join (s.toList.map escapeDebug) ++ "\""

/-- The debug format of a list of texts. -/
def debugStrs (texts : List String) : String := "[" ++ ", ".intercalate (texts.map debugStr) ++ "]"

/-- The debug format of a character: here the apostrophe is escaped and the quote is not. -/
def debugChar (c : Char) : String :=
  "'" ++ (if c.toNat = 0x27 then "\\'" else if c = '"' then "\"" else escapeDebug c) ++ "'"

def dropPlus : List Char → List Char
  | '+' :: rest => rest
  | chars => chars

/-- `str::parse::<u64>`: an optional `+`, then at least one digit, and a value that fits. -/
def parseU64 (s : String) : Option Nat :=
  let digits := dropPlus s.toList
  let value := Nat.ofDigitChars 10 digits 0
  if digits ≠ [] ∧ digits.all Char.isDigit = true ∧ value < 2 ^ 64 then some value else none

theorem parseU64_lt {s : String} {n : Nat} (h : parseU64 s = some n) : n < 2 ^ 64 := by
  simp only [parseU64] at h
  split at h
  · rename_i hd
    rw [← Option.some.inj h]
    exact hd.2.2
  · cases h

/-- What `format!` prints, `parse` reads back. -/
theorem parseU64_toString {n : Nat} (h : n < 2 ^ 64) : parseU64 (toString n) = some n := by
  have hlist : (toString n).toList = Nat.toDigits 10 n := by simp
  have hdigit : ∀ c ∈ Nat.toDigits 10 n, c.isDigit = true := fun c hc =>
    Nat.isDigit_of_mem_toDigits (by decide) (by decide) hc
  have hplus : dropPlus (Nat.toDigits 10 n) = Nat.toDigits 10 n := by
    cases hd : Nat.toDigits 10 n with
    | nil => rfl
    | cons c rest =>
      have hc : c ≠ '+' := by
        rintro rfl
        exact absurd (hdigit '+' (by rw [hd]; exact .head _)) (by decide)
      simp [dropPlus, hc]
  simp only [parseU64]
  rw [hlist, hplus, Nat.ofDigitChars_ten_toDigits]
  exact if_pos ⟨Nat.toDigits_ne_nil, List.all_eq_true.mpr hdigit, h⟩

/-- A text up to the first separator can be read off the whole. -/
theorem append_inj_of_not_mem {α : Type} {c : α} : ∀ {xs xs' ys ys' : List α}, c ∉ xs → c ∉ xs' →
    xs ++ c :: ys = xs' ++ c :: ys' → xs = xs' ∧ ys = ys'
  | [], [], ys, ys', _, _, h => ⟨rfl, (List.cons.inj h).2⟩
  | [], x' :: xs', ys, ys', _, h', h => by
    obtain ⟨rfl, _⟩ := List.cons.inj h
    exact absurd (.head _) h'
  | x :: xs, [], ys, ys', hx, _, h => by
    obtain ⟨rfl, _⟩ := List.cons.inj h
    exact absurd (.head _) hx
  | x :: xs, x' :: xs', ys, ys', hx, hx', h => by
    obtain ⟨rfl, hrest⟩ := List.cons.inj h
    obtain ⟨hxs, hys⟩ := append_inj_of_not_mem (fun hm => hx (.tail _ hm))
      (fun hm => hx' (.tail _ hm)) hrest
    exact ⟨by rw [hxs], hys⟩

end Svidlet.Lib
