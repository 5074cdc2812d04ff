import Svidlet.Lib.Text

/-!
# Quoted texts

A quoted text can be read off what follows it, since a quote inside it is escaped. That needs little
of the way characters are escaped: each stands for itself or for a **name** behind a backslash, the
quote and the backslash have names, and no name is the beginning of another.

    PrefixCode code  :=  ∀ a b x y, code a ++ x = code b ++ y → a = b ∧ x = y

Two such ways are at the end: the debug format, and the one of JSON.
-/

namespace Svidlet.Lib

/-! ## 1. Codes that can be read off -/

section

variable {α β : Type}

def PrefixCode (code : α → List β) : Prop := ∀ a b x y, code a ++ x = code b ++ y → a = b ∧ x = y

/-- A run of code words, up to a mark with which no word begins. -/
theorem PrefixCode.flatMap_inj {code : α → List β} (h : PrefixCode code) {stop : β}
    (hstop : ∀ a x y, code a ++ x ≠ stop :: y) {as bs : List α} {x y : List β}
    (heq : as.flatMap code ++ stop :: x = bs.flatMap code ++ stop :: y) : as = bs ∧ x = y := by
  induction as generalizing bs with
  | nil =>
    cases bs with
    | nil => exact ⟨rfl, (List.cons.inj heq).2⟩
    | cons b bs =>
      simp only [List.flatMap_nil, List.nil_append, List.flatMap_cons, List.append_assoc] at heq
      exact absurd heq.symm (hstop b _ _)
  | cons a as ih =>
    cases bs with
    | nil =>
      simp only [List.flatMap_nil, List.nil_append, List.flatMap_cons, List.append_assoc] at heq
      exact absurd heq (hstop a _ _)
    | cons b bs =>
      simp only [List.flatMap_cons, List.append_assoc] at heq
      obtain ⟨rfl, hrest⟩ := h _ _ _ _ heq
      obtain ⟨rfl, rfl⟩ := ih hrest
      exact ⟨rfl, rfl⟩

/-- Words between commas, up to an end that is no comma. -/
theorem PrefixCode.intercalate_inj {code : α → List β} (h : PrefixCode code) {sep stop : β}
    (hne : sep ≠ stop) {gap x y : List β} {as bs : List α} (has : as ≠ []) (hbs : bs ≠ [])
    (heq : (sep :: gap).intercalate (as.map code) ++ stop :: x =
      (sep :: gap).intercalate (bs.map code) ++ stop :: y) : as = bs ∧ x = y := by
  induction as generalizing bs with
  | nil => exact absurd rfl has
  | cons a as ih =>
    cases bs with
    | nil => exact absurd rfl hbs
    | cons b bs =>
      cases as with
      | nil =>
        cases bs with
        | nil =>
          simp only [List.map_cons, List.map_nil, List.intercalate_singleton] at heq
          obtain ⟨rfl, hrest⟩ := h _ _ _ _ heq
          exact ⟨rfl, (List.cons.inj hrest).2⟩
        | cons b' bs =>
          simp only [List.map_cons, List.map_nil, List.intercalate_singleton,
            List.intercalate_cons_cons, List.append_assoc] at heq
          obtain ⟨-, hrest⟩ := h _ _ _ _ heq
          exact absurd (List.cons.inj hrest).1.symm hne
      | cons a' as =>
        cases bs with
        | nil =>
          simp only [List.map_cons, List.map_nil, List.intercalate_singleton,
            List.intercalate_cons_cons, List.append_assoc] at heq
          obtain ⟨-, hrest⟩ := h _ _ _ _ heq
          exact absurd (List.cons.inj hrest).1 hne
        | cons b' bs =>
          simp only [List.map_cons, List.intercalate_cons_cons, List.append_assoc] at heq
          obtain ⟨rfl, hrest⟩ := h _ _ _ _ heq
          obtain ⟨htail, hxy⟩ := @ih (b' :: bs) (by simp) (by simp) (List.append_cancel_left hrest)
          exact ⟨by rw [htail], hxy⟩

end

/-! ## 2. Escapes -/

/-- The name of a character, if it does not stand for itself. -/
structure Escaping where
  name : Char → Option (List Char)
  quote : (name '"').isSome
  backslash : (name '\\').isSome
  /-- No name is the beginning of another's. -/
  apart : ∀ c d n m, name c = some n → name d = some m → n <+: m → c = d

namespace Escaping

variable (E : Escaping)

def escape (c : Char) : List Char :=
  match E.name c with
  | none => [c]
  | some n => '\\' :: n

theorem escape_prefixCode : PrefixCode E.escape := by
  intro a b x y h
  unfold escape at h
  have hself : ∀ c, E.name c = none → c ≠ '\\' := by
    rintro c hc rfl
    exact absurd hc (Option.isSome_iff_ne_none.mp E.backslash)
  cases ha : E.name a with
  | none =>
    cases hb : E.name b with
    | none =>
      rw [ha, hb] at h
      exact List.cons.inj h
    | some m =>
      rw [ha, hb] at h
      exact absurd (List.cons.inj h).1 (hself a ha)
  | some n =>
    cases hb : E.name b with
    | none =>
      rw [ha, hb] at h
      exact absurd (List.cons.inj h).1.symm (hself b hb)
    | some m =>
      rw [ha, hb] at h
      have hnames : n ++ x = m ++ y := (List.cons.inj h).2
      have hab : a = b := by
        obtain hp | hp := List.prefix_or_prefix_of_prefix (List.prefix_append n x)
          (hnames ▸ List.prefix_append m y)
        · exact E.apart a b n m ha hb hp
        · exact (E.apart b a m n hb ha hp).symm
      subst hab
      obtain rfl : n = m := Option.some.inj (ha.symm.trans hb)
      exact ⟨rfl, List.append_cancel_left hnames⟩

theorem escape_ne_quote (c : Char) (x y : List Char) : E.escape c ++ x ≠ '"' :: y := by
  intro h
  unfold escape at h
  cases hc : E.name c with
  | none =>
    rw [hc] at h
    obtain rfl : c = '"' := (List.cons.inj h).1
    exact absurd hc (Option.isSome_iff_ne_none.mp E.quote)
  | some n =>
    rw [hc] at h
    exact absurd (List.cons.inj h).1 (by decide)

/-- A text between quotes. -/
def quoted (text : List Char) : List Char := '"' :: (text.flatMap E.escape ++ ['"'])

theorem quoted_prefixCode : PrefixCode E.quoted := by
  intro a b x y h
  have htail : a.flatMap E.escape ++ '"' :: x = b.flatMap E.escape ++ '"' :: y := by
    simpa [quoted] using h
  exact E.escape_prefixCode.flatMap_inj E.escape_ne_quote htail

/-- A character with a name is in no quoted text, unless names have it. -/
theorem not_mem_quoted {d : Char} (hd : (E.name d).isSome) (hquote : d ≠ '"') (hback : d ≠ '\\')
    (hnames : ∀ c n, E.name c = some n → d ∉ n) (text : List Char) : d ∉ E.quoted text := by
  have hescape : ∀ c, d ∉ E.escape c := by
    intro c
    unfold escape
    cases hc : E.name c with
    | none =>
      have hdc : d ≠ c := by
        rintro rfl
        exact absurd hc (Option.isSome_iff_ne_none.mp hd)
      simp [hdc]
    | some n => simp [hback, hnames c n hc]
  simp [quoted, hquote, hescape]

end Escaping

/-! ## 3. The debug format and JSON -/

/-- The characters that may have names in JSON. -/
def escapedChars : List Char := (List.range 32).map Char.ofNat ++ ['"', '\\']

variable {c : Char}

theorem mem_escapedChars_of_lt (h : c.toNat < 0x20) : c ∈ escapedChars := by
  refine List.mem_append_left _ (List.mem_map.mpr ⟨c.toNat, List.mem_range.mpr h, ?_⟩)
  exact Char.ofNat_toNat c

/-- That no name begins another is checked for the characters that may have one. -/
theorem apart_of_escapedChars {name : Char → Option (List Char)}
    (hmem : ∀ c, (name c).isSome → c ∈ escapedChars)
    (hcheck : (escapedChars.all fun c => escapedChars.all fun d =>
      (name c).all fun n => (name d).all fun m => !n.isPrefixOf m || c == d) = true)
    (c d : Char) (n m : List Char) (hc : name c = some n) (hd : name d = some m) (h : n <+: m) :
    c = d := by
  have hpair := List.all_eq_true.mp
    (List.all_eq_true.mp hcheck c (hmem c (by rw [hc]; rfl))) d (hmem d (by rw [hd]; rfl))
  simpa [hc, hd, List.isPrefixOf_iff_prefix.mpr h] using hpair

theorem newline_not_mem_name {name : Char → Option (List Char)}
    (hmem : ∀ c, (name c).isSome → c ∈ escapedChars)
    (hcheck : (escapedChars.all fun c => (name c).all fun n => !n.contains '\n') = true)
    (c : Char) (n : List Char) (hc : name c = some n) : '\n' ∉ n := by
  have hone := List.all_eq_true.mp hcheck c (hmem c (by rw [hc]; rfl))
  simpa [hc] using hone

/-- The names of one character that the debug format has. -/
def debugShort (c : Char) : Option Char :=
  if c = '"' then some '"' else if c = '\\' then some '\\'
  else if c = '\n' then some 'n' else if c = '\r' then some 'r' else if c = '\t' then some 't'
  else if c.toNat = 0 then some '0' else none

/-- The name by number. -/
def debugLong (n : Nat) : List Char := 'u' :: '\x7b' :: (Nat.toDigits 16 n ++ ['\x7d'])

def debugName (c : Char) : Option (List Char) :=
  match debugShort c with
  | some x => some [x]
  | none => if isUnprintable c then some (debugLong c.toNat) else none

theorem debugName_cases {n : List Char} (h : debugName c = some n) :
    (∃ x, debugShort c = some x ∧ n = [x]) ∨ n = debugLong c.toNat := by
  unfold debugName at h
  cases hshort : debugShort c with
  | some x =>
    rw [hshort] at h
    exact .inl ⟨x, rfl, (Option.some.inj h).symm⟩
  | none =>
    rw [hshort] at h
    exact .inr (Option.some.inj (Option.ite_none_right_eq_some.mp h).2).symm

theorem debugShort_cases {x : Char} (h : debugShort c = some x) :
    x ∈ ['"', '\\', 'n', 'r', 't', '0'] ∧ c = if x = 'n' then '\n' else if x = 'r' then '\r'
      else if x = 't' then '\t' else if x = '0' then Char.ofNat 0 else x := by
  unfold debugShort at h
  split_ifs at h with h1 h2 h3 h4 h5 h6
  case pos => exact ⟨by cases h; decide, by cases h; exact h1⟩
  case pos => exact ⟨by cases h; decide, by cases h; exact h2⟩
  case pos => exact ⟨by cases h; decide, by cases h; exact h3⟩
  case pos => exact ⟨by cases h; decide, by cases h; exact h4⟩
  case pos => exact ⟨by cases h; decide, by cases h; exact h5⟩
  case pos =>
    refine ⟨by cases h; decide, ?_⟩
    cases h
    rw [← Char.ofNat_toNat c, h6]
    rfl

theorem toDigits_ne_nil (n : Nat) : Nat.toDigits 16 n ≠ [] := by
  by_cases hsmall : n < 16
  · simp [Nat.toDigits_of_lt_base hsmall]
  · simp [Nat.toDigits_of_base_le (by decide) (Nat.not_lt.mp hsmall)]

theorem toDigits_inj {n m : Nat} (h : Nat.toDigits 16 n = Nat.toDigits 16 m) : n = m := by
  have hdigit : ∀ n < 16, ∀ m < 16, Nat.digitChar n = Nat.digitChar m → n = m := by decide
  have hlast : ∀ {k : Nat} {x : Char}, ¬ k < 16 → [x] ≠ Nat.toDigits 16 k := by
    intro k x hk heq
    rw [Nat.toDigits_of_base_le (by decide) (Nat.not_lt.mp hk)] at heq
    exact toDigits_ne_nil _ (List.append_eq_singleton_iff.mp heq.symm |>.resolve_right
      (fun h => absurd h.2 (by simp))).1
  induction n using Nat.strongRecOn generalizing m with
  | ind n ih =>
    by_cases hn : n < 16
    · rw [Nat.toDigits_of_lt_base hn] at h
      by_cases hm : m < 16
      · rw [Nat.toDigits_of_lt_base hm] at h
        exact hdigit n hn m hm (List.cons.inj h).1
      · exact absurd h (hlast hm)
    · by_cases hm : m < 16
      · rw [Nat.toDigits_of_lt_base hm] at h
        exact absurd h.symm (hlast hn)
      · rw [Nat.toDigits_of_base_le (by decide) (Nat.not_lt.mp hn),
          Nat.toDigits_of_base_le (by decide) (Nat.not_lt.mp hm)] at h
        obtain ⟨hhigh, hlow⟩ := List.append_inj' h rfl
        have hdiv := ih (n / 16) (by omega) hhigh
        have hmod := hdigit _ (Nat.mod_lt n (by decide)) _ (Nat.mod_lt m (by decide))
          (List.cons.inj hlow).1
        omega

/-- The closing brace is no digit, so a number ends where its name does. -/
theorem debugLong_inj {n m : Nat} (h : debugLong n <+: debugLong m) : n = m := by
  have hclosing : ∀ k, '\x7d' ∉ Nat.toDigits 16 k :=
    fun k hmem => forall_mem_toDigits (by decide) (p := (· ≠ '\x7d')) (by decide) k _ hmem rfl
  obtain ⟨tail, htail⟩ := h
  have hdigits : Nat.toDigits 16 n ++ '\x7d' :: tail = Nat.toDigits 16 m ++ '\x7d' :: [] := by
    simpa [debugLong] using htail
  rcases List.append_eq_append_iff.mp hdigits with ⟨more, hm, hrest⟩ | ⟨more, hn, hrest⟩
  · cases more with
    | nil => exact (toDigits_inj (hm.trans (List.append_nil _))).symm
    | cons x more =>
      obtain rfl := (List.cons.inj hrest).1
      exact absurd (hm ▸ List.mem_append_right _ List.mem_cons_self) (hclosing m)
  · cases more with
    | nil => exact toDigits_inj (hn.trans (List.append_nil _))
    | cons x more =>
      obtain rfl := (List.cons.inj hrest).1
      exact absurd (hn ▸ List.mem_append_right _ List.mem_cons_self) (hclosing n)

theorem debugName_apart (c d : Char) (n m : List Char) (hc : debugName c = some n)
    (hd : debugName d = some m) (h : n <+: m) : c = d := by
  rcases debugName_cases hc with ⟨x, hx, rfl⟩ | rfl
  · obtain ⟨hmem, hcx⟩ := debugShort_cases hx
    rcases debugName_cases hd with ⟨y, hy, rfl⟩ | rfl
    · obtain rfl : x = y := by simpa using h
      rw [hcx, (debugShort_cases hy).2]
    · obtain rfl : x = 'u' := by simpa [debugLong, List.cons_prefix_cons] using h
      exact absurd hmem (by decide)
  · rcases debugName_cases hd with ⟨y, hy, rfl⟩ | rfl
    · exact absurd h.length_le (by simp [debugLong])
    · rw [← Char.ofNat_toNat c, debugLong_inj h, Char.ofNat_toNat]

def debugEscaping : Escaping where
  name := debugName
  quote := rfl
  backslash := rfl
  apart := debugName_apart

theorem toList_escapeDebug (c : Char) : (escapeDebug c).toList = debugEscaping.escape c := by
  unfold escapeDebug Escaping.escape
  show _ = match debugName c with
    | none => [c]
    | some n => '\\' :: n
  unfold debugName debugShort debugLong hexDigits
  split_ifs <;> simp

theorem toList_debugStr (s : String) : (debugStr s).toList = debugEscaping.quoted s.toList := by
  have hjoin : (String.join (s.toList.map escapeDebug)).toList =
      s.toList.flatMap debugEscaping.escape := by
    rw [String.toList_join, List.flatMap_map]
    exact List.flatMap_congr fun c _ => toList_escapeDebug c
  simp [debugStr, hjoin, Escaping.quoted]

theorem newline_not_mem_debugStr (s : String) : '\n' ∉ (debugStr s).toList := by
  rw [toList_debugStr]
  apply debugEscaping.not_mem_quoted rfl (by decide) (by decide)
  intro c n hn
  rcases debugName_cases hn with ⟨x, hx, rfl⟩ | rfl
  · have hnames : ∀ y ∈ ['"', '\\', 'n', 'r', 't', '0'], '\n' ≠ y := by simp
    simpa using hnames x (debugShort_cases hx).1
  · have hdigits : '\n' ∉ Nat.toDigits 16 c.toNat := fun hmem =>
      forall_mem_toDigits (by decide) (p := (· ≠ '\n')) (by decide) c.toNat _ hmem rfl
    simp [debugLong, hdigits]

def jsonName (c : Char) : Option (List Char) :=
  if c = '"' then some ['"'] else if c = '\\' then some ['\\']
  else if c.toNat = 0x08 then some ['b'] else if c = '\t' then some ['t']
  else if c = '\n' then some ['n'] else if c.toNat = 0x0C then some ['f']
  else if c = '\r' then some ['r']
  else if c.toNat < 0x20 then
    some ['u', '0', '0', Nat.digitChar (c.toNat / 16), Nat.digitChar (c.toNat % 16)]
  else none

theorem jsonName_mem (h : (jsonName c).isSome) : c ∈ escapedChars := by
  by_cases hlow : c.toNat < 0x20
  · exact mem_escapedChars_of_lt hlow
  by_contra hno
  have hne : c ≠ '"' ∧ c ≠ '\\' := by
    constructor <;> rintro rfl <;> exact hno (by decide)
  have hcontrol : c.toNat ≠ 0x08 ∧ c ≠ '\t' ∧ c ≠ '\n' ∧ c.toNat ≠ 0x0C ∧ c ≠ '\r' := by
    refine ⟨by omega, ?_, ?_, by omega, ?_⟩ <;> rintro rfl <;> exact hlow (by decide)
  simp [jsonName, hne, hcontrol, hlow] at h

def jsonEscaping : Escaping where
  name := jsonName
  quote := rfl
  backslash := rfl
  apart := apart_of_escapedChars (fun _ => jsonName_mem) (by decide)

/-- A text as `serde_json` writes it. -/
def jsonStr (s : String) : String := String.ofList (jsonEscaping.quoted s.toList)

theorem toList_jsonStr (s : String) : (jsonStr s).toList = jsonEscaping.quoted s.toList :=
  String.toList_ofList

theorem newline_not_mem_jsonStr (s : String) : '\n' ∉ (jsonStr s).toList := by
  rw [toList_jsonStr]
  apply jsonEscaping.not_mem_quoted rfl (by decide) (by decide)
  exact newline_not_mem_name (fun _ => jsonName_mem) (by decide)

end Svidlet.Lib
