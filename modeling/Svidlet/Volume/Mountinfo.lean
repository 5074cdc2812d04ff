import Svidlet.Policy.Ustar

/-!
# Paths in the table of mounts

`is_mount_point` looks a path up in `/proc/self/mountinfo`, where the kernel writes a blank, a tab, a
line break and a backslash as a backslash and three octal digits. `unescape_mountinfo` undoes that. It
walks over bytes and cuts slices out of a `str`, so it could stop in the middle of a character; that is
the `none` of `unescapeBytes`.

> Behind an escaped byte stands the first byte of a character, or nothing, since the byte was a
> character of its own.
-/

namespace Svidlet.Volume

open Policy

/-! ## 1. The code -/

/-- `is_char_boundary`, on the bytes from there on. -/
def atBoundary : Bytes → Bool
  | [] => true
  | b :: _ => b.toNat < 128 || 192 ≤ b.toNat

/-- `u8::from_str_radix(text, 8)` -/
def u8FromOctal (text : Bytes) : Option UInt8 :=
  (parseOctal (text.map fun b => Char.ofNat b.toNat)).bind fun n =>
    if n < 256 then some (UInt8.ofNat n) else none

/-- The loop of `unescape_mountinfo` from one byte on. -/
def unescapeBytes : Bytes → Option Bytes
  | [] => some []
  | b :: rest =>
    if b = 92 ∧ 3 ≤ rest.length then
      -- `&field[i + 1..i + 4]`
      if atBoundary rest && atBoundary (rest.drop 3) then
        match u8FromOctal (rest.take 3) with
        | some v => (unescapeBytes (rest.drop 3)).map (v :: ·)
        | none => (unescapeBytes rest).map (b :: ·)
      else none
    else (unescapeBytes rest).map (b :: ·)
termination_by field => field.length
decreasing_by all_goals simp

/-- `unescape_mountinfo`; `lossy` is `String::from_utf8_lossy`. -/
def unescapeMountinfo (lossy : Bytes → String) (field : Bytes) : Option String :=
  (unescapeBytes field).map lossy

/-! ## 2. The kernel -/

def Escaped (b : UInt8) : Prop := b ∈ [32, 9, 10, 92]

instance (b : UInt8) : Decidable (Escaped b) := inferInstanceAs (Decidable (_ ∈ _))

def escapeByte (b : UInt8) : Bytes :=
  if Escaped b then [92, 48 + b / 64, 48 + b / 8 % 8, 48 + b % 8] else [b]

/-- A path as the kernel writes it. -/
def escapeMountinfo (path : String) : Bytes := (utf8Bytes path).flatMap escapeByte

/-! ## 3. There and back -/

theorem unescapeBytes_other {b : UInt8} (h : b ≠ 92) (rest : Bytes) :
    unescapeBytes (b :: rest) = (unescapeBytes rest).map (b :: ·) := by
  rw [unescapeBytes, if_neg fun hb => h hb.1]

theorem unescapeBytes_escaped {b : UInt8} {rest : Bytes} (hb : Escaped b)
    (hrest : atBoundary rest = true) :
    unescapeBytes (escapeByte b ++ rest) = (unescapeBytes rest).map (b :: ·) := by
  have hdigits : ∀ x y z, atBoundary [x] = true → u8FromOctal [x, y, z] = some b →
      unescapeBytes (92 :: x :: y :: z :: rest) = (unescapeBytes rest).map (b :: ·) := by
    intro x y z hx hv
    have hx : atBoundary (x :: y :: z :: rest) = true := hx
    rw [unescapeBytes, if_pos ⟨rfl, by simp⟩]
    simp [hx, hrest, hv]
  rw [escapeByte, if_pos hb]
  simp only [Escaped, List.mem_cons, List.not_mem_nil, or_false] at hb
  rcases hb with rfl | rfl | rfl | rfl
  all_goals exact hdigits _ _ _ (by decide) (by decide)

theorem Escaped.lt {b : UInt8} (h : Escaped b) : b.toNat < 128 := by
  simp only [Escaped, List.mem_cons, List.not_mem_nil, or_false] at h
  rcases h with rfl | rfl | rfl | rfl <;> decide

/-- A character begins where it begins. -/
theorem atBoundary_char (c : Char) (rest : Bytes) :
    atBoundary (String.utf8EncodeChar c ++ rest) = true := by
  fun_cases String.utf8EncodeChar c
  all_goals
    simp [atBoundary]
    omega

theorem unescapeBytes_plain {bs : Bytes} (h : ∀ b ∈ bs, ¬ Escaped b) (rest : Bytes) :
    bs.flatMap escapeByte = bs ∧
      unescapeBytes (bs ++ rest) = (unescapeBytes rest).map (bs ++ ·) := by
  induction bs with
  | nil => simp
  | cons b bs ih =>
    obtain ⟨hb, h⟩ := List.forall_mem_cons.mp h
    obtain ⟨hsame, ih⟩ := ih h
    have hne : b ≠ 92 := fun he => hb (he ▸ by decide)
    rw [List.cons_append, unescapeBytes_other hne, ih, Option.map_map]
    exact ⟨by simp [escapeByte, hb, hsame], rfl⟩

theorem unescapeBytes_chars (cs : List Char) :
    unescapeBytes ((cs.flatMap String.utf8EncodeChar).flatMap escapeByte)
      = some (cs.flatMap String.utf8EncodeChar) ∧
    atBoundary ((cs.flatMap String.utf8EncodeChar).flatMap escapeByte) = true := by
  induction cs with
  | nil => exact ⟨unescapeBytes.eq_1, rfl⟩
  | cons c cs ih =>
    obtain ⟨ih, hrest⟩ := ih
    rw [List.flatMap_cons, List.flatMap_append]
    by_cases h : ∃ b ∈ String.utf8EncodeChar c, Escaped b
    · obtain ⟨b, hb, hesc⟩ := h
      rw [(utf8EncodeChar_ascii hb hesc.lt).1, List.flatMap_singleton,
        unescapeBytes_escaped hesc hrest, ih]
      exact ⟨rfl, by rw [escapeByte, if_pos hesc]; rfl⟩
    · push Not at h
      obtain ⟨hsame, hplain⟩ := unescapeBytes_plain h _
      rw [hsame, hplain, ih]
      exact ⟨rfl, atBoundary_char c _⟩

/-- **What the kernel escapes is read back**, and no slice is cut inside a character. -/
theorem unescape_escape_mountinfo {lossy : Bytes → String} (hlossy : ∀ s, lossy (utf8Bytes s) = s)
    (path : String) : unescapeMountinfo lossy (escapeMountinfo path) = some path := by
  have hbytes : utf8Bytes path = path.toList.flatMap String.utf8EncodeChar := by
    rw [← utf8Bytes_ofList, String.ofList_toList]
  rw [unescapeMountinfo, escapeMountinfo, hbytes, (unescapeBytes_chars _).1, ← hbytes, Option.map_some,
    hlossy]

theorem unescape_escape_mountinfo_blank : unescapeMountinfo (fun bytes => (fromUtf8 bytes).getD "")
    (escapeMountinfo "/var/lib/kubelet/a b\\c") = some "/var/lib/kubelet/a b\\c" :=
  unescape_escape_mountinfo (fun s => by rw [fromUtf8_utf8Bytes]; rfl) _

end Svidlet.Volume
