import Svidlet.Lib.Overwrite
import Svidlet.Policy.Names

/-!
# Writing an archive and reading it back

`tarball.rs` has a writer of archives beside its reader, for tests: `testkit::build` writes a ustar header
for each file, its content, and zeros up to the next block, and two blocks of zeros at the end.

> What is built of files with ordinary short names is read back as the same files, in the same order.

The writer and the reader meet only in the bytes of a header. A header is a block of 512 bytes into which
fields of fixed widths are written at fixed places (`Block.write`, which keeps the length), and the
reader takes its fields from the same places. So reading a header back is: no later field is written over
the name, the mode, the size or the flag; the place of the prefix is never written; and a field reads as
what was written into it, digits up to the zero behind them and a name up to the zeros that fill its field.

Writing an octal number panics if it has more digits than its field has bytes; `build` is nothing then.
-/

namespace Svidlet.Policy

open Lib

/-! ## 1. The writer -/

/-- The bytes of a field. -/
abbrev Slot (len : Nat) := { bytes : Bytes // bytes.length = len }

/-- A block of an archive. -/
structure Block where
  bytes : Bytes
  length_eq : bytes.length = block

namespace Block

def zero : Block := ⟨List.replicate block 0, List.length_replicate⟩

/-- Write a field at its place. -/
def write (b : Block) (start : Nat) {len : Nat} (slot : Slot len) (h : start + len ≤ block := by decide) :
    Block where
  bytes := overwrite b.bytes start slot.val
  length_eq := by rw [length_overwrite (by rw [slot.property, b.length_eq]; exact h), b.length_eq]

end Block

/-- `format!("{value:0width$o}")` -/
def octalDigits (width value : Nat) : List Char := (Nat.toDigits 8 value).leftpad width '0'

/-- The digits go to the front of the field, and its last byte becomes zero. -/
def writeOctal (len value : Nat) : Option (Slot len) :=
  let text := utf8Bytes (String.ofList (octalDigits (len - 1) value))
  if h : 0 < len ∧ text.length ≤ len ∧ len - 1 ≤ text.length then
    some ⟨text.take (len - 1) ++ [0], by simp; omega⟩
  else none

/-- At most a hundred bytes of the name. The field is zero before, so its rest is zero. -/
def nameSlot (name : String) : Slot 100 :=
  ⟨(utf8Bytes name).take 100 ++ List.replicate (100 - (utf8Bytes name).length) 0, by simp; omega⟩

/-- The fields of a header; the checksum is computed with the checksum field read as spaces. -/
def unsummed (name : String) (mode owner : Slot 8) (size time : Slot 12) (typeFlag : UInt8) : Block :=
  let b := Block.zero.write 0 (nameSlot name)
  let b := ((b.write 100 mode).write 108 owner).write 116 owner
  let b := ((b.write 124 size).write 136 time).write 156 (⟨[typeFlag], rfl⟩ : Slot 1)
  let b := (b.write 257 (⟨[117, 115, 116, 97, 114], rfl⟩ : Slot 5)).write 263 (⟨[48, 48], rfl⟩ : Slot 2)
  b.write 148 (⟨List.replicate 8 32, rfl⟩ : Slot 8)

def header (name : String) (size : Nat) (typeFlag : UInt8) (mode : Nat) : Option Block := do
  let mode ← writeOctal 8 mode
  let owner ← writeOctal 8 0
  let size ← writeOctal 12 size
  let time ← writeOctal 12 0
  let b := unsummed name mode owner size time typeFlag
  let sum ← writeOctal 7 (b.bytes.map UInt8.toNat).sum
  return (b.write 148 sum).write 155 (⟨[32], rfl⟩ : Slot 1)

/-- A file, up to the next block. -/
def member (name : String) (content : Bytes) : Option Bytes := do
  let head ← header name content.length 48 0o644
  let padding := (block - content.length % block) % block
  return head.bytes ++ content ++ List.replicate padding 0

def members : List (String × Bytes) → Option Bytes
  | [] => some []
  | (name, content) :: rest => return (← member name content) ++ (← members rest)

/-- `testkit::build` -/
def build (files : List (String × Bytes)) : Option Bytes :=
  return (← members files) ++ List.replicate (block * 2) 0

/-! ## 2. Bytes of texts -/

theorem fromUtf8_utf8Bytes (text : String) : fromUtf8 (utf8Bytes text) = some text := by
  have hbytes : (⟨(utf8Bytes text).toArray⟩ : ByteArray) = text.toByteArray := rfl
  unfold fromUtf8 String.fromUTF8?
  rw [hbytes, dif_pos text.isValidUTF8]
  rfl

theorem utf8Bytes_ofList (chars : List Char) :
    utf8Bytes (String.ofList chars) = chars.flatMap String.utf8EncodeChar := by
  show (String.ofList chars).toByteArray.data.toList = _
  rw [String.toByteArray_ofList, List.utf8Encode, List.toList_data_toByteArray]

/-- A byte below 128 is a character of its own. -/
theorem utf8EncodeChar_ascii {c : Char} {b : UInt8} (hb : b ∈ String.utf8EncodeChar c)
    (hlt : b.toNat < 128) : String.utf8EncodeChar c = [b] ∧ c.val.toNat = b.toNat := by
  revert hb
  fun_cases String.utf8EncodeChar c
  · intro hb
    obtain rfl := List.mem_singleton.mp hb
    exact ⟨rfl, by rw [UInt8.toNat_ofNat']; omega⟩
  -- all the bytes of a longer character are above
  all_goals
    intro hb
    simp only [List.mem_cons, List.not_mem_nil, or_false, ← UInt8.toNat_inj, UInt8.toNat_ofNat'] at hb
    omega

theorem zero_mem_utf8EncodeChar {c : Char} (h : 0 ∈ String.utf8EncodeChar c) : c = '\x00' :=
  Char.ext (UInt32.toNat_inj.mp (utf8EncodeChar_ascii h (by decide)).2)

variable {text : String}

theorem zero_not_mem_utf8Bytes (h : '\x00' ∉ text.toList) : 0 ∉ utf8Bytes text := by
  intro hzero
  rw [← String.ofList_toList (s := text), utf8Bytes_ofList, List.mem_flatMap] at hzero
  obtain ⟨c, hc, hmem⟩ := hzero
  rw [zero_mem_utf8EncodeChar hmem] at hc
  exact h hc

/-- A text without a zero is read up to the zeros behind it. -/
theorem takeWhile_text (h : '\x00' ∉ text.toList) {rest : Bytes} (hrest : ∀ b ∈ rest, b = 0) :
    (utf8Bytes text ++ rest).takeWhile (· ≠ 0) = utf8Bytes text := by
  have hnone : rest.takeWhile (· ≠ 0) = [] := by
    cases rest with
    | nil => rfl
    | cons b rest => simp [hrest b List.mem_cons_self]
  have hall : ∀ b ∈ utf8Bytes text, decide (b ≠ 0) = true := by
    intro b hb
    refine decide_eq_true ?_
    rintro rfl
    exact zero_not_mem_utf8Bytes h hb
  rw [List.takeWhile_append_of_pos hall, hnone, List.append_nil]

/-- A field that has a text in it, and zeros behind. -/
theorem field_text {header : Bytes} {start len : Nat} {rest : Bytes}
    (hpart : part header start len = utf8Bytes text ++ rest) (h : '\x00' ∉ text.toList)
    (hrest : ∀ b ∈ rest, b = 0) : field header start len = .ok (trim text) := by
  refine field_of_text ?_
  change fromUtf8 ((part header start len).takeWhile (· ≠ 0)) = some text
  rw [hpart, takeWhile_text h hrest, fromUtf8_utf8Bytes]

/-! ## 3. Octal numbers -/

section

variable {len width value : Nat}

theorem isOctal_toDigits (value : Nat) : ∀ c ∈ Nat.toDigits 8 value, isOctal c = true :=
  forall_mem_toDigits (by decide) (by decide) value

theorem isOctal_of_mem {c : Char} (h : c ∈ octalDigits width value) : isOctal c = true := by
  rcases List.mem_append.mp h with h | h
  · rw [(List.mem_replicate.mp h).2]
    rfl
  · exact isOctal_toDigits value c h

theorem octalDigits_length (hpos : 0 < width) (h : value < 8 ^ width) :
    (octalDigits width value).length = width := by
  have hle := (Nat.length_toDigits_le_iff (b := 8) (n := value) (by decide) hpos).mpr h
  rw [octalDigits, List.length_leftpad, Nat.max_eq_left hle]

theorem ofDigitChars_octalDigits (width value : Nat) :
    Nat.ofDigitChars 8 (octalDigits width value) 0 = value := by
  rw [octalDigits, List.leftpad, Nat.ofDigitChars_append, Nat.ofDigitChars_replicate_zero, Nat.mul_zero,
    Nat.ofDigitChars_toDigits (by decide) (by decide)]

/-- An octal digit is a byte, and neither white nor a filler nor a sign. -/
theorem isOctal_plain {c : Char} (h : isOctal c = true) :
    (String.utf8EncodeChar c).length = 1 ∧ isWhite c = false ∧ isPadding c = false ∧ c ≠ '+' ∧
      c ≠ '\x00' := by
  have hsmall : c.toNat < 128 := by
    simp only [isOctal, Bool.and_eq_true, decide_eq_true_eq] at h
    have hseven : '7'.toNat = 55 := rfl
    omega
  have hall : ∀ n < 128, isOctal (Char.ofNat n) = true →
      (String.utf8EncodeChar (Char.ofNat n)).length = 1 ∧ isWhite (Char.ofNat n) = false ∧
        isPadding (Char.ofNat n) = false ∧ Char.ofNat n ≠ '+' ∧ Char.ofNat n ≠ '\x00' := by
    decide +kernel
  rw [← Char.ofNat_toNat c] at h ⊢
  exact hall c.toNat hsmall h

theorem utf8Bytes_digits_length {digits : List Char} (h : ∀ c ∈ digits, isOctal c = true) :
    (utf8Bytes (String.ofList digits)).length = digits.length := by
  rw [utf8Bytes_ofList]
  induction digits with
  | nil => rfl
  | cons c rest ih =>
    obtain ⟨hc, hrest⟩ := List.forall_mem_cons.mp h
    rw [List.flatMap_cons, List.length_append, (isOctal_plain hc).1, ih hrest, List.length_cons,
      Nat.add_comm]

/-- A number that has room is written. -/
theorem writeOctal_some (hlen : 1 < len) (h : value < 8 ^ (len - 1)) : ∃ slot,
    writeOctal len value = some slot ∧
      slot.val = utf8Bytes (String.ofList (octalDigits (len - 1) value)) ++ [0] := by
  have hlength : (utf8Bytes (String.ofList (octalDigits (len - 1) value))).length = len - 1 := by
    rw [utf8Bytes_digits_length fun c hc => isOctal_of_mem hc, octalDigits_length (by omega) h]
  unfold writeOctal
  dsimp only
  rw [dif_pos ⟨by omega, by omega, by omega⟩]
  exact ⟨_, rfl, congrArg (· ++ [0]) (List.take_of_length_le (by omega))⟩

/-- **What was written as an octal number is read as that number.** -/
theorem octal_written {header : Bytes} {start : Nat} (hlen : 1 < len) (h : value < 8 ^ (len - 1))
    (hfits : value < 2 ^ 64)
    (hpart : part header start len = utf8Bytes (String.ofList (octalDigits (len - 1) value)) ++ [0]) :
    octal header start len = .ok value := by
  have hplain : ∀ c ∈ octalDigits (len - 1) value, isWhite c = false ∧ isPadding c = false ∧ c ≠ '+' ∧
      c ≠ '\x00' := fun c hc => (isOctal_plain (isOctal_of_mem hc)).2
  have hne : octalDigits (len - 1) value ≠ [] := by
    rw [← List.length_pos_iff, octalDigits_length (by omega) h]
    omega
  have hfield := field_text hpart
    (by rw [String.toList_ofList]; exact fun hzero => (hplain _ hzero).2.2.2 rfl)
    (by simp)
  have htrim : trim (String.ofList (octalDigits (len - 1) value))
      = String.ofList (octalDigits (len - 1) value) := by
    rw [trim_eq_self_iff, String.toList_ofList]
    exact trimWhile_of_none fun c hc => (hplain c hc).1
  have hpadding : trimWhile isPadding (octalDigits (len - 1) value) = octalDigits (len - 1) value :=
    trimWhile_of_none fun c hc => (hplain c hc).2.1
  have hplus : dropPlus (octalDigits (len - 1) value) = octalDigits (len - 1) value := by
    unfold dropPlus
    split
    · rename_i rest hdigits
      exact absurd rfl (hplain '+' (by rw [hdigits]; exact .head _)).2.2.1
    · rfl
  have hparse : parseOctal (octalDigits (len - 1) value) = some value := by
    unfold parseOctal
    dsimp only
    rw [hplus, ofDigitChars_octalDigits,
      if_pos ⟨hne, List.all_eq_true.mpr fun c hc => isOctal_of_mem hc, hfits⟩]
  unfold octal
  refine bind_ok.mpr ⟨_, hfield, ?_⟩
  change (if trimWhile isPadding _ = [] then _ else _) = _
  rw [htrim, String.toList_ofList, hpadding, if_neg hne]
  unfold trimWhile at hpadding
  rw [hpadding, hparse]
  rfl

end

/-! ## 4. A header read back -/

namespace Block

variable (b : Block) {start len spot n : Nat} (slot : Slot len) (h : start + len ≤ block)

@[simp] theorem part_write : part (b.write start slot h).bytes start len = slot.val := by
  have hroom : start + slot.val.length ≤ b.bytes.length := by rw [slot.property, b.length_eq]; exact h
  have hpart := part_overwrite hroom
  rwa [slot.property] at hpart

theorem part_write_before (hbefore : spot + n ≤ start) :
    part (b.write start slot h).bytes spot n = part b.bytes spot n :=
  part_overwrite_before (by rw [slot.property, b.length_eq]; exact h) hbefore

theorem part_write_after (hafter : start + len ≤ spot) :
    part (b.write start slot h).bytes spot n = part b.bytes spot n :=
  part_overwrite_after (by rw [slot.property, b.length_eq]; exact h) (by rw [slot.property]; exact hafter)

end Block

theorem sum_bytes_le (bytes : Bytes) : (bytes.map UInt8.toNat).sum ≤ 255 * bytes.length := by
  induction bytes with
  | nil => simp
  | cons b rest ih =>
    have hb : b.toNat < 256 := b.toNat_lt
    rw [List.map_cons, List.sum_cons, List.length_cons]
    omega

theorem part_zero {start len : Nat} (h : start + len ≤ block) :
    part Block.zero.bytes start len = List.replicate len 0 := by
  show ((List.replicate block 0).drop start).take len = _
  rw [List.drop_replicate, List.take_replicate, Nat.min_eq_left (by omega)]

/-- The fields the reader looks at are as they were written. -/
theorem header_some (name : String) {size : Nat} (hsize : size < 8 ^ 11) : ∃ b,
    header name size 48 0o644 = some b ∧ part b.bytes 0 100 = (nameSlot name).val ∧
      part b.bytes 100 8 = utf8Bytes (String.ofList (octalDigits 7 0o644)) ++ [0] ∧
      part b.bytes 124 12 = utf8Bytes (String.ofList (octalDigits 11 size)) ++ [0] ∧
      part b.bytes 156 1 = [48] ∧ part b.bytes 345 155 = List.replicate 155 0 := by
  have hsmall : 1 < 8 ∧ 0o644 < 8 ^ (8 - 1) ∧ 0 < 8 ^ (8 - 1) := by decide
  have hlarge : 1 < 12 ∧ 0 < 8 ^ (12 - 1) := by decide
  obtain ⟨mode, hmode, hmodeText⟩ := writeOctal_some hsmall.1 hsmall.2.1
  obtain ⟨owner, howner, -⟩ := writeOctal_some hsmall.1 hsmall.2.2
  obtain ⟨digits, hdigits, hdigitsText⟩ := writeOctal_some hlarge.1 hsize
  obtain ⟨time, htime, -⟩ := writeOctal_some hlarge.1 hlarge.2
  -- the bytes of a block add up to less than six octal digits can say
  have hbytes := sum_bytes_le (unsummed name mode owner digits time 48).bytes
  rw [(unsummed name mode owner digits time 48).length_eq] at hbytes
  have hchecksum : ((unsummed name mode owner digits time 48).bytes.map UInt8.toNat).sum < 8 ^ (7 - 1) :=
    Nat.lt_of_le_of_lt hbytes (by decide)
  obtain ⟨checksum, hsum, -⟩ := writeOctal_some (by decide) hchecksum
  have hheader : header name size 48 0o644 = some (((unsummed name mode owner digits time 48).write 148
      checksum).write 155 (⟨[32], rfl⟩ : Slot 1)) := by
    unfold header
    rw [hmode, howner, hdigits, htime]
    show (writeOctal 7 _ >>= _) = _
    rw [hsum]
    rfl
  refine ⟨_, hheader, ?_, ?_, ?_, ?_, ?_⟩
  all_goals unfold unsummed; dsimp only
  all_goals simp (disch := decide) only [Block.part_write_before, Block.part_write_after,
    Block.part_write, part_zero, hmodeText, hdigitsText]

theorem getD_of_part {bytes : Bytes} {spot : Nat} {b : UInt8} (h : part bytes spot 1 = [b]) :
    bytes.getD spot 0 = b := by
  have hget := congrArg (·[0]?) h
  simp only [part, List.getElem?_take, List.getElem?_drop] at hget
  rw [List.getD_eq_getElem?_getD]
  simpa using congrArg (·.getD 0) hget

/-- A name that the writer can write and the reader returns unchanged. -/
structure Writable (name : String) : Prop where
  checked : (checkPath name).toOption.map Subtype.val = some name
  short : (utf8Bytes name).length ≤ 100
  trimmed : trim name = name

variable {name : String}

theorem Writable.checkPath_eq (h : Writable name) : ∃ path, checkPath name = .ok path ∧
    path.val = name := by
  have hchecked := h.checked
  cases hpath : checkPath name with
  | error e =>
    rw [hpath] at hchecked
    cases hchecked
  | ok path =>
    rw [hpath] at hchecked
    exact ⟨path, rfl, Option.some.inj hchecked⟩

variable {path : { path : String // PlainPath path }}

/-- **A header that was written is read as what was written.** -/
theorem readHeader_written {size : Nat} (hname : Writable name) (hpath : checkPath name = .ok path)
    (hsame : path.val = name) (hsize : size < 8 ^ 11) : ∃ b, header name size 48 0o644 = some b ∧
      readHeader b.bytes = .ok ⟨size, some path⟩ ∧ b.bytes.getD 156 0 = 48 := by
  obtain ⟨b, hb, hnamePart, hmodePart, hsizePart, hflagPart, hprefixPart⟩ := header_some name hsize
  have hzero : '\x00' ∉ name.toList := by
    rw [← hsame]
    exact (checkPath_ok hpath).2
  have hnameText : part b.bytes 0 100
      = utf8Bytes name ++ List.replicate (100 - (utf8Bytes name).length) 0 := by
    rw [hnamePart]
    show (utf8Bytes name).take 100 ++ _ = _
    rw [List.take_of_length_le hname.short]
  have hnameField : field b.bytes 0 100 = .ok name := by
    have hfield := field_text hnameText hzero fun byte hbyte => (List.mem_replicate.mp hbyte).2
    rwa [hname.trimmed] at hfield
  have hprefixText : part b.bytes 345 155 = utf8Bytes "" ++ List.replicate 155 0 := hprefixPart
  have hprefixField : field b.bytes 345 155 = .ok "" :=
    field_text hprefixText (by decide) fun byte hbyte => (List.mem_replicate.mp hbyte).2
  have hsizeField : octal b.bytes 124 12 = .ok size :=
    octal_written (by decide) hsize (Nat.lt_trans hsize (by decide)) hsizePart
  have hmodeField : octal b.bytes 100 8 = .ok 0o644 :=
    octal_written (by decide) (by decide) (by decide) hmodePart
  have hflag := getD_of_part hflagPart
  refine ⟨b, hb, ?_, hflag⟩
  unfold readHeader
  refine bind_ok.mpr ⟨name, hnameField, bind_ok.mpr ⟨size, hsizeField, ?_⟩⟩
  dsimp only
  rw [hflag, if_neg (by decide), if_pos (.inl rfl)]
  refine bind_ok.mpr ⟨0o644, hmodeField, bind_ok.mpr ⟨(), refuseIf_ok.mpr (by decide), ?_⟩⟩
  rw [hprefixField]
  exact bind_ok.mpr ⟨path, hpath, rfl⟩

/-! ## 5. An archive read back -/

theorem padding_fills (size : Nat) : size + (block - size % block) % block = padded size := by
  unfold padded block
  omega

/-- **One round of the reader takes one file**, whatever fills its last block and whatever follows. -/
theorem extractFrom_file {b : Block} {content filler : Bytes}
    (hread : readHeader b.bytes = .ok ⟨content.length, some path⟩) (hflag : b.bytes.getD 156 0 = 48)
    (hfills : content.length + filler.length = padded content.length) {maxTotal total : Nat}
    (htotal : total + content.length ≤ maxTotal) (fuel : Nat) (rest : Bytes) (done : List Entry) :
    extractFrom maxTotal (fuel + 1) (b.bytes ++ (content ++ (filler ++ rest))) total done
      = extractFrom maxTotal fuel rest (total + content.length)
          (done ++ [⟨path.val, content, path.property⟩]) := by
  have htake : (b.bytes ++ (content ++ (filler ++ rest))).take block = b.bytes :=
    List.take_left' b.length_eq
  have hdrop : (b.bytes ++ (content ++ (filler ++ rest))).drop block = content ++ (filler ++ rest) :=
    List.drop_left' b.length_eq
  have hnext : (content ++ (filler ++ rest)).drop (padded content.length) = rest := by
    rw [← List.append_assoc]
    exact List.drop_left' (by rw [List.length_append, hfills])
  have hmore : ¬ ((b.bytes ++ (content ++ (filler ++ rest))).length < block ∨
      b.bytes.all (· = 0) = true) := by
    rintro (hshort | hzero)
    · rw [List.length_append, b.length_eq] at hshort
      omega
    -- the flag of a regular file is not zero
    have hmem : b.bytes.getD 156 0 ∈ b.bytes := by
      rw [List.getD_eq_getElem?_getD, List.getElem?_eq_getElem (by rw [b.length_eq]; decide)]
      exact List.getElem_mem _
    have hnone := of_decide_eq_true (List.all_eq_true.mp hzero _ hmem)
    rw [hflag] at hnone
    exact absurd hnone (by decide)
  have hall : ¬ (content ++ (filler ++ rest)).length < content.length := by
    rw [List.length_append]
    omega
  conv_lhs => unfold extractFrom
  rw [htake, hdrop, if_neg hmore, hread]
  show (refuseIf (maxTotal < total + content.length) _ >>= fun _ => refuseIf (_ < content.length) _ >>=
    fun _ => extractFrom _ _ _ _ _) = _
  rw [(refuseIf_ok (u := ())).mpr (Nat.not_lt.mpr htotal), (refuseIf_ok (u := ())).mpr hall]
  show extractFrom maxTotal fuel (List.drop (padded content.length) _) _
    (done ++ [⟨path.val, List.take content.length _, path.property⟩]) = _
  rw [hnext, List.take_left' rfl]

/-- What is written for one file takes one round. -/
theorem extractFrom_member {content : Bytes} (hname : Writable name)
    (hpath : checkPath name = .ok path) (hsame : path.val = name)
    (hsize : content.length < 8 ^ 11) : ∃ bytes, member name content = some bytes ∧
      block ≤ bytes.length ∧ ∀ {maxTotal total : Nat}, total + content.length ≤ maxTotal →
        ∀ fuel rest done, extractFrom maxTotal (fuel + 1) (bytes ++ rest) total done
          = extractFrom maxTotal fuel rest (total + content.length)
              (done ++ [⟨path.val, content, path.property⟩]) := by
  obtain ⟨b, hb, hread, hflag⟩ := readHeader_written hname hpath hsame hsize
  have hmember : member name content = some
      (b.bytes ++ content ++ List.replicate ((block - content.length % block) % block) 0) := by
    unfold member
    rw [hb]
    rfl
  refine ⟨_, hmember, ?_, ?_⟩
  · rw [List.append_assoc, List.length_append, b.length_eq]
    exact Nat.le_add_right ..
  · intro maxTotal total htotal fuel rest done
    rw [List.append_assoc, List.append_assoc]
    exact extractFrom_file hread hflag (by rw [List.length_replicate, padding_fills]) htotal fuel rest done

/-- The reader stops at the two blocks of zeros. -/
theorem extractFrom_end (maxTotal fuel total : Nat) (done : List Entry) :
    extractFrom maxTotal fuel (List.replicate (block * 2) 0) total done = .ok done := by
  cases fuel with
  | zero => rfl
  | succ fuel =>
    unfold extractFrom
    rw [if_pos (.inr (by decide +kernel))]
    rfl

/-- By induction over the files, with what was read before. -/
theorem extractFrom_members {files : List (String × Bytes)}
    (hfiles : ∀ file ∈ files, Writable file.1 ∧ file.2.length < 8 ^ 11) :
    ∃ bytes entries, members files = some bytes ∧ files.length * block ≤ bytes.length ∧
      entries.map (fun e : Entry => (e.path, e.content)) = files ∧
      ∀ maxTotal total fuel done, total + (files.map (·.2.length)).sum ≤ maxTotal → files.length ≤ fuel →
        extractFrom maxTotal fuel (bytes ++ List.replicate (block * 2) 0) total done
          = .ok (done ++ entries) := by
  induction files with
  | nil =>
    refine ⟨[], [], rfl, Nat.zero_le _, rfl, ?_⟩
    intro maxTotal total fuel done _ _
    rw [List.nil_append, extractFrom_end, List.append_nil]
  | cons file rest ih =>
    obtain ⟨⟨hname, hsize⟩, hrest⟩ := List.forall_mem_cons.mp hfiles
    obtain ⟨path, hpath, hsame⟩ := hname.checkPath_eq
    obtain ⟨first, hfirst, hlength, hround⟩ := extractFrom_member hname hpath hsame hsize
    obtain ⟨bytes, entries, hbytes, hcount, hsameRest, hread⟩ := ih hrest
    refine ⟨first ++ bytes, ⟨path.val, file.2, path.property⟩ :: entries, ?_, ?_, ?_, ?_⟩
    · show (member file.1 file.2 >>= fun head => members rest >>= fun tail => pure (head ++ tail)) = _
      rw [hfirst, hbytes]
      rfl
    · rw [List.length_cons, List.length_append, Nat.succ_mul]
      omega
    · rw [List.map_cons, hsameRest]
      exact congrArg (· :: rest) (Prod.ext hsame rfl)
    · intro maxTotal total fuel done hroom hfuel
      rw [List.map_cons, List.sum_cons] at hroom
      rw [List.length_cons] at hfuel
      obtain ⟨fuel, rfl⟩ : ∃ n, fuel = n + 1 := ⟨fuel - 1, by omega⟩
      rw [List.append_assoc, hround (by omega), hread _ _ _ _ (by omega) (by omega), List.append_assoc]
      rfl

/-- **Files that were written are read back.** The archive built of a list of files, with names that the
    check of paths returns unchanged, extracts to the same files in the same order. -/
theorem extract_build {files : List (String × Bytes)} {maxTotal : Nat} (hne : files ≠ [])
    (hnames : ∀ file ∈ files, Writable file.1) (hsizes : ∀ file ∈ files, file.2.length < 8 ^ 11)
    (htotal : (files.map (·.2.length)).sum ≤ maxTotal) : ∃ archive entries,
      build files = some archive ∧ extract archive maxTotal = .ok entries ∧
        entries.map (fun e : Entry => (e.path, e.content)) = files := by
  obtain ⟨bytes, entries, hbytes, hcount, hsame, hread⟩ :=
    extractFrom_members fun file hfile => ⟨hnames file hfile, hsizes file hfile⟩
  have hbuild : build files = some (bytes ++ List.replicate (block * 2) 0) := by
    unfold build
    rw [hbytes]
    rfl
  have hfuel : files.length ≤ (bytes ++ List.replicate (block * 2) 0).length := by
    have hblock : block = 512 := rfl
    rw [hblock] at hcount
    rw [List.length_append]
    omega
  have hsome : entries ≠ [] := by
    rintro rfl
    exact hne hsame.symm
  refine ⟨_, entries, hbuild, ?_, hsame⟩
  unfold extract
  refine bind_ok.mpr ⟨entries, ?_, bind_ok.mpr ⟨(), refuseIf_ok.mpr hsome, rfl⟩⟩
  rw [hread _ _ _ _ (by omega) hfuel, List.nil_append]

/-- A nested file and an empty one. -/
theorem extract_build_pair :
    let files : List (String × Bytes) := [("rules/allow.rego", [97, 108, 108]), ("bundle.toml", [])]
    ∃ archive entries, build files = some archive ∧ extract archive 3 = .ok entries ∧
      entries.map (fun e : Entry => (e.path, e.content)) = files := by
  intro files
  have hwritable : ∀ file ∈ files, Writable file.1 := by
    intro file hfile
    simp only [files, List.mem_cons, List.not_mem_nil, or_false] at hfile
    rcases hfile with rfl | rfl
    all_goals exact ⟨by decide, by decide, by decide⟩
  exact extract_build (by decide) hwritable (by decide) (by decide)

end Svidlet.Policy
