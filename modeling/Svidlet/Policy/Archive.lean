import Svidlet.Lib.Usize
import Svidlet.Policy.Rollout

/-!
# What is in an archive

`tarball.rs` is the security boundary of a bundle: it walks an archive by sizes and names that whoever made
the archive chose.

**The walk.** `fileHeaders` is what an archive has in it, read off the archive alone: the blocks that are the
headers of regular files, with their offsets. The entries of an archive that is accepted are these,
one for one and in order, each with the bytes behind its header (`Carries`).

**The arithmetic.** The source computes offsets in 64 bits and slices by them. `Checked.extract` is the
source once more, with every addition, rounding and slice in it and a bound on the number of rounds; it
has gone wrong where one of them does not fit.

> It never does: a size has twelve octal digits at most, and an archive is shorter than 2 ^ 63 bytes.
-/

namespace Svidlet.Policy

open Lib

/-! ## 1. Fields -/

theorem length_le_utf8ByteSize (text : String) : text.toList.length ≤ text.utf8ByteSize := by
  have hlist : ∀ chars : List Char, chars.length ≤ (String.ofList chars).utf8ByteSize := by
    intro chars
    induction chars with
    | nil => simp
    | cons c chars ih =>
      have hcons : String.ofList (c :: chars) = String.singleton c ++ String.ofList chars := by
        apply String.toList_injective
        simp
      have hpos := Char.utf8Size_pos c
      rw [hcons]
      simp only [List.length_cons, String.utf8ByteSize_append, String.utf8ByteSize_singleton]
      omega
  simpa using hlist text.toList

theorem fromUtf8_length {bytes : Bytes} {text : String} (h : fromUtf8 bytes = some text) :
    text.toList.length ≤ bytes.length := by
  have hsize : text.utf8ByteSize = bytes.length := by
    unfold fromUtf8 String.fromUTF8? at h
    split at h
    · cases h
      show (⟨bytes.toArray⟩ : ByteArray).size = bytes.length
      exact List.size_toArray
    · cases h
  exact hsize ▸ length_le_utf8ByteSize text

theorem trim_length (text : String) : (trim text).toList.length ≤ text.toList.length := by
  simp only [trim, String.toList_ofList, List.length_reverse]
  refine Nat.le_trans (List.dropWhile_sublist _).length_le ?_
  rw [List.length_reverse]
  exact (List.dropWhile_sublist _).length_le

variable {header : Bytes}

theorem field_length {start len : Nat} {text : String} (h : field header start len = .ok text) :
    text.toList.length ≤ len := by
  unfold field at h
  split at h
  next found hfound =>
    obtain rfl := Except.ok.inj h
    have htake : (((header.drop start).take len).takeWhile (· ≠ 0)).length ≤ len :=
      Nat.le_trans (List.takeWhile_sublist _).length_le (List.length_take_le _ _)
    exact Nat.le_trans (trim_length found) (Nat.le_trans (fromUtf8_length hfound) htake)
  next => cases h

theorem ofDigitChars_octal_lt {digits : List Char} (h : digits.all isOctal = true) (init : Nat) :
    Nat.ofDigitChars 8 digits init < 8 ^ digits.length * (init + 1) := by
  induction digits generalizing init with
  | nil => simp
  | cons c rest ih =>
    simp only [List.all_cons, Bool.and_eq_true] at h
    have hc : c.toNat - '0'.toNat < 8 := by
      have hoctal := h.1
      simp only [isOctal, Bool.and_eq_true, decide_eq_true_eq] at hoctal
      have hseven : '7'.toNat = '0'.toNat + 7 := rfl
      omega
    rw [Nat.ofDigitChars_cons, List.length_cons, Nat.pow_succ, Nat.mul_assoc]
    refine Nat.lt_of_lt_of_le (ih h.2 _) (Nat.mul_le_mul_left _ ?_)
    omega

/-- A field has room for so many digits. -/
theorem octal_lt {start len n : Nat} (h : octal header start len = .ok n) : n < 8 ^ len := by
  unfold octal at h
  obtain ⟨text, htext, h⟩ := bind_ok.mp h
  dsimp only at h
  generalize htrimmed : ((text.toList.dropWhile isPadding).reverse.dropWhile isPadding).reverse
    = trimmed at h
  have hshort : trimmed.length ≤ len := by
    rw [← htrimmed, List.length_reverse]
    refine Nat.le_trans (List.dropWhile_sublist _).length_le ?_
    rw [List.length_reverse]
    exact Nat.le_trans (List.dropWhile_sublist _).length_le (field_length htext)
  split at h
  · rw [← pure_ok.mp h]
    exact Nat.pow_pos (by decide)
  split at h
  · rename_i value hparse
    obtain rfl := pure_ok.mp h
    unfold parseOctal at hparse
    dsimp only at hparse
    split at hparse
    · rename_i hdigits
      obtain rfl := Option.some.inj hparse
      have hplus : (dropPlus trimmed).length ≤ trimmed.length := by
        unfold dropPlus
        split <;> simp
      have hlt := ofDigitChars_octal_lt hdigits.2.1 0
      rw [Nat.zero_add, Nat.mul_one] at hlt
      exact Nat.lt_of_lt_of_le hlt (Nat.pow_le_pow_right (by decide) (Nat.le_trans hplus hshort))
    · cases hparse
  · cases h

theorem checkPath_ok {raw : String} {path : { path : String // PlainPath path }}
    (h : checkPath raw = .ok path) :
    path.val = String.ofList (trimDotSlash raw.toList) ∧ '\x00' ∉ path.val.toList := by
  unfold checkPath at h
  dsimp only at h
  split at h
  · cases h
  split at h
  · cases h
  split at h
  · cases h
  rename_i hchars
  split at h
  · rw [← Except.ok.inj h]
    exact ⟨rfl, fun hzero => hchars (.inr hzero)⟩
  · cases h

theorem checkPath_val {raw : String} {path : { path : String // PlainPath path }}
    (h : checkPath raw = .ok path) : path.val = String.ofList (trimDotSlash raw.toList) :=
  (checkPath_ok h).1

/-- A number of times `./`. -/
def dotSlashes (n : Nat) : List Char := (List.replicate n ['.', '/']).flatten

theorem dotSlashes_length (n : Nat) : (dotSlashes n).length = 2 * n := by
  simp [dotSlashes, Nat.mul_comm]

theorem dotSlashes_add (m n : Nat) : dotSlashes (m + n) = dotSlashes m ++ dotSlashes n := by
  rw [dotSlashes, List.replicate_add, List.flatten_append]
  rfl

theorem trimDotSlash_split (chars : List Char) : ∃ n, chars = dotSlashes n ++ trimDotSlash chars := by
  fun_induction trimDotSlash chars with
  | case1 rest ih =>
    obtain ⟨n, hn⟩ := ih
    refine ⟨n + 1, ?_⟩
    rw [Nat.add_comm, dotSlashes_add, List.append_assoc, ← hn]
    rfl
  | case2 chars => exact ⟨0, rfl⟩

/-- The path a header spells out. -/
def joined (pre name : String) : String := if pre.isEmpty then name else pre ++ "/" ++ name

/-- **What a header is when it can be read**: that of a folder, or that of a regular file with a path. -/
theorem readHeader_ok {found : Header} (h : readHeader header = .ok found) :
    octal header 124 12 = .ok found.size ∧ ∃ name, field header 0 100 = .ok name ∧
      ((header.getD 156 0 = 53 ∧ found.file = none) ∨
        (header.getD 156 0 ≠ 53 ∧ (header.getD 156 0 = 48 ∨ header.getD 156 0 = 0) ∧
          ∃ path, checkPath (joined ((field header 345 155).toOption.getD "") name) = .ok path ∧
            found.file = some path)) := by
  unfold readHeader at h
  obtain ⟨name, hname, h⟩ := bind_ok.mp h
  obtain ⟨size, hsize, h⟩ := bind_ok.mp h
  dsimp only at h
  by_cases hfolder : header.getD 156 0 = 53
  · rw [if_pos hfolder] at h
    obtain rfl := pure_ok.mp h
    exact ⟨hsize, name, hname, .inl ⟨hfolder, rfl⟩⟩
  rw [if_neg hfolder] at h
  by_cases hregular : header.getD 156 0 = 48 ∨ header.getD 156 0 = 0
  · rw [if_pos hregular] at h
    obtain ⟨mode, -, h⟩ := bind_ok.mp h
    obtain ⟨_, -, h⟩ := bind_ok.mp h
    obtain ⟨path, hpath, h⟩ := bind_ok.mp h
    obtain rfl := pure_ok.mp h
    exact ⟨hsize, name, hname, .inr ⟨hfolder, hregular, path, hpath, rfl⟩⟩
  · rw [if_neg hregular] at h
    cases h

/-! ## 2. The walk -/

/-- The headers of regular files from an offset on, with their offsets. The walk ends where the archive
    does, at a block of zeros, or at a size that cannot be read. -/
def fileHeadersFrom : Nat → Nat → Bytes → List (Nat × Bytes)
  | 0, _, _ => []
  | fuel + 1, offset, rest =>
    if rest.length < block ∨ (rest.take block).all (· = 0) = true then []
    else
      match octal (rest.take block) 124 12 with
      | .error _ => []
      | .ok size =>
        let later := fileHeadersFrom fuel (offset + block + padded size)
          ((rest.drop block).drop (padded size))
        if (rest.take block).getD 156 0 = 48 ∨ (rest.take block).getD 156 0 = 0 then
          (offset, rest.take block) :: later
        else later

def fileHeaders (archive : Bytes) : List (Nat × Bytes) := fileHeadersFrom archive.length 0 archive

theorem le_padded (size : Nat) : size ≤ padded size := by
  unfold padded block
  omega

theorem padded_le (size : Nat) : padded size ≤ size + block := by
  unfold padded block
  omega

/-- Headers come one after the other, each behind the content of the one before. -/
theorem fileHeadersFrom_sorted (fuel offset : Nat) (rest : Bytes) :
    (∀ h ∈ fileHeadersFrom fuel offset rest, offset ≤ h.1) ∧
      (fileHeadersFrom fuel offset rest).Pairwise fun a b =>
        ∃ size, octal a.2 124 12 = .ok size ∧ a.1 + block + padded size ≤ b.1 := by
  induction fuel generalizing offset rest with
  | zero => exact ⟨nofun, .nil⟩
  | succ fuel ih =>
    unfold fileHeadersFrom
    split
    · exact ⟨nofun, .nil⟩
    split
    · exact ⟨nofun, .nil⟩
    rename_i size hsize
    obtain ⟨hfrom, hsorted⟩ := ih (offset + block + padded size)
      ((rest.drop block).drop (padded size))
    dsimp only
    split
    · refine ⟨?_, List.pairwise_cons.mpr ⟨?_, hsorted⟩⟩
      · intro h hh
        rcases List.mem_cons.mp hh with rfl | hh
        · exact Nat.le_refl _
        · have hlater := hfrom h hh
          omega
      · intro b hb
        exact ⟨size, hsize, hfrom b hb⟩
    · refine ⟨?_, hsorted⟩
      intro h hh
      have hlater := hfrom h hh
      omega

/-- The entry is the file of this header: its path and size are the header's, and its content is what
    follows the header. -/
structure Carries (archive : Bytes) (spot : Nat × Bytes) (e : Entry) : Prop where
  header : spot.2 = (archive.drop spot.1).take block
  read : readHeader spot.2 = .ok ⟨e.content.length, some ⟨e.path, e.plain⟩⟩
  inside : spot.1 + block + e.content.length ≤ archive.length
  content : e.content = (archive.drop (spot.1 + block)).take e.content.length

variable {archive : Bytes} {maxTotal : Nat} {entries : List Entry}

/-- **The loop.** What it adds to the entries are the files of the headers it comes to. -/
theorem extractFrom_carries {fuel offset total : Nat} {done : List Entry}
    (h : extractFrom maxTotal fuel (archive.drop offset) total done = .ok entries) :
    ∃ new, entries = done ++ new ∧
      List.Forall₂ (Carries archive) (fileHeadersFrom fuel offset (archive.drop offset)) new ∧
      total + (new.map fun e => e.content.length).sum ≤ max total maxTotal := by
  induction fuel generalizing offset total done with
  | zero =>
    obtain rfl := Except.ok.inj h
    exact ⟨[], (List.append_nil _).symm, .nil, Nat.le_max_left _ _⟩
  | succ fuel ih =>
    unfold extractFrom at h
    unfold fileHeadersFrom
    split at h
    next hend =>
      rw [if_pos hend]
      obtain rfl := pure_ok.mp h
      exact ⟨[], (List.append_nil _).symm, .nil, Nat.le_max_left _ _⟩
    next hend =>
      rw [if_neg hend]
      obtain ⟨header, hheader, h⟩ := bind_ok.mp h
      obtain ⟨hsize, name, hname, hkind⟩ := readHeader_ok hheader
      simp only [hsize, List.drop_drop] at h ⊢
      rcases hkind with ⟨hfolder, hfile⟩ | ⟨hfolder, hregular, path, hpath, hfile⟩
      · have hnot : ¬ (((archive.drop offset).take block).getD 156 0 = 48 ∨
            ((archive.drop offset).take block).getD 156 0 = 0) := by
          rw [hfolder]
          decide
        rw [if_neg hnot]
        simp only [hfile] at h
        exact ih h
      · rw [if_pos hregular]
        simp only [hfile] at h
        obtain ⟨_, hlimit, h⟩ := bind_ok.mp h
        obtain ⟨_, hinside, h⟩ := bind_ok.mp h
        rw [refuseIf_ok, Nat.not_lt] at hlimit hinside
        obtain ⟨new, rfl, hcarries, hsum⟩ := ih h
        have hlength : ((archive.drop (offset + block)).take header.size).length = header.size := by
          rw [List.length_take, Nat.min_eq_left hinside]
        refine ⟨_ :: new, by rw [List.append_assoc]; rfl, .cons ?_ hcarries, ?_⟩
        · refine ⟨rfl, ?_, ?_, ?_⟩
          · rw [hlength, hheader]
            exact congrArg Except.ok (congrArg (Header.mk header.size) hfile)
          · rw [hlength]
            have hroom : block ≤ (archive.drop offset).length := by
              rw [not_or, Nat.not_lt] at hend
              exact hend.1
            have hblock : block = 512 := rfl
            simp only [List.length_drop] at hinside hroom
            omega
          · rw [hlength]
        · simp only [List.map_cons, List.sum_cons, hlength]
          omega

theorem extract_ok (h : extract archive maxTotal = .ok entries) :
    entries ≠ [] ∧ List.Forall₂ (Carries archive) (fileHeaders archive) entries ∧
      (entries.map fun e => e.content.length).sum ≤ maxTotal := by
  unfold extract at h
  obtain ⟨found, hfound, h⟩ := bind_ok.mp h
  obtain ⟨_, hnone, h⟩ := bind_ok.mp h
  obtain rfl := pure_ok.mp h
  have hfound : extractFrom maxTotal archive.length (archive.drop 0) 0 [] = .ok found := hfound
  obtain ⟨new, rfl, hcarries, hsum⟩ := extractFrom_carries hfound
  exact ⟨refuseIf_ok.mp hnone, hcarries, by omega⟩

/-- Every entry has its header. -/
theorem extract_mem {e : Entry} (h : extract archive maxTotal = .ok entries) (he : e ∈ entries) :
    ∃ spot ∈ fileHeaders archive, Carries archive spot e := by
  obtain ⟨-, hcarries, -⟩ := extract_ok h
  clear h
  generalize fileHeaders archive = spots at hcarries ⊢
  induction hcarries with
  | nil => cases he
  | @cons spot first spots rest hfirst _ ih =>
    rcases List.mem_cons.mp he with rfl | he
    · exact ⟨spot, .head _, hfirst⟩
    · obtain ⟨found, hmem, hfound⟩ := ih he
      exact ⟨found, .tail _ hmem, hfound⟩

/-! ## 3. The arithmetic -/

namespace Checked

open Lib.Checked

/-- `size.div_ceil(BLOCK) * BLOCK` -/
def padded (size : Nat) : Option Nat :=
  mulUsize (size / block + if 0 < size % block then 1 else 0) block

def field (header : Bytes) (start len : Nat) : Checked Error String := do
  let stop ← ofOption (addUsize start len)
  let bytes ← ofOption (slice header start stop)
  let stop := (bytes.findIdx? (· = 0)).getD len
  let text ← ofOption (slice bytes 0 stop)
  match fromUtf8 text with
  | some text => return trim text
  | none => throw (.malformed "bundle header is not valid UTF-8")

def octal (header : Bytes) (start len : Nat) : Checked Error Nat := do
  let text ← field header start len
  let trimmed := ((text.toList.dropWhile isPadding).reverse.dropWhile isPadding).reverse
  if trimmed = [] then return 0
  else
    match parseOctal trimmed with
    | some n => return n
    | none => throw (.malformed ("bundle header field " ++ debugStr (String.ofList trimmed)
        ++ " is not octal"))

def readHeader (header : Bytes) : Checked Error Header := do
  let name ← field header 0 100
  let pre ← ofOption (field header 345 155).run
  let size ← octal header 124 12
  let flag ← ofOption (header[156]?)
  if flag = 53 then return ⟨size, none⟩
  else if flag = 48 ∨ flag = 0 then
    let mode ← octal header 100 8
    ofResult (checkMode name mode)
    let path ← ofResult (checkPath (joined (pre.toOption.getD "") name))
    return ⟨size, some path⟩
  else
    throw (.rejected ("bundle entry " ++ debugStr name ++ " has type "
      ++ debugChar (Char.ofNat flag.toNat)
      ++ ", and a bundle may contain only regular files"))

/-- The loop of `extract`, for so many rounds: a loop that does not end has gone wrong, too. -/
def extractFrom (archive : Bytes) (maxTotal : Nat) :
    Nat → Nat → Nat → List Entry → Checked Error (List Entry)
  | 0, _, _, _ => ofOption none
  | rounds + 1, offset, total, entries => do
    let stop ← ofOption (addUsize offset block)
    if archive.length < stop then return entries
    else
      let header ← ofOption (slice archive offset stop)
      if header.all (· = 0) = true then return entries
      else
        let offset := stop
        let header ← readHeader header
        match header.file with
        | none =>
          let size ← ofOption (padded header.size)
          let offset ← ofOption (addUsize offset size)
          extractFrom archive maxTotal rounds offset total entries
        | some path =>
          let total ← ofOption (addUsize total header.size)
          ofResult (refuseIf (maxTotal < total)
            (.rejected ("bundle unpacks to more than the " ++ toString maxTotal ++ " byte limit")))
          let stop ← ofOption (addUsize offset header.size)
          ofResult (refuseIf (archive.length < stop)
            (.malformed ("bundle entry " ++ debugStr path.val ++ " claims " ++ toString header.size
              ++ " bytes but the archive ends first")))
          let content ← ofOption (slice archive offset stop)
          let size ← ofOption (padded header.size)
          let offset ← ofOption (addUsize offset size)
          extractFrom archive maxTotal rounds offset total
            (entries ++ [⟨path.val, content, path.property⟩])

def extract (archive : Bytes) (maxTotal : Nat) : Checked Error (List Entry) := do
  let entries ← extractFrom archive maxTotal (archive.length + 1) 0 0 []
  ofResult (refuseIf (entries = []) (.rejected "bundle contains no files"))
  return entries

end Checked

open Lib.Checked

theorem checked_padded {size : Nat} (h : size < 8 ^ 12) : Checked.padded size = some (padded size) := by
  have hsame : (size / block + if 0 < size % block then 1 else 0) * block = padded size := by
    unfold padded block
    split <;> omega
  have hle := padded_le size
  have hblock : block = 512 := rfl
  rw [Checked.padded, mulUsize_eq, hsame]
  rw [hsame]
  omega

/-- The position of the first zero, or the end. -/
theorem findIdx_zero (bytes : Bytes) :
    (bytes.findIdx? (· = 0)).getD bytes.length = (bytes.takeWhile (· ≠ 0)).length := by
  induction bytes with
  | nil => rfl
  | cons b rest ih =>
    by_cases hb : b = 0
    · simp [List.findIdx?_cons, hb]
    · simp only [List.findIdx?_cons, hb, decide_false, List.takeWhile_cons, ne_eq, not_false_eq_true,
        decide_true, if_true, List.length_cons, ← ih]
      cases rest.findIdx? (· = 0) <;> simp

section

variable {header : Bytes} {start len : Nat}

theorem checked_field (hheader : header.length = block) (h : start + len ≤ block) :
    Checked.field header start len = ofResult (field header start len) := by
  have hblock : block = 512 := rfl
  have hlen : ((header.drop start).take len).length = len := by
    rw [List.length_take, List.length_drop, hheader]
    omega
  have hstop := findIdx_zero ((header.drop start).take len)
  rw [hlen] at hstop
  unfold Checked.field field
  rw [ofOption_bind (addUsize_eq (by omega)), ofOption_bind (slice_eq (by omega))]
  dsimp only
  rw [hstop, ofOption_bind (slice_front (List.takeWhile_prefix _))]
  generalize fromUtf8 (((header.drop start).take len).takeWhile (· ≠ 0)) = found
  cases found with
  | none => rfl
  | some text => rfl

theorem checked_octal (hheader : header.length = block) (h : start + len ≤ block) :
    Checked.octal header start len = ofResult (octal header start len) := by
  unfold Checked.octal octal
  rw [checked_field hheader h]
  refine ofResult_bind _ _ _ fun text _ => ?_
  dsimp only
  generalize ((text.toList.dropWhile isPadding).reverse.dropWhile isPadding).reverse = trimmed
  split
  · rfl
  generalize parseOctal trimmed = found
  cases found with
  | none => rfl
  | some n => rfl

theorem checked_readHeader (hheader : header.length = block) :
    Checked.readHeader header = ofResult (readHeader header) := by
  have hblock : block = 512 := rfl
  have hflag : header[156]? = some (header.getD 156 0) := by
    rw [List.getD_eq_getElem?_getD, List.getElem?_eq_getElem (by omega)]
    rfl
  unfold Checked.readHeader readHeader
  rw [checked_field hheader (by decide)]
  refine ofResult_bind _ _ _ fun name _ => ?_
  have hpre : (ofResult (field header 345 155) : Checked Error String).run
      = some (field header 345 155) := rfl
  rw [checked_field hheader (by decide), ofOption_bind hpre, checked_octal hheader (by decide)]
  dsimp only
  refine ofResult_bind _ _ _ fun size _ => ?_
  rw [ofOption_bind hflag]
  split
  · rfl
  split
  · rw [checked_octal hheader (by decide)]
    refine ofResult_bind _ _ _ fun mode _ => ?_
    refine ofResult_bind _ _ _ fun _ _ => ?_
    exact ofResult_bind _ _ _ fun path _ => rfl
  · rfl

end

/-- **The loop.** The offset is never far behind the end of the archive, and what was unpacked so far is
    in front of the offset. -/
theorem checked_extractFrom (hlen : archive.length < 2 ^ 63) :
    ∀ {rounds fuel offset total : Nat} {entries : List Entry}, 0 < rounds →
      archive.length < offset + rounds → archive.length ≤ offset + fuel →
      offset ≤ archive.length + 8 ^ 12 + block → total ≤ offset → total ≤ archive.length →
      Checked.extractFrom archive maxTotal rounds offset total entries =
        ofResult (extractFrom maxTotal fuel (archive.drop offset) total entries) := by
  have hblock : block = 512 := rfl
  intro rounds
  induction rounds with
  | zero => exact fun h => absurd h (by decide)
  | succ rounds ih =>
    intro fuel offset total entries _ hrounds hfuel hoffset hbefore hinside
    show (_ >>= _ : Checked Error (List Entry)) = _
    rw [ofOption_bind (addUsize_eq (by omega))]
    by_cases hend : archive.length < offset + block
    · -- the archive is at its end
      rw [if_pos hend]
      cases fuel with
      | zero => rfl
      | succ fuel =>
        unfold extractFrom
        rw [if_pos (.inl (by rw [List.length_drop]; omega))]
        rfl
    · rw [if_neg hend, ofOption_bind (slice_eq (by omega))]
      obtain ⟨fuel, rfl⟩ : ∃ fuel', fuel = fuel' + 1 := ⟨fuel - 1, by omega⟩
      unfold extractFrom
      have hroom : ¬ (archive.drop offset).length < block := by
        rw [List.length_drop]
        omega
      by_cases hzero : ((archive.drop offset).take block).all (· = 0) = true
      · rw [if_pos hzero, if_pos (.inr hzero)]
        rfl
      rw [if_neg hzero, if_neg (not_or.mpr ⟨hroom, hzero⟩)]
      have hheader : ((archive.drop offset).take block).length = block := by
        rw [List.length_take]
        omega
      dsimp only
      rw [checked_readHeader hheader]
      refine ofResult_bind _ _ _ fun header hread => ?_
      have hsize := octal_lt (readHeader_ok hread).1
      have hpadded := padded_le header.size
      simp only [List.drop_drop]
      -- where the next round begins
      have hnext : Checked.padded header.size = some (padded header.size) := checked_padded hsize
      have hadd : addUsize (offset + block) (padded header.size) =
          some (offset + block + padded header.size) := addUsize_eq (by omega)
      cases header.file with
      | none =>
        dsimp only
        rw [ofOption_bind hnext, ofOption_bind hadd]
        exact ih (by omega) (by omega) (by omega) (by omega) (by omega) hinside
      | some path =>
        dsimp only
        rw [ofOption_bind (addUsize_eq (by omega))]
        refine ofResult_bind _ _ _ fun _ hlimit => ?_
        rw [ofOption_bind (addUsize_eq (by omega))]
        have hsame : (archive.length < offset + block + header.size) =
            ((archive.drop (offset + block)).length < header.size) := by
          rw [List.length_drop]
          exact propext ⟨fun _ => by omega, fun _ => by omega⟩
        simp only [hsame]
        refine ofResult_bind _ _ _ fun _ hfits => ?_
        rw [refuseIf_ok, ← hsame, Nat.not_lt] at hfits
        have hle := le_padded header.size
        rw [ofOption_bind (slice_eq hfits), ofOption_bind hnext, ofOption_bind hadd]
        exact ih (by omega) (by omega) (by omega) (by omega) (by omega) (by omega)

theorem checked_extract (maxTotal : Nat) (hlen : archive.length < 2 ^ 63) :
    Checked.extract archive maxTotal = ofResult (extract archive maxTotal) := by
  have hloop : Checked.extractFrom archive maxTotal (archive.length + 1) 0 0 [] =
      ofResult (extractFrom maxTotal archive.length (archive.drop 0) 0 []) :=
    checked_extractFrom hlen (by omega) (by omega) (by omega) (by omega) (by omega) (by omega)
  unfold Checked.extract extract
  rw [hloop]
  refine ofResult_bind _ _ _ fun entries _ => ?_
  exact ofResult_bind _ _ _ fun _ _ => rfl

/-- **`extract` is safe, and what it takes is in the archive.** No addition, rounding or slice goes wrong and
    the loop ends. The entries of an archive that is accepted are not none; they are the files of its
    headers in their order, each with the bytes behind its own header; the next header is behind these; and
    together they are within the limit. -/
theorem extract_takes_slices (archive : Bytes) (maxTotal : Nat) (hlen : archive.length < 2 ^ 63) :
    Checked.extract archive maxTotal = ofResult (extract archive maxTotal) ∧
    ∀ entries, extract archive maxTotal = .ok entries →
      entries ≠ [] ∧ List.Forall₂ (Carries archive) (fileHeaders archive) entries ∧
      ((fileHeaders archive).zip entries).Pairwise
        (fun a b => a.1.1 + block + a.2.content.length ≤ b.1.1) ∧
      (entries.map fun e => e.content.length).sum ≤ maxTotal := by
  refine ⟨checked_extract maxTotal hlen, fun entries h => ?_⟩
  obtain ⟨hne, hcarries, hsum⟩ := extract_ok h
  refine ⟨hne, hcarries, ?_, hsum⟩
  have hsorted := (fileHeadersFrom_sorted archive.length 0 archive).2
  have hfst : ((fileHeaders archive).zip entries).map Prod.fst = fileHeaders archive :=
    List.map_fst_zip (Nat.le_of_eq hcarries.length_eq)
  have hzip : ∀ a ∈ (fileHeaders archive).zip entries, Carries archive a.1 a.2 :=
    fun a ha => (List.forall₂_iff_zip.mp hcarries).2 ha
  change (fileHeaders archive).Pairwise _ at hsorted
  rw [← hfst, List.pairwise_map] at hsorted
  refine hsorted.imp_of_mem ?_
  intro a b ha _ ⟨size, hsize, hle⟩
  have hread := (readHeader_ok (hzip a ha).read).1
  obtain rfl : size = a.2.content.length := Except.ok.inj (hsize.symm.trans hread)
  exact Nat.le_trans (Nat.add_le_add_left (le_padded _) _) hle

/-- A file of less than eight bytes, with nothing in its header but the path and the size. -/
def tinyFile (path content : Bytes) : Bytes :=
  path ++ List.replicate (124 - path.length) 0 ++ UInt8.ofNat (48 + content.length) ::
    List.replicate 387 0 ++ content ++ List.replicate (512 - content.length) 0

/-- Three files, two of them with the path `d/a`. -/
def tinyArchive : Bytes :=
  tinyFile [100, 47, 97] [1] ++ tinyFile [98] [2, 3] ++ tinyFile [100, 47, 97] [4, 5, 6]

theorem extract_takes_slices_tiny : ∃ entries, extract tinyArchive 6 = .ok entries ∧
    entries.map (fun e => (e.path, e.content)) = [("d/a", [1]), ("b", [2, 3]), ("d/a", [4, 5, 6])] ∧
    List.Forall₂ (Carries tinyArchive) (fileHeaders tinyArchive) entries ∧
    ((fileHeaders tinyArchive).zip entries).Pairwise
      fun a b => a.1.1 + block + a.2.content.length ≤ b.1.1 := by
  have hread : (extract tinyArchive 6).toOption.map (·.map fun e => (e.path, e.content))
      = some [("d/a", [1]), ("b", [2, 3]), ("d/a", [4, 5, 6])] := by decide +kernel
  have hlen : tinyArchive.length < 2 ^ 63 := by decide +kernel
  cases h : extract tinyArchive 6 with
  | error e =>
    rw [h] at hread
    cases hread
  | ok entries =>
    rw [h] at hread
    have hsafe := (extract_takes_slices tinyArchive 6 hlen).2 entries h
    exact ⟨entries, rfl, Option.some.inj hread, hsafe.2.1, hsafe.2.2.1⟩

end Svidlet.Policy
