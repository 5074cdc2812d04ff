import Svidlet.Lib.Fs
import Svidlet.Lib.Result
import Svidlet.Lib.Text

/-!
# Reading a bundle's archive

`svidlet/src/policy/oci/tarball.rs`: a narrow tar reader. It accepts regular files with ordinary
relative names and refuses the rest, and the names it accepts are carried as such: an `Entry` cannot
be built with a path that has an empty segment, a `.` or a `..`.

An archive is a list of bytes, and the loop's offset is what has been dropped from it. Sizes are
unbounded here; a header can only hold sizes below `8 ^ 12`.

Also here are the errors of the whole bundle code, which every file of it returns.
-/

namespace Svidlet.Policy

open Lib

abbrev Bytes := List UInt8

/-- Why a poll did not end with a new bundle in place. -/
inductive Error where
  | config (message : String)
  | fetch (message : String)
  | signature (message : String)
  | malformed (message : String)
  | rejected (message : String)
  | stale (message : String)
  | io (message : String)
  deriving DecidableEq, Repr

/-- `Display` -/
def Error.text : Error → String
  | .config m => "bundle configuration is invalid: " ++ m
  | .fetch m => "registry fetch failed: " ++ m
  | .signature m => "signature verification failed: " ++ m
  | .malformed m => "unusable content: " ++ m
  | .rejected m => "refused: " ++ m
  | .stale m => "stale: " ++ m
  | .io m => "io error: " ++ m

/-- `std::str::from_utf8` -/
def fromUtf8 (bytes : Bytes) : Option String := String.fromUTF8? ⟨bytes.toArray⟩

/-! ## 1. Paths -/

/-- The components of a relative path. -/
def segments (path : String) : Path := (splitChar '/' path.toList).map String.ofList

/-- Ordinary segments only. -/
def PlainPath (path : String) : Prop :=
  ∀ segment ∈ splitChar '/' path.toList, segment ≠ [] ∧ segment ≠ ['.'] ∧ segment ≠ ['.', '.']

/-- `str::trim_start_matches("./")` -/
def trimDotSlash : List Char → List Char
  | '.' :: '/' :: rest => trimDotSlash rest
  | chars => chars

def checkSegments (raw : String) : List (List Char) → Except Error Unit
  | [] => .ok ()
  | segment :: rest => do
    refuseIf (segment = [])
      (.rejected ("bundle entry " ++ debugStr raw ++ " has an empty path segment"))
    refuseIf (segment = ['.'] ∨ segment = ['.', '.'])
      (.rejected ("bundle entry " ++ debugStr raw ++ " tries to escape the bundle directory"))
    checkSegments raw rest

theorem checkSegments_ok {raw : String} {parts : List (List Char)} {u : Unit}
    (h : checkSegments raw parts = .ok u) :
    ∀ part ∈ parts, part ≠ [] ∧ part ≠ ['.'] ∧ part ≠ ['.', '.'] := by
  induction parts with
  | nil =>
    intro part hpart
    cases hpart
  | cons first rest ih =>
    unfold checkSegments at h
    obtain ⟨_, hempty, h⟩ := bind_ok.mp h
    obtain ⟨_, hdots, h⟩ := bind_ok.mp h
    rw [refuseIf_ok] at hempty hdots
    intro part hpart
    rcases List.mem_cons.mp hpart with rfl | hpart
    · exact ⟨hempty, not_or.mp hdots⟩
    · exact ih h part hpart

/-- Accept only a relative path made of ordinary segments. -/
def checkPath (raw : String) : Except Error { path : String // PlainPath path } :=
  let path := String.ofList (trimDotSlash raw.toList)
  if path.isEmpty then .error (.rejected "bundle contains an entry with no name")
  else if startsWith path "/" then
    .error (.rejected ("bundle entry " ++ debugStr raw ++ " is an absolute path"))
  else if '\\' ∈ path.toList ∨ '\x00' ∈ path.toList then
    .error (.rejected ("bundle entry " ++ debugStr raw
      ++ " contains a character not allowed in a path"))
  else
    match h : checkSegments raw (splitChar '/' path.toList) with
    | .ok _ => .ok ⟨path, checkSegments_ok h⟩
    | .error e => .error e

/-- One file from a bundle. -/
structure Entry where
  path : String
  content : Bytes
  plain : PlainPath path

/-! ## 2. Header fields -/

/-- The text of a field, up to the first zero byte. -/
def field (header : Bytes) (start len : Nat) : Except Error String :=
  match fromUtf8 (((header.drop start).take len).takeWhile (· ≠ 0)) with
  | some text => .ok (trim text)
  | none => .error (.malformed "bundle header is not valid UTF-8")

def isOctal (c : Char) : Bool := '0'.toNat ≤ c.toNat && c.toNat ≤ '7'.toNat

/-- `usize::from_str_radix(text, 8)` -/
def parseOctal (text : List Char) : Option Nat :=
  let digits := dropPlus text
  if digits ≠ [] ∧ digits.all isOctal = true ∧ Nat.ofDigitChars 8 digits 0 < 2 ^ 64 then
    some (Nat.ofDigitChars 8 digits 0)
  else none

def isPadding (c : Char) : Bool := c = ' ' || c = '\x00'

def octal (header : Bytes) (start len : Nat) : Except Error Nat := do
  let text ← field header start len
  let trimmed := ((text.toList.dropWhile isPadding).reverse.dropWhile isPadding).reverse
  if trimmed = [] then return 0
  else
    match parseOctal trimmed with
    | some n => return n
    | none => throw (.malformed ("bundle header field " ++ debugStr (String.ofList trimmed)
        ++ " is not octal"))

/-! ## 3. The archive -/

def block : Nat := 512

/-- `size.div_ceil(BLOCK) * BLOCK` -/
def padded (size : Nat) : Nat := (size + block - 1) / block * block

/-- What a header says of the entry that follows it; nothing for a directory. -/
structure Header where
  size : Nat
  file : Option { path : String // PlainPath path }

/-- `format!("{mode:o}")` -/
def octalText (n : Nat) : String := String.ofList (Nat.toDigits 8 n)

def checkMode (name : String) (mode : Nat) : Except Error Unit := refuseIf (mode &&& 0o7000 ≠ 0)
    (.rejected ("bundle entry " ++ debugStr name ++ " sets mode " ++ octalText mode
      ++ ", which is not allowed"))

def readHeader (header : Bytes) : Except Error Header := do
  let name ← field header 0 100
  let pre := (field header 345 155).toOption.getD ""
  let size ← octal header 124 12
  let flag := header.getD 156 0
  if flag = 53 then return ⟨size, none⟩
  else if flag = 48 ∨ flag = 0 then
    let mode ← octal header 100 8
    checkMode name mode
    let path ← checkPath (if pre.isEmpty then name else pre ++ "/" ++ name)
    return ⟨size, some path⟩
  else
    throw (.rejected ("bundle entry " ++ debugStr name ++ " has type "
      ++ debugChar (Char.ofNat flag.toNat)
      ++ ", and a bundle may contain only regular files"))

/-- The loop. `rest` is the archive from the offset on; every round drops a block, so a fuel of the
    archive's length is never used up. -/
def extractFrom (maxTotal : Nat) : Nat → Bytes → Nat → List Entry → Except Error (List Entry)
  | 0, _, _, entries => .ok entries
  | fuel + 1, rest, total, entries => do
    if rest.length < block ∨ (rest.take block).all (· = 0) = true then return entries
    else
      let header ← readHeader (rest.take block)
      let body := rest.drop block
      match header.file with
      | none => extractFrom maxTotal fuel (body.drop (padded header.size)) total entries
      | some path =>
        refuseIf (maxTotal < total + header.size)
          (.rejected ("bundle unpacks to more than the " ++ toString maxTotal ++ " byte limit"))
        refuseIf (body.length < header.size)
          (.malformed ("bundle entry " ++ debugStr path.val ++ " claims " ++ toString header.size
            ++ " bytes but the archive ends first"))
        extractFrom maxTotal fuel (body.drop (padded header.size)) (total + header.size)
          (entries ++ [⟨path.val, body.take header.size, path.property⟩])

/-- Read a POSIX tar, returning its regular files in archive order. -/
def extract (archive : Bytes) (maxTotal : Nat) : Except Error (List Entry) := do
  let entries ← extractFrom maxTotal archive.length archive 0 []
  refuseIf (entries = []) (.rejected "bundle contains no files")
  return entries

end Svidlet.Policy
