import Svidlet.Lib.FsCalls
import Svidlet.Lib.Text

/-!
# Publishing an identity into a volume

`volume.rs`, the identity chain. A volume is the tree below one target path, so the target itself
is the empty path here:

> `..data -> ..svidlet.N/`, with `tls.key`, `tls.crt` and `ca.crt` inside, and a link of each of
> these names beside it that goes through `..data`.

A publish picks the next free number, fills a fresh directory, makes the visible links, and swaps
`..data` with `rename`; then it collects the older generations. Files hold bytes, and a text is
published as its UTF-8 encoding.

The release build does not check overflow, so version arithmetic is modulo `2 ^ 64`.
-/

namespace Svidlet.Volume

open Lib

/-! ## 1. Names -/

def dataLink : String := "..data"
def versionPrefix : String := "..svidlet."
def keyFile : String := "tls.key"
def certFile : String := "tls.crt"
def caFile : String := "ca.crt"

/-- `format!("{link_name}_tmp")` -/
def tmpName (linkName : String) : String := linkName ++ "_tmp"

/-- `format!("{prefix}{version}")` -/
def versionName (pre : String) (version : Nat) : String := pre ++ toString version

/-- The certificate and its key. One atomic swap. -/
structure Identity where
  keyPem : String
  certChainPem : String
  caPem : String
  deriving DecidableEq, Repr

structure Modes where
  key : Nat
  cert : Nat
  keyGid : Option Nat
  deriving DecidableEq, Repr

/-- A program over one volume. -/
abbrev Vol := Fallible (FsSig ByteArray) IoError

/-! ## 2. Versions -/

def versionOf (name pre : String) : Option Nat := (stripPrefix name pre).bind parseU64

/-- The number after the highest version among the names of a directory. -/
def versionAfter (entries : List String) (pre : String) : Nat :=
  ((entries.filterMap (versionOf · pre)).foldl max 0 + 1) % 2 ^ 64

/-- An unreadable directory counts as an empty one. -/
def nextVersion (pre : String) : Vol Nat := do
  let entries ← ExceptT.lift (Fs.readDir []).run
  match entries with
  | .ok names => return versionAfter names pre
  | .error _ => return versionAfter [] pre

/-- The versions `remove_stale_versions` deletes: all but `keep` and the one before it. -/
def isStale (pre : String) (keep : Nat) (name : String) : Bool :=
  match versionOf name pre with
  | some n => n ≠ keep ∧ (n + 1) % 2 ^ 64 ≠ keep
  | none => false

/-- `let _ = fs::remove_dir_all(..)` over the stale names. -/
def removeEach : List String → Vol Unit
  | [] => return ()
  | name :: rest => do
    let _ ← ExceptT.lift (Fs.removeDirAll [name]).run
    removeEach rest

def removeStaleVersions (pre : String) (keep : Nat) : Vol Unit := do
  let entries ← Fs.readDir []
  removeEach (entries.filter (isStale pre keep))

/-! ## 3. The steps of a publish -/

def writeFile (path : Path) (contents : ByteArray) (mode : Nat) : Vol Unit := do
  let f ← Fs.openTruncate path mode
  Fs.writeAll f contents
  Fs.syncAll f
  Fs.setPermissions path mode

/-- Make the link unless something of that name is there. -/
def link (name : String) (pointsTo : Path) : Vol Unit := do
  match ← ExceptT.lift (Fs.symlinkMetadata [name]).run with
  | .ok () => return ()
  | .error _ => Fs.symlink pointsTo [name]

/-- `for name in [..] { link(..)?; }` -/
def linkEach (linkName : String) : List String → Vol Unit
  | [] => return ()
  | name :: rest => do
    link name [linkName, name]
    linkEach linkName rest

/-- Swap a chain's data link to a new version, through the chain's one temporary link. -/
def swap (linkName pre : String) (version : Nat) : Vol Unit := do
  let _ ← ExceptT.lift (Fs.removeFile [tmpName linkName]).run
  Fs.symlink [versionName pre version] [tmpName linkName]
  Fs.rename [tmpName linkName] [linkName]

def chgrpKey (path : Path) : Option Nat → Vol Unit
  | some gid => Fs.chgrp path gid
  | none => return ()

/-- The three files of a generation, once its directory is there. -/
def fillVersion (dir : String) (identity : Identity) (modes : Modes) : Vol Unit := do
  Fs.setPermissions [dir] 0o755
  writeFile [dir, keyFile] identity.keyPem.toUTF8 modes.key
  chgrpKey [dir, keyFile] modes.keyGid
  writeFile [dir, certFile] identity.certChainPem.toUTF8 modes.cert
  writeFile [dir, caFile] identity.caPem.toUTF8 modes.cert
  Fs.fsyncDir [dir]

/-- Publish the certificate chain. -/
def publishIdentity (identity : Identity) (modes : Modes) : Vol Unit := do
  let version ← nextVersion versionPrefix
  Fs.createDir [versionName versionPrefix version]
  fillVersion (versionName versionPrefix version) identity modes
  linkEach dataLink [keyFile, certFile, caFile]
  swap dataLink versionPrefix version
  Fs.fsyncDir []
  removeStaleVersions versionPrefix version

/-! ## 4. Reading back -/

/-- `fs::read_to_string` -/
def readToString (path : Path) : Vol String := do
  match String.fromUTF8? (← Fs.readFile path) with
  | some text => return text
  | none => throw (.other "stream did not contain valid UTF-8")

def readGeneration (dir : Path) : Vol Identity := do
  return {
    keyPem := ← readToString (dir ++ [keyFile])
    certChainPem := ← readToString (dir ++ [certFile])
    caPem := ← readToString (dir ++ [caFile])
  }

/-- Resolve `..data` once and read all three files from that generation; start over, at most four
    times in all, when the generation was collected meanwhile. -/
def readIdentityFrom (last : Option IoError) : Nat → Vol Identity
  | 0 => throw (last.getD .notFound)
  | tries + 1 => do
    let generation ← Fs.readLink [dataLink]
    match ← ExceptT.lift (readGeneration generation).run with
    | .ok identity => return identity
    | .error .notFound => readIdentityFrom (some .notFound) tries
    | .error e => throw e

def readIdentity : Vol Identity := readIdentityFrom none 4

def readCertChain : Vol String := do
  match ← ExceptT.lift (readToString [dataLink, certFile]).run with
  | .ok text => return text
  | .error _ => readToString [certFile]

end Svidlet.Volume
