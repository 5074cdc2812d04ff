import Svidlet.Lib.FsCalls
import Svidlet.Policy.Rollout

/-!
# The bundle cache on disk

`svidlet/src/policy/oci/store.rs`, as programs over the calls of a filesystem. The tree is the
bundle directory, so its own path is empty here:

> `versions/sha256-…a1/`   an unpacked bundle
> `current`                a link to one of them

A bundle is unpacked into `versions/.staging-sha256-…` and renamed, so that `has`, which only looks
whether the directory is there, can stand for "unpacked". The two single files beside these,
`state.json` and `rollout.toml`, are written whole and renamed; they are kept apart from the tree
and belong to the poll.

The recursion of `collect` has a bound, the one a path has: deeper down every call on the path
fails, so a directory that is read at all is read to the end.
-/

namespace Svidlet.Policy

open Lib

/-- One document of a policy bundle. -/
structure PolicyDocument where
  name : String
  content : Bytes
  deriving DecidableEq, Repr

structure PolicyBundle where
  revision : String
  documents : List PolicyDocument
  deriving DecidableEq, Repr

/-- A program over the bundle directory. -/
abbrev Disk := Fallible (FsSig Bytes) Error

/-- `.map_err(|e| Error::Io(format!("{message}: {e}")))?` -/
def orIo {α : Type} (message : String) (x : Fallible (FsSig Bytes) IoError α) : Disk α :=
  ExceptT.mk do
    match ← x.run with
    | .ok a => return .ok a
    | .error e => return .error (.io (message ++ ": " ++ ioText e))

/-- `let _ = ..` -/
def ignoring (x : Fallible (FsSig Bytes) IoError Unit) : Disk Unit := ExceptT.mk do
  let _ ← x.run
  return .ok ()

/-! ## 1. Names -/

def versions : String := "versions"
def current : String := "current"
def currentTmp : String := "current.tmp"
def stagingPrefix : String := ".staging-"

/-- `digest.replace(':', "-")` -/
def dirName (digest : String) : String :=
  String.ofList (digest.toList.map fun c => if c = ':' then '-' else c)

def versionsDir : Path := [versions]

/-- A digest has no slash in it, so this is one component. -/
def versionDir (digest : String) : Path := [versions, dirName digest]

def stagingDir (digest : String) : Path := [versions, stagingPrefix ++ dirName digest]

/-- The components of a path, written with slashes. -/
def joinSlash (path : Path) : String := "/".intercalate path

structure Store where
  /-- Where the directory is, for messages. -/
  root : String
  /-- How many superseded versions stay. -/
  keep : Nat
  keepsOne : 1 ≤ keep

namespace Store

def new (root : String) (keep : Nat) : Store := ⟨root, max keep 1, Nat.le_max_right _ _⟩

variable (store : Store)

/-- `path.display()` -/
def display (path : Path) : String := store.root ++ "/" ++ joinSlash path

def prepare : Disk Unit :=
  orIo ("cannot create " ++ store.display versionsDir) (Fs.createDirAll versionsDir)

def has (digest : String) : Prog (FsSig Bytes) Bool := Fs.isDir (versionDir digest)

/-! ## 2. Unpacking -/

def newFileMode : Nat := 0o644

/-- `fs::write` -/
def writeFile (path : Path) (content : Bytes) : Fallible (FsSig Bytes) IoError Unit := do
  let file ← Fs.openTruncate path newFileMode
  Fs.writeAll file content

/-- One round of the loop over the entries. The check that the path is inside cannot fail, since an
    entry's path is made of ordinary segments; the source has it as a second line of defence. -/
def writeEntry (staging : Path) (entry : Entry) : Disk Unit := do
  let path := staging ++ segments entry.path
  if staging <+: path then
    orIo ("cannot create " ++ store.display path.dropLast) (Fs.createDirAll path.dropLast)
    orIo ("cannot write " ++ store.display path) (writeFile path entry.content)
  else
    ignoring (Fs.removeDirAll staging)
    throw (.rejected ("bundle entry " ++ debugStr entry.path
      ++ " resolves outside its version directory"))

def writeEntries (staging : Path) : List Entry → Disk Unit
  | [] => return ()
  | entry :: rest => do
    store.writeEntry staging entry
    writeEntries staging rest

/-- `fs::rename(..)`, cleaning up when it fails. -/
def moveIntoPlace (staging final : Path) : Disk Unit := ExceptT.mk do
  match ← (Fs.rename staging final).run with
  | .ok _ => return .ok ()
  | .error e => do
    let _ ← (Fs.removeDirAll staging).run
    return .error (.io ("cannot move " ++ store.display staging ++ " into place: " ++ ioText e))

/-- A fresh staging directory, filled. -/
def stage (staging : Path) (entries : List Entry) : Disk Unit := do
  ignoring (Fs.removeDirAll staging)
  orIo ("cannot create " ++ store.display staging) (Fs.createDirAll staging)
  store.writeEntries staging entries

/-- Unpack a bundle into its version directory. -/
def writeVersion (digest : String) (entries : List Entry) : Disk Unit := do
  if ← ExceptT.lift (Fs.pathExists (versionDir digest)) then return ()
  else do
    store.stage (stagingDir digest) entries
    store.moveIntoPlace (stagingDir digest) (versionDir digest)

/-! ## 3. The current version -/

/-- Point `current` at a version. -/
def setCurrent (digest : String) : Disk Unit := do
  if ← ExceptT.lift (has digest) then
    ignoring (Fs.removeFile [currentTmp])
    orIo ("cannot create " ++ store.display [currentTmp])
      (Fs.symlink (versionDir digest) [currentTmp])
    orIo ("cannot move " ++ store.display [current] ++ " into place")
      (Fs.rename [currentTmp] [current])
  else throw (.io (digest ++ " is not unpacked on this node"))

/-! ## 4. Reading back -/

/-- What is at one name of a directory: the files of a subdirectory, or one file. `dir` is where
    the walk started and `sub` how far down it is. -/
def collectAt (deeper : Path → Disk (List PolicyDocument)) (dir path : Path) :
    Disk (List PolicyDocument) := do
  if ← ExceptT.lift (Fs.isDir (dir ++ path)) then deeper path
  else do
    let content ← orIo ("cannot read " ++ store.display (dir ++ path)) (Fs.readFile (dir ++ path))
    return [⟨joinSlash path, content⟩]

def collectEach (deeper : Path → Disk (List PolicyDocument)) (dir sub : Path) :
    List String → Disk (List PolicyDocument)
  | [] => return []
  | name :: rest => do
    let here ← store.collectAt deeper dir (sub ++ [name])
    let others ← collectEach deeper dir sub rest
    return here ++ others

def collect (dir : Path) : Nat → Path → Disk (List PolicyDocument)
  | 0, sub => throw (.io ("cannot read " ++ store.display (dir ++ sub) ++ ": "
      ++ ioText .tooManyLinks))
  | depth + 1, sub => do
    let names ← orIo ("cannot read " ++ store.display (dir ++ sub)) (Fs.readDir (dir ++ sub))
    store.collectEach (collect dir depth) dir sub names

/-- `documents.sort_by(|a, b| a.name.cmp(&b.name))` -/
def sortByName (documents : List PolicyDocument) : List PolicyDocument :=
  documents.insertionSort fun a b => a.name ≤ b.name

/-- Read a version back as a policy bundle. -/
def read (digest : String) : Disk PolicyBundle := do
  let documents ← store.collect (versionDir digest) FileTree.walkLimit []
  if documents = [] then throw (.rejected (digest ++ " unpacked to no files"))
  else return ⟨digest, sortByName documents⟩

/-! ## 5. Pruning -/

/-- The directory names prune leaves. -/
def kept (keepDigests : List String) : List String :=
  (keepDigests.take (store.keep + 1)).map dirName

def pruneEach (kept : List String) : List String → Nat → Prog (FsSig Bytes) Nat
  | [], removed => return removed
  | name :: rest, removed => do
    if startsWith name stagingPrefix then
      let _ ← (Fs.removeDirAll [versions, name]).run
      pruneEach kept rest removed
    else if name ∈ kept then pruneEach kept rest removed
    else
      match ← (Fs.removeDirAll [versions, name]).run with
      | .ok _ => pruneEach kept rest (removed + 1)
      | .error _ => pruneEach kept rest removed

/-- Delete superseded versions. -/
def prune (keepDigests : List String) : Prog (FsSig Bytes) Nat := do
  match ← (Fs.readDir versionsDir).run with
  | .ok names => pruneEach (store.kept keepDigests) names 0
  | .error _ => return 0

end Store

end Svidlet.Policy
