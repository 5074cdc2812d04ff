import Svidlet.Policy.Store
import Svidlet.Volume.Publish

/-!
# The three chains of a volume

The rest of the publishing side of `volume.rs`. A volume has three swap chains, with names of their
own, and `publish_identity`, `publish_policy` and `publish_tokens` go through the same steps in each:

> `..data        -> ..svidlet.N/`   `tls.key`, `tls.crt`, `ca.crt`
> `..policy-data -> ..policy.N/`    `policy/` with a file for each document, `policy.revision`
> `..jwt-data    -> ..jwt.N/`       `jwt/` with a file for each alias

`publishWith` is those steps, with a chain and the filling of the new generation as parameters.

A document's name is joined to a path. A name that begins with a slash replaces the path it is joined
to, and is then no place in the volume; `join` keeps that case, and such names are shown elsewhere not
to come.
-/

namespace Svidlet.Volume

open Lib Policy

/-! ## 1. Chains -/

/-- The names of a chain. -/
structure Chain where
  link : String
  pre : String
  /-- The entries that go through the link. -/
  visible : List String
  notVersions : ∀ x ∈ link :: tmpName link :: visible, versionOf x pre = none
  apart : link ∉ visible ∧ tmpName link ∉ visible ∧ tmpName link ≠ link
  deriving DecidableEq

def policyLink : String := "..policy-data"
def policyVersionPrefix : String := "..policy."
def policyDir : String := "policy"
def revisionFile : String := "policy.revision"

def jwtLink : String := "..jwt-data"
def jwtVersionPrefix : String := "..jwt."
def jwtDir : String := "jwt"

def identityChain : Chain :=
  ⟨dataLink, versionPrefix, [keyFile, certFile, caFile], by decide, by decide⟩

def policyChain : Chain :=
  ⟨policyLink, policyVersionPrefix, [policyDir, revisionFile], by decide, by decide⟩

def tokenChain : Chain := ⟨jwtLink, jwtVersionPrefix, [jwtDir], by decide, by decide⟩

/-- The steps of a publish. -/
def publishWith (c : Chain) (fill : String → Vol Unit) : Vol Unit := do
  let version ← nextVersion c.pre
  Fs.createDir [versionName c.pre version]
  fill (versionName c.pre version)
  linkEach c.link c.visible
  swap c.link c.pre version
  Fs.fsyncDir []
  removeStaleVersions c.pre version

/-- `Path::join` -/
def join (dir : Path) (name : String) : Path :=
  if startsWith name "/" then segments name else dir ++ segments name

/-- The loop over the documents. -/
def writeDocuments (dir : Path) (mode : Nat) : List PolicyDocument → Vol Unit
  | [] => return ()
  | document :: rest => do
    Fs.createDirAll (join dir document.name).dropLast
    writeFile (join dir document.name) ⟨document.content.toArray⟩ mode
    writeDocuments dir mode rest

def fillPolicy (dir : String) (bundle : PolicyBundle) (mode : Nat) : Vol Unit := do
  Fs.setPermissions [dir] 0o755
  Fs.createDir [dir, policyDir]
  Fs.setPermissions [dir, policyDir] 0o755
  writeDocuments [dir, policyDir] mode bundle.documents
  writeFile [dir, revisionFile] (bundle.revision ++ "\n").toUTF8 mode
  Fs.fsyncDir [dir]

/-- Publish a policy bundle. -/
def publishPolicy (bundle : PolicyBundle) (mode : Nat) : Vol Unit :=
  publishWith policyChain (fillPolicy · bundle mode)

/-- The revision currently published, if any. -/
def publishedRevision : Prog (FsSig ByteArray) (Option String) := do
  match ← (readToString [policyLink, revisionFile]).run with
  | .ok text => return if trim text = "" then none else some (trim text)
  | .error _ => return none

/-! ## 3. Tokens -/

/-- A name that is refused as an alias. -/
def notAlias (name : String) : Bool := name = "" || '/' ∈ name.toList || startsWith name "."

/-- The loop over the tokens. -/
def writeTokens (dir : Path) (modes : Modes) : List (String × String) → Vol Unit
  | [] => return ()
  | (name, token) :: rest => do
    writeFile (dir ++ [name]) token.toUTF8 modes.key
    chgrpKey (dir ++ [name]) modes.keyGid
    writeTokens dir modes rest

def fillTokens (dir : String) (tokens : List (String × String)) (modes : Modes) : Vol Unit := do
  Fs.setPermissions [dir] 0o755
  Fs.createDir [dir, jwtDir]
  Fs.setPermissions [dir, jwtDir] 0o755
  writeTokens [dir, jwtDir] modes tokens
  Fs.fsyncDir [dir, jwtDir]
  Fs.fsyncDir [dir]

/-- Publish JWT-SVIDs; the map is the list of its entries, in the order of the keys. -/
def publishTokens (tokens : List (String × String)) (modes : Modes) : Vol Unit :=
  match (tokens.map Prod.fst).find? notAlias with
  | some name => throw (.invalidInput (debugStr name ++ " is not a token alias"))
  | none => publishWith tokenChain (fillTokens · tokens modes)

/-- The tokens of the files that can be read, by name. -/
def readEach (dir : Path) : List String → Prog (FsSig ByteArray) (List (String × String))
  | [] => return []
  | name :: rest => do
    match ← (readToString (dir ++ [name])).run with
    | .ok token => return (name, token) :: (← readEach dir rest)
    | .error _ => readEach dir rest

/-- The tokens currently published, by alias. -/
def readTokens : Prog (FsSig ByteArray) (List (String × String)) := do
  match ← (Fs.readLink [jwtLink]).run with
  | .error _ => return []
  | .ok generation =>
    match ← (Fs.readDir (generation ++ [jwtDir])).run with
    | .error _ => return []
    | .ok names => readEach (generation ++ [jwtDir]) names

end Svidlet.Volume
