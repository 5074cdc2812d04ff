import Svidlet.Policy.Tarball

/-!
# From signed bytes to a ring

`svidlet/src/policy/oci/verify.rs` and `rollout.rs`: opening the signed envelope, reading the rollout
manifest in it, refusing one that is old, and finding the ring this node is in.

> trusted key  →  envelope  →  manifest  →  ring  →  digest  →  bundle bytes

Every arrow is a function here, and every one of them can refuse. What the functions rest on is not
in the repository: the hash, the signature scheme, base64, and the readers of JSON and TOML.  They
are the fields of `Crates`, and nothing is assumed of them.

**A matcher that can stop the process.** `glob_match` cuts its text at byte offsets, and a cut
inside a character panics; the release build then aborts. So `globMatch` and all that calls it
answer an `Option`, and `none` is the end of the process.
-/

namespace Svidlet.Policy

open Lib

/-! ## 1. What is read, and with what -/

/-- The envelope a release pipeline produces around `rollout.toml`. -/
structure SignedEnvelope where
  svidletSignature : Nat
  algorithm : String
  payload : String
  signature : String
  deriving DecidableEq, Repr

structure Match where
  clusters : List String
  nodeHashPercent : Option Nat
  nodes : List String
  deriving DecidableEq, Repr

structure Ring where
  name : String
  matching : Match
  bundle : String
  deriving DecidableEq, Repr

structure Rollout where
  schema : Nat
  freeze : Bool
  sequence : Option Nat
  validUntil : Option Int64
  rings : List Ring
  deriving DecidableEq, Repr

/-- The functions of other crates: what they return, and the text of the error where there is one. -/
structure Crates where
  sha256 : Bytes → Bytes
  /-- key, payload, signature -/
  ed25519 : Bytes → Bytes → Bytes → Bool
  base64 : String → Except String Bytes
  envelopeJson : Bytes → Except String SignedEnvelope
  /-- The digests of the layers of an OCI manifest. -/
  manifestJson : String → Except String (List String)
  rolloutToml : String → Except String Rollout
  /-- The schema `bundle.toml` declares. -/
  bundleToml : String → Except String Nat
  utf8Error : Bytes → String

def supportedSchema : Nat := 1

namespace Crates

variable (K : Crates)

def utf8 (bytes : Bytes) (what : String) : Except Error String :=
  match fromUtf8 bytes with
  | some text => .ok text
  | none => .error (.malformed (what ++ " is not UTF-8: " ++ K.utf8Error bytes))

/-! ## 2. Verifying -/

/-- `format!("{byte:02x}")` -/
def hexByte (byte : UInt8) : List Char :=
  [Nat.digitChar (byte.toNat / 16), Nat.digitChar (byte.toNat % 16)]

/-- `sha256:<hex>` over `bytes`, in the form OCI uses. -/
def sha256Digest (bytes : Bytes) : String :=
  "sha256:" ++ String.ofList ((K.sha256 bytes).flatMap hexByte)

/-- Check that `bytes` really is what `expected` names. -/
def checkDigest (bytes : Bytes) (expected : String) : Except Error Unit :=
  refuseIf (K.sha256Digest bytes ≠ expected)
    (.signature ("content digest is " ++ K.sha256Digest bytes
      ++ ", but the signed manifest named " ++ expected))

end Crates

structure PublicKey where
  raw : Bytes
  id : String
  deriving DecidableEq, Repr

namespace Crates

variable (K : Crates)

def verify (key : PublicKey) (payload signature : Bytes) : Except Error Unit :=
  refuseIf (K.ed25519 key.raw payload signature = false)
    (.signature ("the signature does not verify against trusted key " ++ key.id))

/-- Open a signed envelope, returning the payload only if the signature holds. -/
def openEnvelope (envelopeJson : Bytes) (key : PublicKey) : Except Error Bytes := do
  let envelope ← (K.envelopeJson envelopeJson).mapError fun e =>
    .malformed ("signed envelope is not valid JSON: " ++ e)
  refuseIf (envelope.svidletSignature ≠ 1)
    (.malformed ("signed envelope schema " ++ toString envelope.svidletSignature
      ++ " is not supported"))
  refuseIf (envelope.algorithm.toList.map Char.toLower ≠ "ed25519".toList)
    (.malformed ("signature algorithm " ++ debugStr envelope.algorithm ++ " is not supported"))
  let payload ← (K.base64 (trim envelope.payload)).mapError fun e =>
    .malformed ("envelope payload is not valid base64: " ++ e)
  let signature ← (K.base64 (trim envelope.signature)).mapError fun e =>
    .malformed ("envelope signature is not valid base64: " ++ e)
  K.verify key payload signature
  return payload

end Crates

/-! ## 3. Which ring a node is in -/

/-- Try every suffix of the text that starts at a character. The source tries every byte offset in
    turn, so going past a character of more than one byte panics. -/
def anySuffix (f : List Char → Option Bool) : List Char → Option Bool
  | [] => f []
  | c :: rest =>
    match f (c :: rest) with
    | some false => if c.utf8Size = 1 then anySuffix f rest else none
    | answer => answer

/-- `glob_match`, with a bound on the stars still to come. -/
def globFrom : Nat → List Char → List Char → Option Bool
  | 0, pattern, text => some (pattern = text)
  | stars + 1, pattern, text =>
    match splitOnce '*' pattern with
    | none => some (pattern = text)
    | some (head, tail) =>
      if head.isPrefixOf text then
        if '*' ∈ tail then anySuffix (globFrom stars tail) (text.drop head.length)
        else some (tail.isSuffixOf (text.drop head.length))
      else some false

/-- `*` matches any run of characters; everything else is literal. -/
def globMatch (pattern text : String) : Option Bool :=
  globFrom pattern.toList.length pattern.toList text.toList

/-- `Iterator::any` for a test that may panic. -/
def anyM (f : String → Option Bool) : List String → Option Bool
  | [] => some false
  | x :: rest =>
    match f x with
    | some false => anyM f rest
    | answer => answer

def utf8Bytes (s : String) : Bytes := s.toUTF8.data.toList

/-- A node's stable position in `0..100`. -/
def Crates.nodeBucket (K : Crates) (cluster node : String) : Nat :=
  let hash := K.sha256 (utf8Bytes cluster ++ 0 :: utf8Bytes node)
  ((hash.getD 0 0).toNat * 2 ^ 24 + (hash.getD 1 0).toNat * 2 ^ 16 + (hash.getD 2 0).toNat * 2 ^ 8
    + (hash.getD 3 0).toNat) % 100

namespace Match

/-- An empty match matches everything. -/
def isCatchAll (m : Match) : Bool :=
  m.clusters.isEmpty && m.nodeHashPercent.isNone && m.nodes.isEmpty

/-- `Match::matches`: any clause is enough. -/
def takes (K : Crates) (m : Match) (cluster node : String) : Option Bool :=
  if m.isCatchAll then some true
  else if node ∈ m.nodes then some true
  else
    match anyM (globMatch · cluster) m.clusters with
    | some false =>
      match m.nodeHashPercent with
      | some percent => some (K.nodeBucket cluster node < percent)
      | none => some false
    | answer => answer

end Match

/-- The first ring that takes the node. -/
def firstRing (K : Crates) (cluster node : String) : List Ring → Option (Option Ring)
  | [] => some none
  | ring :: rest =>
    match ring.matching.takes K cluster node with
    | some true => some (some ring)
    | some false => firstRing K cluster node rest
    | none => none

namespace Rollout

/-- The ring this node belongs to, and the bundle it should be running. -/
def target (K : Crates) (rollout : Rollout) (cluster node : String) : Option (Option Ring) :=
  firstRing K cluster node rollout.rings

end Rollout

theorem firstRing_mem {K : Crates} {cluster node : String} {rings : List Ring} {ring : Ring}
    (h : firstRing K cluster node rings = some (some ring)) : ring ∈ rings := by
  induction rings with
  | nil => cases h
  | cons first rest ih =>
    unfold firstRing at h
    split at h
    · cases h
      exact .head _
    · exact .tail _ (ih h)
    · cases h

/-! ## 4. Reading a manifest -/

/-- `u8::is_ascii_hexdigit` -/
def isHexDigit (c : Char) : Bool := c.isDigit || ('a'.toNat ≤ c.toNat && c.toNat ≤ 'f'.toNat)
    || ('A'.toNat ≤ c.toNat && c.toNat ≤ 'F'.toNat)

/-- The source counts bytes; a text of hex digits has as many characters. -/
def checkDigestForm (digest ring : String) : Except Error Unit :=
  match stripPrefix digest "sha256:" with
  | none => .error (.malformed ("ring " ++ debugStr ring ++ " names bundle " ++ debugStr digest
      ++ ", which is not a sha256: digest"))
  | some hex =>
    refuseIf (hex.toList.length ≠ 64 ∨ hex.toList.all isHexDigit = false)
      (.malformed ("ring " ++ debugStr ring ++ " names bundle " ++ debugStr digest
        ++ ", whose digest is not 64 hex characters"))

def checkPercent (ring : Ring) : Except Error Unit :=
  match ring.matching.nodeHashPercent with
  | some percent =>
    refuseIf (100 < percent)
      (.malformed ("ring " ++ debugStr ring.name ++ " has node_hash_percent = "
        ++ toString percent ++ ", which is above 100"))
  | none => .ok ()

def checkRings : List Ring → Except Error Unit
  | [] => .ok ()
  | ring :: rest => do
    refuseIf (ring.name.isEmpty = true) (.malformed "a ring has no name")
    checkDigestForm ring.bundle ring.name
    checkPercent ring
    checkRings rest

def Rollout.parse (K : Crates) (toml : Bytes) : Except Error Rollout := do
  let text ← K.utf8 toml "rollout manifest"
  let rollout ← (K.rolloutToml text).mapError fun e =>
    .malformed ("rollout manifest is not valid TOML: " ++ e)
  refuseIf (rollout.schema ≠ supportedSchema)
    (.malformed ("rollout manifest schema " ++ toString rollout.schema
      ++ " is not supported (this build understands " ++ toString supportedSchema ++ ")"))
  checkRings rollout.rings
  return rollout

theorem checkRings_ok {rings : List Ring} {u : Unit} (h : checkRings rings = .ok u) :
    ∀ ring ∈ rings, checkDigestForm ring.bundle ring.name = .ok () := by
  induction rings with
  | nil =>
    intro ring hring
    cases hring
  | cons first rest ih =>
    unfold checkRings at h
    obtain ⟨_, _, h⟩ := bind_ok.mp h
    obtain ⟨_, hform, h⟩ := bind_ok.mp h
    obtain ⟨_, _, h⟩ := bind_ok.mp h
    intro ring hring
    rcases List.mem_cons.mp hring with rfl | hring
    · exact hform
    · exact ih h ring hring

/-- A manifest that was read names well-formed digests only. -/
theorem Rollout.parse_ok {K : Crates} {toml : Bytes} {rollout : Rollout}
    (h : Rollout.parse K toml = .ok rollout) :
    ∀ ring ∈ rollout.rings, checkDigestForm ring.bundle ring.name = .ok () := by
  unfold Rollout.parse at h
  obtain ⟨text, _, h⟩ := bind_ok.mp h
  obtain ⟨read, _, h⟩ := bind_ok.mp h
  obtain ⟨_, _, h⟩ := bind_ok.mp h
  obtain ⟨_, hrings, h⟩ := bind_ok.mp h
  obtain rfl := pure_ok.mp h
  exact checkRings_ok hrings

/-! ## 5. Freshness -/

def staleSequence (sequence lastSequence : Nat) : Error :=
  .stale ("rollout manifest sequence " ++ toString sequence ++ " is below the "
    ++ toString lastSequence ++ " this node has already verified; refusing a replay")

def staleUnsequenced : Error :=
  .stale ("rollout manifest carries no sequence, but this node has verified one that does; "
    ++ "refusing the downgrade")

def checkSequence (rollout : Rollout) (lastSequence : Nat) : Except Error Unit :=
  match rollout.sequence with
  | some sequence =>
    refuseIf (0 < lastSequence ∧ sequence < lastSequence) (staleSequence sequence lastSequence)
  | none => refuseIf (0 < lastSequence) staleUnsequenced

def checkDeadline (rollout : Rollout) (now : Int64) : Except Error Unit :=
  match rollout.validUntil with
  | some deadline =>
    refuseIf (deadline < now)
      (.stale ("rollout manifest expired " ++ toString (now - deadline).toInt
        ++ " seconds ago (valid_until = " ++ toString deadline.toInt ++ ")"))
  | none => .ok ()

/-- Refuse a manifest that is older than what this node has already verified, or past its own
    deadline. A `lastSequence` of 0 stands for none seen. -/
def checkFreshness (rollout : Rollout) (lastSequence : Nat) (now : Int64) : Except Error Unit := do
  checkSequence rollout lastSequence
  checkDeadline rollout now

/-- Once the mark is above zero, what passes carries a sequence at least as high. -/
theorem checkFreshness_sequence {rollout : Rollout} {lastSequence : Nat} {now : Int64} {u : Unit}
    (h : checkFreshness rollout lastSequence now = .ok u) (hlast : 0 < lastSequence) :
    ∃ sequence, rollout.sequence = some sequence ∧ lastSequence ≤ sequence := by
  unfold checkFreshness at h
  obtain ⟨_, hseq, _⟩ := bind_ok.mp h
  unfold checkSequence at hseq
  cases hs : rollout.sequence with
  | none =>
    rw [hs] at hseq
    exact absurd hlast (refuseIf_ok.mp hseq)
  | some sequence =>
    rw [hs] at hseq
    have hnot := refuseIf_ok.mp hseq
    exact ⟨sequence, rfl, by omega⟩

/-! ## 6. The bundle's own manifest -/

/-- Node-side validation, before anything reaches a version directory. -/
def Crates.validate (K : Crates) (entries : List Entry) : Except Error Unit :=
  match entries.find? (·.path = "bundle.toml") with
  | none => .error (.rejected "bundle has no bundle.toml at its root")
  | some manifest => do
    let text ← K.utf8 manifest.content "bundle.toml"
    let schema ← (K.bundleToml text).mapError fun e =>
      Error.malformed ("bundle.toml is not valid TOML: " ++ e)
    refuseIf (schema ≠ supportedSchema)
      (.rejected ("bundle.toml declares schema " ++ toString schema
        ++ ", and this build understands " ++ toString supportedSchema))

end Svidlet.Policy
