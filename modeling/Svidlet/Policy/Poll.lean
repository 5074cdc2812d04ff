import Svidlet.Policy.Store

/-!
# Polling for a bundle

`svidlet/src/policy/oci/mod.rs` and the client of `registry.rs`: one poll, what it remembers, and
what a restart reads back.

A poll has two halves, and they are two definitions here since most of what can be said about polls
is said about one of them:

> `examine`  fetches the manifest, opens it, reads it and checks that it is fresh;
> `follow`   does what a fresh manifest says.

The answer of `poll` is an `Outcome`: the result the source returns, and with it the manifest that
passed on the way, if one did. The second part is not in the source. It is what the theorems about
histories talk about.

The registry answers what it likes. The bearer token goes into a header and has no other effect, so
it is left out, and so are the counters that are only ever exported.
-/

namespace Svidlet.Policy

open Lib

/-! ## 1. Data -/

/-- A parsed `registry/repository:tag` reference. -/
structure Reference where
  registry : String
  repository : String
  tag : String
  scheme : String
  deriving DecidableEq, Repr

namespace Reference

def blobUrl (r : Reference) (digest : String) : String :=
  r.scheme ++ "://" ++ r.registry ++ "/v2/" ++ r.repository ++ "/blobs/" ++ digest

def manifestUrl (r : Reference) : String :=
  r.scheme ++ "://" ++ r.registry ++ "/v2/" ++ r.repository ++ "/manifests/" ++ r.tag

end Reference

/-- What this node last did, persisted so that a restart knows it. -/
structure State where
  ring : String
  digest : String
  appliedAt : Int64
  lastSuccess : Int64
  lastError : String
  manifestEtag : String
  lastSequence : Nat
  deriving DecidableEq, Repr

def State.default : State := ⟨"", "", 0, 0, "", "", 0⟩

/-- What came back from a request: the body, or the error that ended reading it. -/
structure Response where
  status : Nat
  etag : Option String
  body : Except String Bytes

/-- The pull-based policy source, once it has been set up. -/
structure Source where
  crates : Crates
  key : PublicKey
  cluster : String
  node : String
  rolloutRef : Reference
  bundleRef : Reference
  fullFetchEvery : UInt64
  maxBytes : Nat
  store : Store

/-! ## 2. The calls -/

inductive PollOp where
  | fs (op : FsOp Bytes)
  /-- `GET`, with this `If-None-Match`. -/
  | getManifest (url : String) (etag : Option String)
  | getBlob (url : String)
  | unixNow
  /-- `polls.fetch_add(1) + 1` -/
  | countPoll
  | readState
  /-- Lock the state, change it, and clone it. -/
  | updateState (f : State → State)
  | saveState (snapshot : State)
  | saveManifest (toml : Bytes)
  /-- What `state.json` holds, if it can be read. -/
  | loadState
  /-- A new source with this state, and its counters at zero. -/
  | begin (state : State)

@[reducible] def PollOp.Ans : PollOp → Type
  | .fs op => op.Ans
  | .getManifest _ _ => Except String Response
  | .getBlob _ => Except String Response
  | .unixNow => Int64
  | .countPoll => UInt64
  | .readState => State
  | .updateState _ => State
  | .saveState _ => Except IoError Unit
  | .saveManifest _ => Except IoError Unit
  | .loadState => Option State
  | .begin _ => Unit

@[reducible] def PollSig : Sig := ⟨PollOp, PollOp.Ans⟩

def ask (o : PollOp) : Prog PollSig o.Ans := @Prog.op PollSig o

/-- Why a poll ended early. -/
inductive Stop where
  | failed (e : Error)
  /-- A panic, and with it the process. -/
  | panicked
  deriving DecidableEq, Repr

abbrev Polling := Fallible PollSig Stop

/-- A program over the bundle directory, as part of a poll. -/
def onFs {α : Type} : Prog (FsSig Bytes) α → Prog PollSig α
  | .pure a => .pure a
  | .call op k => .call (S := PollSig) (.fs op) fun ans => onFs (k ans)

def failing {α : Type} (x : Except Error α) : Polling α := liftResult (x.mapError .failed)

def onDisk {α : Type} (x : Disk α) : Polling α := ExceptT.mk do
  return (← onFs x.run).mapError .failed

/-! ## 3. The registry client -/

inductive Fetched where
  /-- The registry confirmed nothing changed. -/
  | unchanged
  | changed (layers : List String) (etag : Option String)
  deriving DecidableEq, Repr

def maxManifestBytes : Nat := 1024 * 1024

/-- The first line of a body, cut to 200 characters; nothing if it cannot be read. -/
def firstLine (body : Except String Bytes) : String :=
  let text := ((body.toOption.bind fromUtf8).getD "").toList
  let line := text.takeWhile (· ≠ '\n')
  String.ofList ((if line.getLast? = some '\r' ∧ '\n' ∈ text then line.dropLast else line).take 200)

def checkStatus (url : String) (response : Response) : Except Error Unit :=
  refuseIf (¬ (200 ≤ response.status ∧ response.status < 300))
    (.fetch ("GET " ++ url ++ ": HTTP " ++ toString response.status ++ " "
      ++ firstLine response.body))

/-- At most one byte over the limit is read. -/
def readBody (url : String) (limit : Nat) (response : Response) : Except Error Bytes := do
  let body ← response.body.mapError fun e => Error.fetch ("GET " ++ url ++ ": " ++ e)
  return body.take (limit + 1)

/-- A 304 means unchanged, whatever was asked. -/
def readManifest (K : Crates) (url : String) (response : Response) : Except Error Fetched :=
  if response.status = 304 then .ok .unchanged
  else do
    checkStatus url response
    let body ← readBody url maxManifestBytes response
    match fromUtf8 body with
    | none => throw (.fetch ("GET " ++ url ++ ": stream did not contain valid UTF-8"))
    | some text =>
      refuseIf (maxManifestBytes < body.length)
        (.rejected (url ++ " returned more than the " ++ toString maxManifestBytes
          ++ " byte manifest limit"))
      let layers ← (K.manifestJson text).mapError fun e =>
        Error.malformed (url ++ " is not an OCI manifest: " ++ e)
      return .changed layers response.etag

def readBlob (url digest : String) (limit : Nat) (response : Response) : Except Error Bytes := do
  checkStatus url response
  let body ← readBody url limit response
  refuseIf (limit < body.length)
    (.rejected (digest ++ " is larger than the " ++ toString limit ++ " byte limit"))
  return body

/-- A request: an error of the transport, or what is made of the response. -/
def request {α : Type} (url : String) (op : Prog PollSig (Except String Response))
    (read : Response → Except Error α) : Polling α := do
  match ← ExceptT.lift op with
  | .error e => throw (.failed (.fetch ("GET " ++ url ++ ": " ++ e)))
  | .ok response => failing (read response)

namespace Source

variable (source : Source)

def manifest (etag : Option String) : Polling Fetched :=
  let url := source.rolloutRef.manifestUrl
  request url (ask (.getManifest url etag)) (readManifest source.crates url)

/-- Fetch a blob by digest, refusing anything over the size limit. -/
def blob (reference : Reference) (digest : String) : Polling Bytes :=
  let url := reference.blobUrl digest
  request url (ask (.getBlob url)) (readBlob url digest source.maxBytes)

/-- Pull the single layer of an artifact, checking it against its digest. -/
def singleLayer (layers : List String) : Polling Bytes := do
  match layers with
  | [digest] => do
    let blob ← source.blob source.rolloutRef digest
    failing (source.crates.checkDigest blob digest)
    return blob
  | _ => throw (.failed (.malformed (source.rolloutRef.manifestUrl ++ " has "
      ++ toString layers.length ++ " layers; a svidlet artifact has exactly one")))

end Source

/-! ## 4. What a node remembers -/

/-- Every change of the state is saved at once, and a failed save is ignored. -/
def changeState (f : State → State) : Prog PollSig Unit := do
  let snapshot ← ask (.updateState f)
  let _ ← ask (.saveState snapshot)
  return ()

/-- The source's parameter for an ETag is `None` in both its uses. -/
def recordSuccess : Prog PollSig Unit := do
  let now ← ask .unixNow
  changeState fun s => { s with lastSuccess := now, lastError := "" }

def rememberEtag : Option String → Prog PollSig Unit
  | none => return ()
  | some etag => changeState fun s => { s with manifestEtag := etag }

/-- Advance the high-water mark for manifest sequences. The comparison and the change are made
    under one lock; nothing is saved when nothing moved. -/
def recordSequence (sequence : Nat) : Prog PollSig Unit := do
  let state ← ask .readState
  if state.lastSequence < sequence then
    changeState fun s => { s with lastSequence := sequence }
  else return ()

def setCurrent (ring digest : String) : Prog PollSig Unit := do
  let now ← ask .unixNow
  changeState fun s => { s with ring := ring, digest := digest, appliedAt := now }

def recordError (e : Error) : Prog PollSig Unit := changeState fun s => { s with lastError := e.text }

/-- The ETag to send, if sending one is safe. -/
def currentEtag : Prog PollSig (Option String) := do
  let state ← ask .readState
  if state.digest.isEmpty then return none
  else if ← onFs (Store.has state.digest) then
    return if state.manifestEtag.isEmpty then none else some state.manifestEtag
  else return none

/-! ## 5. A poll -/

/-- A manifest that was opened, read and found fresh: the signed bytes, and what it was checked
    against. -/
structure Accepted where
  envelope : Bytes
  toml : Bytes
  rollout : Rollout
  etag : Option String
  lastSequence : Nat
  checkedAt : Int64

namespace Source

variable (source : Source)

/-- Whether this poll must not send an ETag. -/
def fullFetch (poll : UInt64) : Bool :=
  0 < source.fullFetchEvery && poll % source.fullFetchEvery = 0

def etagFor (poll : UInt64) : Prog PollSig (Option String) :=
  if source.fullFetch poll then return none else currentEtag

/-- From the layers of a manifest to one that is accepted. -/
def checkManifest (layers : List String) (etag : Option String) : Polling Accepted := do
  let envelope ← source.singleLayer layers
  let toml ← failing (source.crates.openEnvelope envelope source.key)
  let rollout ← failing (Rollout.parse source.crates toml)
  let state ← ExceptT.lift (ask .readState)
  let now ← ExceptT.lift (ask .unixNow)
  failing (checkFreshness rollout state.lastSequence now)
  return ⟨envelope, toml, rollout, etag, state.lastSequence, now⟩

/-- The first half of a poll. -/
def examine : Polling (Option Accepted) := do
  let poll ← ExceptT.lift (ask .countPoll)
  let etag ← ExceptT.lift (source.etagFor poll)
  match ← source.manifest etag with
  | .unchanged => return none
  | .changed layers newEtag => do
    let accepted ← source.checkManifest layers newEtag
    return some accepted

/-- The poll succeeded; the ETag is not remembered yet. -/
def record (accepted : Accepted) : Prog PollSig Unit := do
  let _ ← ask (.saveManifest accepted.toml)
  recordSuccess
  match accepted.rollout.sequence with
  | some sequence => recordSequence sequence
  | none => return ()

/-- Fetch, check and unpack the bundle, unless it is there. -/
def ensureUnpacked (digest : String) : Polling Unit := do
  if ← ExceptT.lift (onFs (Store.has digest)) then return ()
  else do
    let blob ← source.blob source.bundleRef digest
    failing (source.crates.checkDigest blob digest)
    let entries ← failing (extract blob source.maxBytes)
    failing (source.crates.validate entries)
    onDisk (source.store.writeVersion digest entries)

/-- Swap to the ring's bundle. -/
def swap (ring : Ring) (previous : String) (etag : Option String) : Polling PolicyBundle := do
  source.ensureUnpacked ring.bundle
  onDisk (source.store.setCurrent ring.bundle)
  let bundle ← onDisk (source.store.read ring.bundle)
  ExceptT.lift (setCurrent ring.name ring.bundle)
  let _ ← ExceptT.lift (onFs (source.store.prune ([ring.bundle, previous].filter (!·.isEmpty))))
  ExceptT.lift (rememberEtag etag)
  return bundle

/-- Whether the bundle in use is the one the ring names, and is on disk. -/
def upToDate (state : State) (digest : String) : Prog PollSig Bool :=
  if state.digest = digest then onFs (Store.has digest) else return false

def applyRing (ring : Ring) (etag : Option String) : Polling (Option PolicyBundle) := do
  let state ← ExceptT.lift (ask .readState)
  if ← ExceptT.lift (upToDate state ring.bundle) then
    ExceptT.lift (rememberEtag etag)
    if state.ring ≠ ring.name then ExceptT.lift (setCurrent ring.name ring.bundle)
    return none
  else do
    let bundle ← source.swap ring state.digest etag
    return some bundle

/-- The second half of a poll. -/
def follow (accepted : Accepted) : Polling (Option PolicyBundle) := do
  if accepted.rollout.freeze then
    ExceptT.lift (rememberEtag accepted.etag)
    return none
  else
    match accepted.rollout.target source.crates source.cluster source.node with
    | none => throw .panicked
    | some none =>
      ExceptT.lift (rememberEtag accepted.etag)
      return none
    | some (some ring) => source.applyRing ring accepted.etag

end Source

/-- What a poll came to. -/
structure Outcome where
  accepted : Option Accepted
  result : Except Stop (Option PolicyBundle)

namespace Source

variable (source : Source)

/-- One full poll. Its result is the bundle to publish when it changed. -/
def poll : Prog PollSig Outcome := do
  match ← source.examine.run with
  | .error stop => return ⟨none, .error stop⟩
  | .ok none => do
    recordSuccess
    return ⟨none, .ok none⟩
  | .ok (some accepted) => do
    record accepted
    let result ← (source.follow accepted).run
    return ⟨some accepted, result⟩

/-- Read whatever is currently published, without touching the network. -/
def loadCurrent : Prog PollSig (Option PolicyBundle) := do
  let state ← ask .readState
  if state.digest.isEmpty then return none
  else if ← onFs (Store.has state.digest) then
    return (← onFs (source.store.read state.digest).run).toOption
  else return none

/-- What is left of `BundleSource::new` once the settings have been read. -/
def restart : Prog PollSig (Except Error Unit) := do
  match ← onFs source.store.prepare.run with
  | .error e => return .error e
  | .ok _ => do
    let state ← ask .loadState
    ask (.begin (state.getD State.default))
    return .ok ()

end Source

/-! ## 6. What can be asked of a source -/

inductive Call where
  | poll
  /-- What the loop does with an error. -/
  | recordError (e : Error)
  | loadCurrent
  | restart

inductive Answer where
  | polled (outcome : Outcome)
  | recorded
  | loaded (bundle : Option PolicyBundle)
  | started (result : Except Error Unit)

namespace Answer

/-- The manifest that passed in this call. -/
def accepted : Answer → Option Accepted
  | .polled outcome => outcome.accepted
  | _ => none

/-- The bundle this call returned. -/
def bundle : Answer → Option PolicyBundle
  | .polled outcome => outcome.result.toOption.join
  | .loaded bundle => bundle
  | _ => none

end Answer

def Source.serve (source : Source) : Call → Prog PollSig Answer
  | .poll => do return .polled (← source.poll)
  | .recordError e => do
    recordError e
    return .recorded
  | .loadCurrent => do return .loaded (← source.loadCurrent)
  | .restart => do return .started (← source.restart)

end Svidlet.Policy
