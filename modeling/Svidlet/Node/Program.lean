import Svidlet.Node.Store

/-!
# The node plugin

The two CSI calls and the background loops of the plugin, as programs: `csi/node.rs`, `issue.rs`,
`renew.rs` and `recover.rs`. A call of the signature is one step that others cannot see inside of:
an operation on the store (they hold its mutex), a function of `volume.rs`, a question to the PKI
backend, a look at the clock.

For a function of `volume.rs` that is a simplification. A publish is a run of calls on the file
system without a lock: taken one at a time publishes act as one step each, but two that overlap on a
target need not, as the volume modules show both ways. What is proved over interleavings of these
programs therefore has to keep publishes of one target apart, or to prove that they are.

Metrics and log lines are left out; random choices (jitter, backoff, spread) are answers of the
world.
-/

namespace Svidlet.Node

open Lib Issue
open Volume (Identity Modes)

/-! ## 1. Requests, answers, configuration -/

/-- The gRPC status a call ends with when it does not succeed. -/
inductive Status where
  | invalidArgument (text : String)
  | permissionDenied (text : String)
  | unauthenticated (text : String)
  | resourceExhausted (text : String)
  | unavailable (text : String)
  | internal (text : String)
  | alreadyExists (text : String)
  deriving DecidableEq, Repr

structure PublishRequest where
  volumeId : String
  targetPath : String
  volumeContext : List (String × String)
  deriving DecidableEq

structure UnpublishRequest where
  volumeId : String
  targetPath : String
  deriving DecidableEq

structure BrokerConfig where
  podTokenAudience : String
  jwtEnabled : Bool

structure Config where
  trustDomain : String
  cluster : String
  nodeName : String
  spiffeIdTemplate : String
  broker : Option BrokerConfig
  tmpfsSize : String
  policyGid : Option Nat
  policyRequired : Bool
  /-- In milliseconds. -/
  policyInitialTimeout : Nat
  modes : Modes

namespace VolumeContext

def podName : String := "csi.storage.k8s.io/pod.name"
def podNamespace : String := "csi.storage.k8s.io/pod.namespace"
def podUid : String := "csi.storage.k8s.io/pod.uid"
def serviceAccount : String := "csi.storage.k8s.io/serviceAccount.name"
def ephemeral : String := "csi.storage.k8s.io/ephemeral"
def serviceAccountTokens : String := "csi.storage.k8s.io/serviceAccount.tokens"

end VolumeContext

/-- What the plugin is started with. `tokenIn` reads the token of an audience out of the JSON map
    the kubelet sends. -/
structure Plugin (E : RegexEngine) where
  cfg : Config
  policy : IdPolicy E
  reader : CertReader
  tokenIn : String → String → Option PodToken

/-- A volume record of the kubelet, before its certificate has been read. -/
structure Discovered where
  volumeId : String
  targetPath : String
  podUid : String

/-- A fresh key, its CSR and its public key. -/
structure KeyAndCsr where
  keyPem : String
  csrPem : String
  publicKey : List UInt8

structure SignRequest where
  spiffeId : SpiffeId
  csrPem : String
  pod : PodRef
  podToken : Option PodToken

/-! ## 2. The calls -/

/-- Why an identity is published: it was just issued, or only its CA is new. The code does not
    pass this on; it is here for statements about what was issued. -/
inductive Origin where
  | issued
  | caOnly
  deriving DecidableEq

inductive NodeOp where
  | storeGet (target : String)
  | storeInsert (entry : Entry)
  | storeRemove (target : String)
  | storeSetPodToken (target : String) (token : Option PodToken)
  | storeAll
  | storeDue (now : Int)
  | storeRecordRenewal (target : String) (notBefore notAfter renewAt : Int)
  | storeRecordFailure (target : String) (now : Int)
  | ensureTmpfs (target size : String) (policyGid : Option Nat)
  | publishIdentity (target : String) (identity : Identity) (modes : Modes) (origin : Origin)
  | readIdentity (target : String)
  | readCertChain (target : String)
  | unpublish (target : String)
  | targetExists (target : String)
  | revisionExists (target : String)
  | expose (name target : String)
  | unexpose (name : String)
  /-- Read the published tokens and, if they differ, publish these, under the token lock. -/
  | swapTokens (target : String) (tokens : List (String × String))
  /-- What the policy daemon, a process of its own, does to a volume. -/
  | publishPolicy (target : String)
  | discover
  | generate (spiffeId : SpiffeId)
  | backendSign (request : SignRequest)
  | backendCaChain
  | fetchTokens (certChainPem keyPem : String)
  | cachedCa
  /-- Under the lock: answer whether the cached bundle is this one already, and store it. -/
  | swapCa (fetched : String)
  | unixNow
  | deadlinePassed
  | tokenWaitPassed
  | jitteredRenewAt (notBefore notAfter : Int)
  | startupSpread

@[reducible] def NodeOp.Ans : NodeOp → Type
  | .storeGet _ => Option Entry
  | .storeRemove _ => Option Entry
  | .storeAll => List Entry
  | .storeDue _ => List Entry
  | .ensureTmpfs _ _ _ => Except IoError Unit
  | .publishIdentity _ _ _ _ => Except IoError Unit
  | .readIdentity _ => Except IoError Identity
  | .readCertChain _ => Except IoError String
  | .unpublish _ => Except IoError Unit
  | .targetExists _ => Bool
  | .revisionExists _ => Bool
  | .expose _ _ => Except IoError Unit
  | .unexpose _ => Except IoError Unit
  | .swapTokens _ _ => Except IoError Bool
  | .discover => List Discovered
  | .generate _ => Except Error KeyAndCsr
  | .backendSign _ => Except Error SignReply
  | .backendCaChain => Except Error String
  | .fetchTokens _ _ => Except Error (List (String × String))
  | .cachedCa => String
  | .swapCa _ => Bool
  | .unixNow => Int
  | .deadlinePassed => Bool
  | .tokenWaitPassed => Bool
  | .jitteredRenewAt _ _ => Int
  | .startupSpread => Int
  | _ => Unit

/-- The target whose entry or volume a call may change. -/
def NodeOp.target : NodeOp → Option String
  | .storeInsert entry => some entry.targetPath
  | .storeRemove target => some target
  | .storeSetPodToken target _ => some target
  | .storeRecordRenewal target _ _ _ => some target
  | .storeRecordFailure target _ => some target
  | .ensureTmpfs target _ _ => some target
  | .publishIdentity target _ _ _ => some target
  | .unpublish target => some target
  | .publishPolicy target => some target
  | _ => none

@[reducible] def NodeSig : Sig := ⟨NodeOp, NodeOp.Ans⟩

def ask (o : NodeOp) : Prog NodeSig o.Ans := @Prog.op NodeSig o

/-- `volume::f(..).map_err(Error::Io)` -/
def ioCall {α : Type} (p : Prog NodeSig (Except IoError α)) : Fallible NodeSig Error α :=
  ExceptT.mk do return (← p).mapError Error.io

/-! ## 3. Issuing -/

section

variable {E : RegexEngine} (plugin : Plugin E)

/-- Generate a key, get it signed, and publish all three files. -/
def issue (spiffeId : SpiffeId) (target : String) (pod : PodRef) (podToken : Option PodToken) :
    Fallible NodeSig Error IssuedBundle := do
  let generated ← (ExceptT.mk (ask (.generate spiffeId)) : Fallible NodeSig Error KeyAndCsr)
  let reply ← (ExceptT.mk (ask (.backendSign ⟨spiffeId, generated.csrPem, pod, podToken⟩)) :
    Fallible NodeSig Error SignReply)
  let bundle ← liftResult (bundleOf plugin.reader spiffeId reply)
  let leafKey ← liftResult (plugin.reader.leafPublicKey bundle.certChainPem)
  liftResult (refuseIf (leafKey ≠ generated.publicKey) (Error.certificate
    "the signed certificate is not for the key this node generated"))
  let cached ← ExceptT.lift (ask .cachedCa)
  let caPem := if cached.isEmpty then bundle.caPem else cached
  ioCall (ask (.publishIdentity target ⟨generated.keyPem, bundle.certChainPem, caPem⟩
    plugin.cfg.modes .issued))
  return bundle

/-- Check in with the broker for this volume's tokens. -/
def refreshTokens (target : String) : Fallible NodeSig Error Bool :=
  if plugin.cfg.broker.any (·.jwtEnabled) then do
    let identity ← ioCall (ask (.readIdentity target))
    let grants ← (ExceptT.mk (ask (.fetchTokens identity.certChainPem identity.keyPem)) :
      Fallible NodeSig Error (List (String × String)))
    ioCall (ask (.swapTokens target grants))
  else return false

/-! ## 4. `NodePublishVolume` and `NodeUnpublishVolume` -/

/-- The name a volume gets in the exposure farm. -/
def farmName (volumeId : String) : String :=
  let name := volumeId.toList.map fun c =>
    if c.isAlphanum || c = '.' || c = '_' || c = '-' then c else '_'
  match name with
  | [] => "volume"
  | '.' :: rest => String.ofList ('v' :: '.' :: rest)
  | chars => String.ofList chars

def statusFor (e : Error) : Status :=
  match e with
  | .identity _ => .invalidArgument e.text
  | .policy _ => .permissionDenied e.text
  | .auth _ => .unauthenticated e.text
  | .backend 429 _ => .resourceExhausted e.text
  | _ => if e.isRetryable then .unavailable e.text else .internal e.text

def contextGet (ctx : List (String × String)) (key : String) : Option String :=
  (ctx.find? fun kv => kv.1 = key).map (·.2)

def attributesFrom (ctx : List (String × String)) : WorkloadAttributes where
  trustDomain := plugin.cfg.trustDomain
  cluster := plugin.cfg.cluster
  ns := (contextGet ctx VolumeContext.podNamespace).getD ""
  serviceAccount := (contextGet ctx VolumeContext.serviceAccount).getD ""
  podName := (contextGet ctx VolumeContext.podName).getD ""
  podUid := (contextGet ctx VolumeContext.podUid).getD ""
  nodeName := plugin.cfg.nodeName

/-- A volume-context key must have a value when the template substitutes its field. -/
def requireKey (attrs : WorkloadAttributes) (key : String) (field : Field) : Except Status Unit :=
  refuseIf ((attrs.get field).isEmpty ∧ field ∈ plugin.policy.template.requiredFields)
    (.invalidArgument ("volume context is missing " ++ key
      ++ ", which the SPIFFE ID template " ++ debugStr plugin.cfg.spiffeIdTemplate
      ++ " needs; the CSIDriver object must set podInfoOnMount: true"))

/-- Build the SPIFFE ID from the kubelet's volume context. -/
def identityFrom (ctx : List (String × String)) : Except Status (SpiffeId × PodRef) := do
  let attrs := attributesFrom plugin ctx
  requireKey plugin attrs VolumeContext.podNamespace .ns
  requireKey plugin attrs VolumeContext.serviceAccount .serviceAccount
  requireKey plugin attrs VolumeContext.podName .podName
  requireKey plugin attrs VolumeContext.podUid .podUid
  let spiffeId ← (plugin.policy.render attrs).mapError statusFor
  return (spiffeId, ⟨attrs.podName, attrs.ns, attrs.podUid, attrs.serviceAccount⟩)

def podTokenFrom (ctx : List (String × String)) : Option PodToken := do
  let broker ← plugin.cfg.broker
  let raw ← contextGet ctx VolumeContext.serviceAccountTokens
  let token ← plugin.tokenIn raw broker.podTokenAudience
  if token.isEmpty then none else some token

/-- What a request must bring before anything is done for it. -/
def checkRequest (req : PublishRequest) : Except Status (SpiffeId × PodRef × Option PodToken) := do
  refuseIf (req.volumeId.isEmpty) (.invalidArgument "volume_id is required")
  refuseIf (req.targetPath.isEmpty) (.invalidArgument "target_path is required")
  refuseIf (contextGet req.volumeContext VolumeContext.ephemeral ≠ some "true") (.invalidArgument
    "svidlet serves inline ephemeral volumes only; use a csi: volume in the pod spec")
  let (spiffeId, pod) ← identityFrom plugin req.volumeContext
  let podToken := podTokenFrom plugin req.volumeContext
  refuseIf (plugin.cfg.broker.isSome ∧ podToken = none) (.invalidArgument
    ("volume context carries no pod token for the broker; the CSIDriver object must request one "
      ++ "(tokenRequests: [\x7baudience: "
      ++ ((plugin.cfg.broker.map (·.podTokenAudience)).getD "")
      ++ "\x7d]) and set requiresRepublish: true"))
  return (spiffeId, pod, podToken)

/-- Poll for the revision file until the deadline. The loop sleeps 200 ms between two looks, so it
    looks at most `rounds` times. -/
def waitForPolicy (target : String) : Nat → Prog NodeSig Bool
  | 0 => return false
  | rounds + 1 => do
    if ← ask (.revisionExists target) then return true
    if ← ask .deadlinePassed then return false
    waitForPolicy target rounds

/-- Make the volume visible to the policy daemon; on failure take it back. -/
def exposeVolume (volumeId target : String) : Fallible NodeSig Status Unit :=
  if plugin.cfg.policyGid.isSome then do
    match ← ExceptT.lift (ask (.expose (farmName volumeId) target)) with
    | .ok () => return ()
    | .error e =>
      let _ ← ExceptT.lift (ask (.unpublish target))
      throw (.internal ("could not expose the volume to svidlet-policy: " ++ ioText e))
  else return ()

/-- `let _ = volume::unexpose(..)`, when there is a farm. -/
def unexposeVolume (volumeId : String) : Prog NodeSig Unit :=
  if plugin.cfg.policyGid.isSome then do
    let _ ← ask (.unexpose (farmName volumeId))
    return ()
  else return ()

def padDigits (width n : Nat) : String :=
  let digits := Nat.toDigits 10 n
  String.ofList (List.replicate (width - digits.length) '0' ++ digits)

/-- The debug format of a duration of `ms` milliseconds. -/
def debugMillis (ms : Nat) : String :=
  if ms < 1000 then toString ms ++ "ms"
  else
    let rest := ms % 1000
    let fraction :=
      if rest = 0 then "" else if rest % 100 = 0 then "." ++ padDigits 1 (rest / 100)
      else if rest % 10 = 0 then "." ++ padDigits 2 (rest / 10) else "." ++ padDigits 3 rest
    toString (ms / 1000) ++ fraction ++ "s"

/-- Wait for a policy when one is required; on a timeout take the volume back. -/
def awaitPolicy (spiffeId : SpiffeId) (volumeId target : String) : Fallible NodeSig Status Unit :=
  if plugin.cfg.policyRequired then do
    let timeout := plugin.cfg.policyInitialTimeout
    if ← ExceptT.lift (waitForPolicy target (timeout / 200 + 2)) then return ()
    ExceptT.lift (unexposeVolume plugin volumeId)
    let _ ← ExceptT.lift (ask (.unpublish target))
    throw (.unavailable ("no policy for " ++ spiffeId.asStr ++ " after " ++ debugMillis timeout
      ++ "; SVIDLET_POLICY_REQUIRED is set and svidlet-policy has not published a bundle for it"))
  else return ()

/-- The part of a publish that is done for a target the store does not know. -/
def publishNew (req : PublishRequest) (spiffeId : SpiffeId) (pod : PodRef)
    (podToken : Option PodToken) : Fallible NodeSig Status Unit := do
  let outcome ← ExceptT.lift (do
    ioCall (ask (.ensureTmpfs req.targetPath plugin.cfg.tmpfsSize plugin.cfg.policyGid))
    issue plugin spiffeId req.targetPath pod podToken : Fallible NodeSig Error IssuedBundle).run
  match outcome with
  | .error e =>
    let _ ← ExceptT.lift (ask (.unpublish req.targetPath))
    throw (statusFor e)
  | .ok bundle =>
    exposeVolume plugin req.volumeId req.targetPath
    awaitPolicy plugin spiffeId req.volumeId req.targetPath
    let renewAt ← ExceptT.lift (ask (.jitteredRenewAt bundle.notBefore bundle.notAfter))
    ExceptT.lift (ask (.storeInsert {
      volumeId := req.volumeId, targetPath := req.targetPath, spiffeId := spiffeId, pod := pod,
      notBefore := bundle.notBefore, notAfter := bundle.notAfter, renewAt := renewAt,
      failures := 0, podToken := podToken }))
    -- a fetch that outlives its head start goes on as a check-in of its own
    if ← ExceptT.lift (ask .tokenWaitPassed) then return ()
    let _ ← ExceptT.lift (refreshTokens plugin req.targetPath).run
    return ()

def nodePublishVolume (req : PublishRequest) : Fallible NodeSig Status Unit := do
  let (spiffeId, pod, podToken) ← liftResult (checkRequest plugin req)
  match ← ExceptT.lift (ask (.storeGet req.targetPath)) with
  | some existing =>
    if existing.spiffeId = spiffeId then
      ExceptT.lift (ask (.storeSetPodToken req.targetPath podToken))
    else
      throw (.alreadyExists ("target path already holds " ++ existing.spiffeId.asStr))
  | none => publishNew plugin req spiffeId pod podToken

def nodeUnpublishVolume (req : UnpublishRequest) : Fallible NodeSig Status Unit := do
  liftResult (refuseIf req.targetPath.isEmpty (Status.invalidArgument "target_path is required"))
  let _ ← ExceptT.lift (ask (.storeRemove req.targetPath))
  ExceptT.lift (unexposeVolume plugin req.volumeId)
  match ← ExceptT.lift (ask (.unpublish req.targetPath)) with
  | .ok () => return ()
  | .error e =>
    throw (.internal ("could not unpublish " ++ req.targetPath ++ ": " ++ ioText e))

end

end Svidlet.Node
