import Svidlet.Broker.Program

/-!
# The certificate path

`svidlet-broker/src/sign.rs` and `csr.rs`: attest the calling node, attest the pod, admit it, check
the certificate request, render the ID and have it signed.

The order of the checks is the source's. A question to the API server stands between pure checks,
so each attestation is a review, a check of the review, a pod, and a check of the pod. Certificate
requests are parsed by a crate; what is refused in a parsed one is here.
-/

namespace Svidlet.Broker

open Lib Issue

/-! ## 1. Certificate requests -/

/-- A parsed certificate request. -/
structure Csr where
  /-- Whether its signature verifies under its own key. -/
  verifies : Bool
  /-- OID of the key's algorithm, and of the curve if the parameters are an OID. -/
  algorithm : List Nat
  curve : Option (List Nat)
  /-- The CA flag of each basic-constraints extension it requests. -/
  caFlags : List Bool

structure CsrReader where
  /-- Label and contents of the first PEM block. -/
  pem : String → Except String (String × List UInt8)
  der : List UInt8 → Except String Csr

def ecPublicKey : List Nat := [1, 2, 840, 10045, 2, 1]
def p256 : List Nat := [1, 2, 840, 10045, 3, 1, 7]

/-- `csr::check` -/
def CsrReader.check (reader : CsrReader) (pem : String) : Except String Unit := do
  let (label, contents) ← (reader.pem pem).mapError ("CSR is not PEM: " ++ ·)
  refuseIf (label ≠ "CERTIFICATE REQUEST") ("expected a CERTIFICATE REQUEST, got " ++ label)
  let csr ← (reader.der contents).mapError ("CSR is not DER: " ++ ·)
  refuseIf (¬ csr.verifies) "the CSR's signature does not verify"
  refuseIf (csr.algorithm ≠ ecPublicKey) "the key is not an EC key"
  refuseIf (csr.curve ≠ some p256) "the key is not on P-256"
  refuseIf (true ∈ csr.caFlags) "the CSR asks for a CA certificate"

/-! ## 2. Requests and answers -/

/-- The request. The pod token and the certificate request are used; the rest are hints. -/
structure SignBody where
  podToken : String
  ns : String
  podName : String
  podUid : String
  serviceAccount : String
  csr : String
  spiffeId : String
  deriving DecidableEq

/-- Who asked, and for what. -/
structure Signed where
  spiffeId : SpiffeId
  node : String
  ns : String
  pod : String
  podUid : String
  bundle : IssuedBundle

structure Signer (E : RegexEngine) where
  cfg : Config
  policy : IdPolicy E
  csr : CsrReader

namespace Signer

variable {E : RegexEngine}

/-! ## 3. The node -/

def checkNodeReview (cfg : Config) (review : Review) : Except Refusal (String × String) := do
  refuseIf (review.username ≠ cfg.nodeUsername)
    (.forbidden "I1" (review.username ++ " is not " ++ cfg.nodeUsername))
  match review.podName, review.podUid with
  | some podName, some podUid => return (podName, podUid)
  | _, _ => throw (.forbidden "I1" "the node token is not bound to a pod")

def checkNodePod (cfg : Config) (review : Review) (podName podUid : String) (pod : Pod) :
    Except Refusal Unit := do
  refuseIf (pod.uid ≠ podUid ∨ pod.terminating)
    (.forbidden "I1" ("node pod " ++ podName ++ " is not live"))
  refuseIf (("DaemonSet", cfg.nodeDaemonset) ∉ pod.owners)
    (.forbidden "I1" (podName ++ " is not a " ++ cfg.nodeDaemonset ++ " DaemonSet pod"))
  refuseIf (pod.nodeName.isEmpty) (.forbidden "I1" (podName ++ " is not scheduled"))
  refuseIf (∃ n ∈ review.nodeName, n ≠ pod.nodeName)
    (.forbidden "I3" "node token and node pod disagree on the node")

/-- Authenticate the caller as the node plugin on some node, and return that node's name. -/
def attestNode (signer : Signer E) (nodeToken : String) : Fallible BrokerSig Refusal String := do
  liftResult (refuseIf (nodeToken.isEmpty) (.unauthenticated "I1" "no node token"))
  let answer ← ask (.tokenReview nodeToken signer.cfg.audience)
  let review ← liftResult
    (orRefuse (.unauthenticated "I1" "the node token did not authenticate") answer)
  let (podName, podUid) ← liftResult (checkNodeReview signer.cfg review)
  let answer ← ask (.pod signer.cfg.nodeNamespace podName)
  let pod ← liftResult
    (orRefuse (.forbidden "I1" ("node pod " ++ podName ++ " does not exist")) answer)
  liftResult (checkNodePod signer.cfg review podName podUid pod)
  return pod.nodeName

/-! ## 4. The pod -/

/-- The pod a pod token is bound to. -/
structure PodClaim where
  ns : String
  serviceAccount : String
  podName : String
  podUid : String

def checkPodReview (review : Review) : Except Refusal PodClaim :=
  match review.serviceAccount with
  | none => .error (.forbidden "I1" (review.username ++ " is not a ServiceAccount"))
  | some (ns, sa) =>
    match review.podName, review.podUid with
    | some podName, some podUid => .ok ⟨ns, sa, podName, podUid⟩
    | _, _ => .error (.forbidden "I1" "the pod token is not bound to a pod")

def checkPod (review : Review) (claim : PodClaim) (node : String) (pod : Pod) :
    Except Refusal Unit := do
  refuseIf (pod.uid ≠ claim.podUid) (.forbidden "I4" "the pod was replaced; its UID changed")
  refuseIf (pod.terminating) (.forbidden "I4" "the pod is terminating")
  refuseIf (pod.serviceAccount ≠ claim.serviceAccount)
    (.forbidden "I4" "the pod's ServiceAccount does not match its token")
  refuseIf (pod.nodeName ≠ node)
    (.forbidden "I3" ("pod " ++ claim.ns ++ "/" ++ claim.podName ++ " runs on "
      ++ debugStr pod.nodeName ++ ", not on the calling node " ++ node))
  refuseIf (∃ n ∈ review.nodeName, n ≠ node)
    (.forbidden "I3" "the pod token was minted for another node")

/-- Authenticate the pod token and check the pod it is bound to. Returns the live pod. -/
def attestPod (signer : Signer E) (podToken node : String) : Fallible BrokerSig Refusal Pod := do
  liftResult (refuseIf (podToken.isEmpty) (.unauthenticated "I5" "no pod token"))
  let answer ← ask (.tokenReview podToken signer.cfg.audience)
  let review ← liftResult
    (orRefuse (.unauthenticated "I5" "the pod token did not authenticate") answer)
  let claim ← liftResult (checkPodReview review)
  let answer ← ask (.pod claim.ns claim.podName)
  let pod ← liftResult
    (orRefuse (.forbidden "I4" ("pod " ++ claim.ns ++ "/" ++ claim.podName ++ " does not exist"))
      answer)
  liftResult (checkPod review claim node pod)
  return pod

/-! ## 5. Admission -/

def checkImages (registries : List String) : List String → Except Refusal Unit
  | [] => .ok ()
  | image :: rest => do
    refuseIf (¬ containsText image "@sha256:")
      (.forbidden "I9" ("image " ++ image ++ " is not pinned by digest"))
    refuseIf (¬ registries.any fun r => startsWith image r)
      (.forbidden "I9" ("image " ++ image ++ " is not from an approved registry"))
    checkImages registries rest

def checkName (cfg : Config) (pod : Pod) : Except Refusal Unit := do
  refuseIf (pod.ns ∈ cfg.deniedNamespaces)
    (.forbidden "I8" ("namespace " ++ pod.ns ++ " receives no identity"))
  refuseIf (pod.serviceAccount = "default")
    (.forbidden "I8" "the default ServiceAccount receives no identity")

def checkCatalog (cfg : Config) (catalog : Catalog) (pod : Pod) : Except Refusal Unit := do
  let entry := catalog.lookup cfg.cluster pod.ns pod.serviceAccount
  refuseIf (catalog.allowlist ∧ entry.isNone)
    (.forbidden "I8" (pod.ns ++ "/" ++ pod.serviceAccount ++ " is not in the catalog"))
  if entry.any CatalogIdentity.sensitive then checkImages catalog.registries pod.images
  else return ()

/-- The rules I8 and I9 for one pod. -/
def admitPod (signer : Signer E) (pod : Pod) : Fallible BrokerSig Refusal Unit := do
  liftResult (checkName signer.cfg pod)
  let catalog ← ask .catalogCurrent
  liftResult (checkCatalog signer.cfg catalog.catalog pod)

/-! ## 6. The whole path -/

/-- The request's names are never used, but one that disagrees with the attested pod is refused. -/
def checkHint (what hint actual : String) : Except Refusal Unit :=
  refuseIf (¬ hint.isEmpty ∧ hint ≠ actual)
    (.badRequest "I1" (what ++ " " ++ debugStr hint ++ " does not match the pod token ("
      ++ debugStr actual ++ ")"))

def checkHints (body : SignBody) (pod : Pod) : Except Refusal Unit := do
  checkHint "namespace" body.ns pod.ns
  checkHint "pod name" body.podName pod.name
  checkHint "pod UID" body.podUid pod.uid
  checkHint "ServiceAccount" body.serviceAccount pod.serviceAccount

/-- What the ID is rendered from. -/
def attributes (cfg : Config) (pod : Pod) (node : String) : WorkloadAttributes where
  trustDomain := cfg.trustDomain
  cluster := cfg.cluster
  ns := pod.ns
  serviceAccount := pod.serviceAccount
  podName := pod.name
  podUid := pod.uid
  nodeName := node

/-- The certificate request, the ID, and the hint of the ID. -/
def identify (signer : Signer E) (body : SignBody) (pod : Pod) (node : String) :
    Except Refusal SpiffeId := do
  (signer.csr.check body.csr).mapError (.badRequest "I6")
  let spiffeId ← (signer.policy.render (attributes signer.cfg pod node)).mapError fun e =>
    Refusal.forbidden "I7" e.text
  refuseIf (¬ body.spiffeId.isEmpty ∧ body.spiffeId ≠ spiffeId.asStr)
    (.badRequest "I7" ("the node expects " ++ body.spiffeId ++ " but the broker issues "
      ++ spiffeId.asStr ++ "; check both SPIFFE ID templates"))
  return spiffeId

/-- Both limits are checked before the rate is recorded. -/
def spend (node : String) (spiffeId : SpiffeId) (now : Int64) :
    Fallible BrokerSig Refusal Unit := do
  let fits ← ask (.nodeRateCheck node now)
  liftResult (refuseIf (¬ fits) (.tooMany "I10" ("node " ++ node ++ " is over its issuance rate")))
  let fits ← ask (.nodeIdentitiesAllow node spiffeId.asStr now)
  liftResult (refuseIf (¬ fits)
    (.tooMany "I10" ("node " ++ node ++ " asked for too many distinct identities this hour")))
  ask (.nodeRateRecord node now)

/-- The whole certificate path. -/
def sign (signer : Signer E) (nodeToken : String) (body : SignBody) (now : Int64) :
    Fallible BrokerSig Refusal Signed := do
  let node ← signer.attestNode nodeToken
  let pod ← signer.attestPod body.podToken node
  liftResult (checkHints body pod)
  signer.admitPod pod
  let spiffeId ← liftResult (signer.identify body pod node)
  spend node spiffeId now
  let answer ← ask (.issuerSign ⟨spiffeId, body.csr, signer.cfg.effectiveTtl, node⟩)
  let bundle ← liftResult (answer.mapError fromVault)
  return ⟨spiffeId, node, pod.ns, pod.name, pod.uid, bundle⟩

/-- Housekeeping of the two limits. -/
def sweep (now : Int64) : Prog BrokerSig Unit := do
  ask (.nodeRateSweep now)
  ask (.nodeIdentitiesSweep now)

end Signer

end Svidlet.Broker
