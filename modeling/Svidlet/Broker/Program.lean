import Svidlet.Broker.Limit
import Svidlet.Issue.Bundle
import Svidlet.Issue.Catalog
import Svidlet.Issue.Jwt

/-!
# What the broker is asked, what it asks, and how it says no

The broker has two paths. The certificate path (`sign.rs`) attests a node and a pod and has a
certificate signed; the token path (`tokens.rs`) serves tokens to whoever holds one. Both are
programs over one signature, and this file is that signature with the data it speaks about.

> **One call is one question to the API server or to Vault, or one acquisition of a lock of the
> broker's own.**

So `Window::allow`, which is a check and then a record, is two calls, and another request may come
between them. A sweep of the token cache holds the cache's lock while it looks at the keys, and is
one call.

Metrics, the audit log and elapsed times are left out, and so are the addresses and files of the
configuration.
-/

namespace Svidlet.Broker

open Lib Issue

/-! ## 1. Refusals -/

inductive KubeError where
  | unavailable (message : String)
  | other (message : String)
  deriving DecidableEq, Repr

/-- Every way the broker says no, with the rule that fired. -/
inductive Refusal where
  | badRequest (rule message : String)
  | unauthenticated (rule message : String)
  | forbidden (rule message : String)
  | tooMany (rule message : String)
  | unavailable (message : String)
  | internal (message : String)
  deriving DecidableEq, Repr

/-- `impl From<KubeError> for Refusal` -/
def Refusal.ofKube : KubeError → Refusal
  | .unavailable m => .unavailable m
  | .other m => .internal m

/-- A Vault failure. A denial by Vault is a refusal, not an outage. -/
def fromVault (e : Error) : Refusal :=
  match e with
  | .backend 403 body => .forbidden "vault" ("Vault denied: " ++ body)
  | .backend 400 body => .badRequest "vault" ("Vault refused: " ++ body)
  | e =>
    if e.isRetryable then .unavailable ("Vault: " ++ e.text)
    else if e.code = .identity ∨ e.code = .policy then .forbidden "I7" e.text
    else .internal ("Vault: " ++ e.text)

/-! ## 2. Configuration -/

structure Config where
  /-- The cluster is configuration, never request data. -/
  cluster : String
  trustDomain : String
  spiffeIdTemplate : String
  spiffeIdPattern : Option String
  /-- Audience every token presented to the broker must carry. -/
  audience : String
  nodeNamespace : String
  nodeServiceAccount : String
  nodeDaemonset : String
  /-- Namespaces that never receive an identity. -/
  deniedNamespaces : List String
  /-- In seconds, as is the maximum. -/
  certTtl : Nat
  certMaxTtl : Nat
  nodeRatePerMinute : Nat
  nodeIdentitiesPerHour : Nat
  mintRatePerMinute : Nat

namespace Config

def effectiveTtl (cfg : Config) : Nat := min cfg.certTtl cfg.certMaxTtl

def nodeUsername (cfg : Config) : String :=
  "system:serviceaccount:" ++ cfg.nodeNamespace ++ ":" ++ cfg.nodeServiceAccount

/-- Compile the ID template. A broker serves one cluster, so the template must carry it. -/
def idPolicy {E : RegexEngine} (cfg : Config) : Except String (IdPolicy E) := do
  let policy ← (IdPolicy.new cfg.spiffeIdTemplate cfg.spiffeIdPattern).mapError Error.text
  refuseIf (Field.cluster ∉ policy.template.requiredFields)
    ("SVIDLET_SPIFFE_ID_TEMPLATE " ++ debugStr cfg.spiffeIdTemplate
      ++ " has no \x7bcluster\x7d; the broker needs it to keep each cluster's identities apart")
  return policy

end Config

/-! ## 3. What the API server says -/

/-- What a successful TokenReview says about a token. -/
structure Review where
  username : String
  /-- Set for tokens bound to a pod, as is the UID. -/
  podName : Option String
  podUid : Option String
  nodeName : Option String
  deriving DecidableEq, Repr

/-- Split `system:serviceaccount:<ns>:<name>`. -/
def Review.serviceAccount (review : Review) : Option (String × String) := do
  let rest ← stripPrefix review.username "system:serviceaccount:"
  let (ns, name) ← splitOnce ':' rest.toList
  if ns ≠ [] ∧ name ≠ [] ∧ ':' ∉ name then some (String.ofList ns, String.ofList name) else none

/-- The parts of a Pod the rules read. -/
structure Pod where
  ns : String
  name : String
  uid : String
  nodeName : String
  serviceAccount : String
  terminating : Bool
  /-- Every container's image. -/
  images : List String
  /-- Kind and name of each owner reference. -/
  owners : List (String × String)
  deriving DecidableEq, Repr

/-- The API server at one moment. -/
structure Kube where
  tokenReview : String → String → Except KubeError (Option Review)
  pod : String → String → Except KubeError (Option Pod)

/-- A pod is only ever returned under its own namespace and name. -/
def Kube.Faithful (kube : Kube) : Prop :=
  ∀ ns name pod, kube.pod ns name = .ok (some pod) → pod.ns = ns ∧ pod.name = name

/-! ## 4. Calls -/

/-- What is asked of the issuer. -/
structure SignOrder where
  spiffeId : SpiffeId
  csrPem : String
  ttl : Nat
  nodeName : String

/-- A token in the cache, with what was read from it. -/
structure Cached where
  token : String
  parsed : Unverified
  deriving DecidableEq

/-- The cache is keyed by role and audience. -/
abbrev CacheKey := String × String

inductive BrokerOp where
  | tokenReview (token audience : String)
  | pod (ns name : String)
  | catalogCurrent
  | nodeRateCheck (node : String) (now : Int64)
  | nodeRateRecord (node : String) (now : Int64)
  | nodeIdentitiesAllow (node identity : String) (now : Int64)
  | nodeRateSweep (now : Int64)
  | nodeIdentitiesSweep (now : Int64)
  | issuerSign (order : SignOrder)
  | cacheGet (key : CacheKey)
  | cacheInsert (key : CacheKey) (cached : Cached)
  | cacheSweep (now : Int64)
  | mintRateCheck (role : String) (now : Int64)
  | mintRateRecord (role : String) (now : Int64)
  | mint (role audience : String)
  | jwksHas (kid : String)
  /-- Whether no refresh was forced in the last ten seconds; if so this one is noted. -/
  | jwksForce (now : Int64)
  | jwksFetch
  | jwksReplace (jwks : Jwks)
  | catalogFile
  | catalogText
  | catalogReplace (catalog : ValidCatalog) (text : String)

@[reducible] def BrokerOp.Ans : BrokerOp → Type
  | .tokenReview _ _ => Except KubeError (Option Review)
  | .pod _ _ => Except KubeError (Option Pod)
  | .catalogCurrent => ValidCatalog
  | .nodeRateCheck _ _ => Bool
  | .nodeIdentitiesAllow _ _ _ => Bool
  | .issuerSign _ => Except Error IssuedBundle
  | .cacheGet _ => Option Cached
  | .mintRateCheck _ _ => Bool
  | .mint _ _ => Except Error String
  | .jwksHas _ => Option Bool
  | .jwksForce _ => Bool
  | .jwksFetch => Except String String
  | .catalogFile => Except String String
  | .catalogText => String
  | .nodeRateRecord _ _ => Unit
  | .nodeRateSweep _ => Unit
  | .nodeIdentitiesSweep _ => Unit
  | .cacheInsert _ _ => Unit
  | .cacheSweep _ => Unit
  | .mintRateRecord _ _ => Unit
  | .jwksReplace _ => Unit
  | .catalogReplace _ _ => Unit

@[reducible] def BrokerSig : Sig := ⟨BrokerOp, BrokerOp.Ans⟩

def ask (o : BrokerOp) : Prog BrokerSig o.Ans := @Prog.op BrokerSig o

/-- What `?` and `ok_or_else` make of an answer of the API server. -/
def orRefuse {α : Type} (refusal : Refusal) : Except KubeError (Option α) → Except Refusal α
  | .error e => .error (Refusal.ofKube e)
  | .ok none => .error refusal
  | .ok (some a) => .ok a

@[simp] theorem orRefuse_ok {α : Type} {refusal : Refusal} {x : Except KubeError (Option α)}
    {a : α} : orRefuse refusal x = .ok a ↔ x = .ok (some a) := by
  cases x with
  | error e => simp [orRefuse]
  | ok o => cases o <;> simp [orRefuse]

end Svidlet.Broker
