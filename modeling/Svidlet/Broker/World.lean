import Svidlet.Broker.Sign
import Svidlet.Broker.Tokens
import Svidlet.Issue.Matcher
import Svidlet.Lib.Session

/-!
# The broker's state, and who it talks to

What is behind the broker's locks is a state that each call changes by a function of the state
(`after`). What a call answers is another matter: a lock answers what is behind it, and the API
server, Vault, the publisher of the key set and the mounted catalog file answer what they like.

Two of these get a name, since the theorems put a condition on them (`Outside`): the API server,
which may change from one question to the next, and the tokens the minter can return.

`asked` counts the questions to the API server. It is not in the source; it is how two requests can
be said to have had the same answers.
-/

namespace Svidlet.Broker

open Lib Issue

structure BrokerState where
  catalog : ValidCatalog
  catalogText : String
  nodeRate : Window
  nodeIdentities : Distinct
  mintRate : Window
  cache : CacheKey → Option Cached
  /-- Nothing until a key set has been loaded. -/
  jwks : Option Jwks
  forcedAt : Int64
  asked : Nat

/-- A broker that has just started. -/
def BrokerState.start (cfg : Config) (catalog : ValidCatalog) (text : String) : BrokerState where
  catalog := catalog
  catalogText := text
  nodeRate := .new cfg.nodeRatePerMinute 60
  nodeIdentities := .new cfg.nodeIdentitiesPerHour 3600
  mintRate := .new cfg.mintRatePerMinute 60
  cache := fun _ => none
  jwks := none
  forcedAt := Int64.minValue
  asked := 0

structure Outside where
  /-- The API server when it is asked for the n-th time. -/
  kube : Nat → Kube
  /-- Whether the minter can return this token for this role and audience. -/
  mints : String → String → String → Prop

/-- `i64::saturating_sub` -/
def saturatingSub (a b : Int64) : Int64 :=
  Int64.ofInt (max (-2 ^ 63) (min (2 ^ 63 - 1) (a.toInt - b.toInt)))

namespace BrokerState

def has (s : BrokerState) (kid : String) : Option Bool := s.jwks.map fun kids => kid ∈ kids

/-- Whether a forced refresh of the key set may run. -/
def mayForce (s : BrokerState) (now : Int64) : Bool := !(saturatingSub now s.forcedAt < 10)

/-- What a sweep keeps of the cache. -/
def keeps (s : BrokerState) (now : Int64) (c : Cached) : Bool :=
  !c.parsed.pastHalfLife now && s.has c.parsed.header.kid ≠ some false

/-- The state a call leaves. -/
def after (s : BrokerState) : BrokerOp → BrokerState
  | .tokenReview _ _ => { s with asked := s.asked + 1 }
  | .pod _ _ => { s with asked := s.asked + 1 }
  | .nodeRateCheck node now => { s with nodeRate := (s.nodeRate.check node now).2 }
  | .nodeRateRecord node now => { s with nodeRate := s.nodeRate.record node now }
  | .nodeIdentitiesAllow node identity now =>
    { s with nodeIdentities := (s.nodeIdentities.allow node identity now).2 }
  | .nodeRateSweep now => { s with nodeRate := s.nodeRate.sweep now }
  | .nodeIdentitiesSweep now => { s with nodeIdentities := s.nodeIdentities.sweep now }
  | .cacheInsert key cached => { s with cache := Function.update s.cache key (some cached) }
  | .cacheSweep now => { s with cache := fun key => (s.cache key).filter (s.keeps now) }
  | .mintRateCheck role now => { s with mintRate := (s.mintRate.check role now).2 }
  | .mintRateRecord role now => { s with mintRate := s.mintRate.record role now }
  | .jwksForce now => if s.mayForce now then { s with forcedAt := now } else s
  | .jwksReplace jwks => { s with jwks := some jwks }
  | .catalogReplace catalog text => { s with catalog := catalog, catalogText := text }
  | .catalogCurrent | .issuerSign _ | .cacheGet _ | .mint _ _ | .jwksHas _ | .jwksFetch
  | .catalogFile | .catalogText => s

/-- What a call may be answered. -/
def Answers (out : Outside) (s : BrokerState) : (op : BrokerOp) → op.Ans → Prop
  | .tokenReview token audience, ans => ans = (out.kube s.asked).tokenReview token audience
  | .pod ns name, ans => ans = (out.kube s.asked).pod ns name
  | .catalogCurrent, ans => ans = s.catalog
  | .nodeRateCheck node now, ans => ans = (s.nodeRate.check node now).1
  | .nodeIdentitiesAllow node identity now, ans =>
    ans = (s.nodeIdentities.allow node identity now).1
  | .cacheGet key, ans => ans = s.cache key
  | .mintRateCheck role now, ans => ans = (s.mintRate.check role now).1
  | .mint role audience, ans => ∀ token, ans = .ok token → out.mints role audience token
  | .jwksHas kid, ans => ans = s.has kid
  | .jwksForce now, ans => ans = s.mayForce now
  | .catalogText, ans => ans = s.catalogText
  | .issuerSign _, _ | .jwksFetch, _ | .catalogFile, _ => True
  | .nodeRateRecord _ _, _ | .nodeRateSweep _, _ | .nodeIdentitiesSweep _, _
  | .cacheInsert _ _, _ | .cacheSweep _, _ | .mintRateRecord _ _, _ | .jwksReplace _, _
  | .catalogReplace _ _, _ => True

end BrokerState

/-- The world of a broker. -/
def brokerWorld (out : Outside) : World BrokerSig BrokerState :=
  fun op s ans s' => s.Answers out op ans ∧ s' = s.after op

/-- **What a call does to the cache.** A token found in it afterwards was there before, or is the one
    the call put in. -/
theorem BrokerState.cache_after {s : BrokerState} {op : BrokerOp} {key : CacheKey} {c : Cached}
    (h : (s.after op).cache key = some c) :
    s.cache key = some c ∨ op = .cacheInsert key c := by
  cases op with
  | cacheInsert key' c' =>
    simp only [after, Function.update_apply] at h
    split at h
    · rename_i hkey
      rw [hkey, Option.some.inj h]
      exact .inr rfl
    · exact .inl h
  | cacheSweep now => exact .inl (Option.filter_eq_some_iff.mp h).1
  | jwksForce now =>
    refine .inl ?_
    simp only [after] at h
    split at h
    · exact h
    · exact h
  | _ => exact .inl h

/-! ## Forced refreshes

Requests run side by side; each call is one step, so their calls are made in some order. -/

/-! ## Playing a broker

Everything outside answers by a function. -/

structure Responses where
  kube : Nat → Kube
  sign : SignOrder → Except Error IssuedBundle
  mint : String → String → Except Error String
  jwks : Except String String
  file : Except String String

def Responses.reply (r : Responses) (s : BrokerState) : (op : BrokerOp) → op.Ans
  | .tokenReview token audience => (r.kube s.asked).tokenReview token audience
  | .pod ns name => (r.kube s.asked).pod ns name
  | .catalogCurrent => s.catalog
  | .nodeRateCheck node now => (s.nodeRate.check node now).1
  | .nodeIdentitiesAllow node identity now => (s.nodeIdentities.allow node identity now).1
  | .issuerSign order => r.sign order
  | .cacheGet key => s.cache key
  | .mintRateCheck role now => (s.mintRate.check role now).1
  | .mint role audience => r.mint role audience
  | .jwksHas kid => s.has kid
  | .jwksForce now => s.mayForce now
  | .jwksFetch => r.jwks
  | .catalogFile => r.file
  | .catalogText => s.catalogText
  | .nodeRateRecord _ _ | .nodeRateSweep _ | .nodeIdentitiesSweep _ | .cacheInsert _ _
  | .cacheSweep _ | .mintRateRecord _ _ | .jwksReplace _ | .catalogReplace _ _ => ()

def Responses.answer (r : Responses) (op : BrokerOp) (s : BrokerState) : op.Ans × BrokerState :=
  (r.reply s op, s.after op)

/-- A broker that is played is a broker. -/
theorem Responses.answer_world {r : Responses} {out : Outside} (hkube : r.kube = out.kube)
    (hmint : ∀ role audience token, r.mint role audience = .ok token →
      out.mints role audience token) (op : BrokerOp) (s : BrokerState) :
    brokerWorld out op s (r.answer op s).1 (r.answer op s).2 := by
  refine ⟨?_, rfl⟩
  cases op with
  | tokenReview token audience =>
    show (r.kube s.asked).tokenReview token audience = _
    rw [hkube]
  | pod ns name =>
    show (r.kube s.asked).pod ns name = _
    rw [hkube]
  | mint role audience => exact hmint role audience
  | _ => first | rfl | trivial

/-! One cluster, one node, one workload with one audience. -/

def oneConfig : Config where
  cluster := "c"
  trustDomain := "example.org"
  spiffeIdTemplate := onePolicy.template.raw
  spiffeIdPattern := none
  audience := "svidlet-broker"
  nodeNamespace := "svidlet-system"
  nodeServiceAccount := "svidlet-node"
  nodeDaemonset := "svidlet-node"
  deniedNamespaces := ["kube-system"]
  certTtl := 3600
  certMaxTtl := 3600
  nodeRatePerMinute := 120
  nodeIdentitiesPerHour := 500
  mintRatePerMinute := 60

def oneCatalog : ValidCatalog where
  catalog :=
    { schema := 1, trustDomain := "example.org",
      pathTemplate := "/cluster/\x7bcluster\x7d/ns/\x7bnamespace\x7d/sa/\x7bservice_account\x7d",
      allowlist := true,
      identity := [⟨"c", "n", "s", none, true, [⟨"db", "d"⟩]⟩],
      registries := ["registry.example.org/"] }
  valid := by decide

def nodePod : Pod where
  ns := "svidlet-system"
  name := "svidlet-node-1"
  uid := "1"
  nodeName := "node-1"
  serviceAccount := "svidlet-node"
  terminating := false
  images := []
  owners := [("DaemonSet", "svidlet-node")]

def workloadPod : Pod where
  ns := "n"
  name := "p"
  uid := "2"
  nodeName := "node-1"
  serviceAccount := "s"
  terminating := false
  images := ["registry.example.org/app@sha256:00"]
  owners := []

def oneKube : Kube where
  tokenReview token _ :=
    if token = "node token" then
      .ok (some ⟨"system:serviceaccount:svidlet-system:svidlet-node", some "svidlet-node-1", some "1",
        some "node-1"⟩)
    else if token = "pod token" then
      .ok (some ⟨"system:serviceaccount:n:s", some "p", some "2", none⟩)
    else .ok none
  pod ns name := .ok ([nodePod, workloadPod].find? fun pod => pod.ns = ns ∧ pod.name = name)

theorem oneKube_faithful : oneKube.Faithful := by
  intro ns name pod h
  have hfound := List.find?_some (Except.ok.inj h)
  simpa using hfound

/-! Identities of pods: the template ends in the pod's name. Tokens and key sets are texts whose
base64 and JSON are known beforehand. -/

open Matcher (templateEngine)

def podPolicy : IdPolicy templateEngine where
  template :=
    { raw := "spiffe://\x7btrust_domain\x7d/\x7bcluster\x7d/\x7bnamespace\x7d/\x7bservice_account\x7d/\x7bpod_name\x7d"
      parts := [.literal "spiffe://", .field .trustDomain, .literal "/", .field .cluster,
        .literal "/", .field .ns, .literal "/", .field .serviceAccount, .literal "/",
        .field .podName]
      fields := [.trustDomain, .cluster, .ns, .serviceAccount, .podName]
      matcher := "spiffe://".toList.map .char ++ [.group, .char '/', .group, .char '/', .group,
        .char '/', .group, .char '/', .group] }
  pattern := none
  patternSrc := none

def podConfig : Config :=
  { oneConfig with trustDomain := "t", spiffeIdTemplate := podPolicy.template.raw }

def asciiBytes (text : String) : List UInt8 := text.toList.map fun c => UInt8.ofNat c.toNat

/-- A reader of the texts it has been told about. -/
def tableReader (b64 : List (String × String)) (headers : List (String × JwtHeader))
    (claims : List (String × RawClaims)) (keys : List (String × List RawJwk)) : JwtReader where
  b64 text := ((b64.lookup text).map asciiBytes).elim (.error "invalid symbol") .ok
  header bytes := ((headers.map fun e => (asciiBytes e.1, e.2)).lookup bytes).elim
    (.error "expected value") .ok
  claims bytes := ((claims.map fun e => (asciiBytes e.1, e.2)).lookup bytes).elim
    (.error "expected value") .ok
  jwks text := (keys.lookup text).elim (.error "expected value") .ok

def podHeader : String := "\x7b\"alg\":\"ES256\",\"kid\":\"k\"\x7d"
def podHeaderB64 : String := "eyJhbGciOiJFUzI1NiIsImtpZCI6ImsifQ"
def podClaims : String := "\x7b\"sub\":\"spiffe://t/c/n/s/p\",\"aud\":\"d\",\"exp\":8\x7d"
def podClaimsB64 : String := "eyJzdWIiOiJzcGlmZmU6Ly90L2Mvbi9zL3AiLCJhdWQiOiJkIiwiZXhwIjo4fQ"

/-- The token of the pod `p`. -/
def podToken : String := "eyJhbGciOiJFUzI1NiIsImtpZCI6ImsifQ.eyJzdWIiOiJzcGlmZmU6Ly90L2Mvbi9zL3AiLCJhdWQiOiJkIiwiZXhwIjo4fQ.c2ln"

def podJwks : String :=
  "\x7b\"keys\":[\x7b\"kid\":\"k\",\"kty\":\"EC\",\"crv\":\"P-256\",\"x\":\"AA\",\"y\":\"AA\"\x7d]\x7d"

def podReader : JwtReader :=
  tableReader [(podHeaderB64, podHeader), (podClaimsB64, podClaims), ("AA", "\x00")]
    [(podHeader, ⟨"ES256", "k"⟩)]
    [(podClaims, ⟨"spiffe://t/c/n/s/p", .one "d", "", 8, 0, ""⟩)]
    [(podJwks, [⟨"k", "EC", "P-256", "AA", "AA", "", ""⟩])]

/-- The certificates of two pods with the same ServiceAccount. -/
def podTokens : Tokens templateEngine where
  cfg := podConfig
  policy := podPolicy
  leaf der :=
    if der = [1] then .ok ⟨false, 0, 9, .ok (some [.uri "spiffe://t/c/n/s/p"]), "01"⟩
    else if der = [2] then .ok ⟨false, 0, 9, .ok (some [.uri "spiffe://t/c/n/s/q"]), "02"⟩
    else .error "unexpected end of data"
  jwt := podReader

def callerP : Caller := ⟨⟨"spiffe://t/c/n/s/p", by decide⟩, "n", "s", 9, "01"⟩
def callerQ : Caller := ⟨⟨"spiffe://t/c/n/s/q", by decide⟩, "n", "s", 9, "02"⟩

/-- A minter with one token. -/
def podMinter : Responses where
  kube _ := oneKube
  sign _ := .error (.transport "not asked")
  mint _ _ := .ok podToken
  jwks := .ok podJwks
  file := .error "not asked"

def podOutside : Outside := ⟨fun _ => oneKube, fun _ _ token => token = podToken⟩

theorem podMinter_world (op : BrokerOp) (s : BrokerState) :
    brokerWorld podOutside op s (podMinter.answer op s).1 (podMinter.answer op s).2 :=
  Responses.answer_world rfl (fun _ _ _ h => (Except.ok.inj h).symm) op s

/-- Requests to this broker, played from the start. -/
def podSession (calls : List Tokens.Call) :
    List (Done BrokerSig Tokens.Call Tokens.Answer) × BrokerState :=
  playAll podMinter.answer (podTokens.serve fun _ => .error (.config "not asked")) calls
    (.start podConfig oneCatalog "")

end Svidlet.Broker
