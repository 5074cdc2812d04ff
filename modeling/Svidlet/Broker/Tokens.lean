import Svidlet.Broker.Program

/-!
# The token path

`svidlet-broker/src/tokens.rs`: take the identity from the caller's certificate, look up what it may
have, and answer from a cache shared by every pod with the same role, or from Vault.

`one` is the heart of it. A token that has just been minted is checked against the caller and the
audience and only then cached; a token found in the cache is checked for its age, the caller's
expiry and its key, and for nothing else. What was checked when it was minted has to still be true
when it is served, and that is what the theorems about this file are about.

Certificates are parsed by a crate; `caller` is what the source does with a parsed one.
-/

namespace Svidlet.Broker

open Lib Issue

/-! ## 1. Callers and grants -/

inductive GeneralName where
  | uri (uri : String)
  | other
  deriving DecidableEq

/-- A parsed leaf certificate. -/
structure Leaf where
  isCa : Bool
  notBefore : Int64
  notAfter : Int64
  /-- The subject alternative names: malformed, absent, or a list. -/
  san : Except String (Option (List GeneralName))
  serial : String

/-- The identity a caller's certificate proves. -/
structure Caller where
  spiffeId : SpiffeId
  ns : String
  serviceAccount : String
  /-- No token may outlive it. -/
  notAfter : Int64
  serial : String
  deriving DecidableEq

/-- One token handed out. -/
structure Grant where
  aliasName : String
  audience : String
  token : String
  exp : Int64
  jti : String
  /-- Whether this answer cost a Vault mint. -/
  minted : Bool
  deriving DecidableEq

def grant (aliasName audience : String) (c : Cached) (minted : Bool) : Grant :=
  ⟨aliasName, audience, c.token, c.parsed.claims.exp, c.parsed.claims.jti, minted⟩

structure Tokens (E : RegexEngine) where
  cfg : Config
  policy : IdPolicy E
  /-- The certificate parser, and the base64 and JSON readers. -/
  leaf : List UInt8 → Except String Leaf
  jwt : JwtReader

/-! ## 2. The key set -/

namespace JwksSource

/-- Fetch and replace. On failure the last good set stays. -/
def refresh (reader : JwtReader) : Fallible BrokerSig String Nat := do
  let text ← ExceptT.mk (ask .jwksFetch)
  let jwks ← liftResult ((Jwks.parse reader text).mapError Error.text)
  liftResult (refuseIf (jwks = []) "the JWKS holds no keys")
  ask (.jwksReplace jwks)
  return jwks.length

/-- Refresh now unless one ran in the last ten seconds. -/
def refreshIfStale (reader : JwtReader) (now : Int64) : Prog BrokerSig Unit := do
  if ← ask (.jwksForce now) then
    let _ ← (refresh reader).run

end JwksSource

/-! ## 3. The catalog -/

namespace CatalogHandle

/-- Re-read the file. An invalid new version is an error and the previous one stays in force. -/
def reload (toml : String → Except Error Catalog) : Fallible BrokerSig String Bool := do
  let text ← ExceptT.mk (ask .catalogFile)
  let current ← ask .catalogText
  if current = text then return false
  else
    let catalog ← liftResult ((toml text >>= Catalog.checked).mapError Error.text)
    ask (.catalogReplace catalog text)
    return true

end CatalogHandle

namespace Tokens

variable {E : RegexEngine}

/-! ## 4. Who is calling -/

/-- The URI names among the alternative names. -/
def uris (names : List GeneralName) : List String := names.filterMap fun
    | .uri u => some u
    | .other => none

/-- The one URI of a certificate that is no authority and is valid now. -/
def oneUri (cert : Leaf) (now : Int64) : Except Refusal String := do
  refuseIf (cert.isCa) (.unauthenticated "T1" "the client certificate is a CA")
  refuseIf (now < cert.notBefore ∨ cert.notAfter ≤ now)
    (.unauthenticated "T1" "the client certificate is not currently valid")
  let san ← cert.san.mapError fun e => Refusal.unauthenticated "T1" ("malformed SAN: " ++ e)
  match san with
  | none => throw (.unauthenticated "T1" "the client certificate has no SAN")
  | some names =>
    match uris names with
    | [uri] => return uri
    | found => throw (.unauthenticated "T1" ("expected exactly one URI SAN, found "
        ++ toString found.length))

theorem oneUri_ok {cert : Leaf} {names : List GeneralName} {uri : String} {now : Int64}
    (hca : cert.isCa = false) (hwindow : cert.notBefore ≤ now ∧ now < cert.notAfter)
    (hsan : cert.san = .ok (some names)) (huri : uris names = [uri]) :
    oneUri cert now = .ok uri := by
  have hvalid : ¬ (now < cert.notBefore ∨ cert.notAfter ≤ now) := by
    simp only [not_or, Int64.not_lt, Int64.not_le]
    exact hwindow
  unfold oneUri
  simp only [refuseIf, hca, Bool.false_eq_true, if_false, if_neg hvalid, hsan, Except.mapError]
  show (match uris names with
    | [uri] => _
    | found => _) = _
  rw [huri]
  rfl

/-- What an ID says of its holder, if it has this cluster's shape and is in this cluster. -/
def checkShape (tokens : Tokens E) (spiffeId : SpiffeId) : Except Refusal WorkloadAttributes := do
  (tokens.policy.check spiffeId.asStr).mapError fun e => Refusal.forbidden "T1" e.text
  match tokens.policy.attributesOf spiffeId.asStr with
  | none =>
    throw (.forbidden "T1" (spiffeId.asStr ++ " does not have this cluster's ID shape"))
  | some attrs =>
    refuseIf (attrs.trustDomain ≠ tokens.cfg.trustDomain ∧ ¬ attrs.trustDomain.isEmpty)
      (.forbidden "T1" (spiffeId.asStr ++ " is in another trust domain"))
    refuseIf (attrs.cluster ≠ tokens.cfg.cluster)
      (.forbidden "T2" (spiffeId.asStr ++ " belongs to cluster " ++ debugStr attrs.cluster
        ++ ", not " ++ debugStr tokens.cfg.cluster))
    refuseIf (attrs.ns.isEmpty ∨ attrs.serviceAccount.isEmpty)
      (.forbidden "T1" (spiffeId.asStr ++ " names no namespace and ServiceAccount"))
    return attrs

/-- The rules T1 and T2 on a certificate the TLS layer already chained to the pinned root. -/
def caller (tokens : Tokens E) (leafDer : List UInt8) (now : Int64) : Except Refusal Caller := do
  let cert ← (tokens.leaf leafDer).mapError fun e =>
    Refusal.unauthenticated "T1" ("unreadable client certificate: " ++ e)
  let uri ← oneUri cert now
  let spiffeId ← (SpiffeId.parse uri).mapError fun e =>
    Refusal.unauthenticated "T1" ("the URI SAN is not a SPIFFE ID: " ++ e.text)
  let attrs ← tokens.checkShape spiffeId
  return ⟨spiffeId, attrs.ns, attrs.serviceAccount, cert.notAfter, cert.serial⟩

/-! ## 5. One token -/

def entry (tokens : Tokens E) (caller : Caller) : Fallible BrokerSig Refusal CatalogIdentity := do
  let catalog ← ask .catalogCurrent
  match catalog.catalog.lookup tokens.cfg.cluster caller.ns caller.serviceAccount with
  | some identity => return identity
  | none => throw (.forbidden "T3" (caller.spiffeId.asStr ++ " has no catalog entry"))

/-- The role comes from the certificate, never from the request. -/
def role (tokens : Tokens E) (caller : Caller) : String :=
  roleName tokens.cfg.cluster caller.ns caller.serviceAccount

/-- The rules T5 and T6 for a cached token. -/
def servable (t : Unverified) (caller : Caller) (now : Int64) :
    Fallible BrokerSig Refusal Bool := do
  if t.pastHalfLife now ∨ caller.notAfter < t.claims.exp then return false
  else
    match ← ask (.jwksHas t.header.kid) with
    | some true => return true
    | some false => return false
    | none => throw (.unavailable "the public JWKS has not been loaded yet")

/-- A token from the cache, if there is one that may still be served. -/
def fromCache (tokens : Tokens E) (caller : Caller) (audience : String) (now : Int64) :
    Fallible BrokerSig Refusal (Option Cached) := do
  match ← ask (.cacheGet (tokens.role caller, audience)) with
  | none => return none
  | some c =>
    if ← servable c.parsed caller now then return some c else return none

/-- The role fixes the subject; check that Vault agrees. -/
def checkMinted (tokens : Tokens E) (caller : Caller) (audience : String) (parsed : Unverified) :
    Except Refusal Unit :=
  refuseIf (parsed.claims.sub ≠ caller.spiffeId.asStr ∨ audience ∉ parsed.claims.aud)
    (.internal ("role " ++ tokens.role caller ++ " minted sub=" ++ debugStr parsed.claims.sub
      ++ " aud=" ++ debugStrs parsed.claims.aud
      ++ "; the Vault role does not match the catalog"))

/-- A new token, within the rate. -/
def mint (tokens : Tokens E) (caller : Caller) (audience : String) (now : Int64) :
    Fallible BrokerSig Refusal Cached := do
  let fits ← ask (.mintRateCheck (tokens.role caller) now)
  liftResult (refuseIf (¬ fits) (.tooMany "T7" (caller.spiffeId.asStr ++ " is over its mint rate")))
  ask (.mintRateRecord (tokens.role caller) now)
  let answer ← ask (.mint (tokens.role caller) audience)
  let token ← liftResult (answer.mapError fromVault)
  let parsed ← liftResult ((decodeUnverified tokens.jwt token).mapError fun e =>
    Refusal.internal ("Vault minted an unreadable token: " ++ e.text))
  liftResult (tokens.checkMinted caller audience parsed)
  return ⟨token, parsed⟩

/-- Only once relying parties can verify it. -/
def published (tokens : Tokens E) (kid : String) (now : Int64) :
    Fallible BrokerSig Refusal Unit := do
  if (← ask (.jwksHas kid)) = some true then return ()
  else
    JwksSource.refreshIfStale tokens.jwt now
    let again ← ask (.jwksHas kid)
    liftResult (refuseIf (again ≠ some true)
      (.unavailable ("signing key " ++ kid ++ " is not in the public JWKS yet")))

def one (tokens : Tokens E) (caller : Caller) (entry : CatalogIdentity) (audience : String)
    (now : Int64) : Fallible BrokerSig Refusal Grant := do
  match entry.audience audience with
  | none =>
    throw (.forbidden "T3" ("audience " ++ debugStr audience ++ " is not approved for "
      ++ caller.spiffeId.asStr))
  | some approved =>
    match ← tokens.fromCache caller audience now with
    | some c => return grant approved.aliasName audience c false
    | none =>
      let fresh ← tokens.mint caller audience now
      tokens.published fresh.parsed.header.kid now
      liftResult (refuseIf (caller.notAfter < fresh.parsed.claims.exp)
        (.unavailable ("the client certificate expires before a new token would; "
          ++ "renew the certificate first")))
      ask (.cacheInsert (tokens.role caller, audience) fresh)
      return grant approved.aliasName audience fresh true

/-! ## 6. Requests -/

/-- Direct mode: one audience, which must still be approved. -/
def single (tokens : Tokens E) (caller : Caller) (audience : String) (now : Int64) :
    Fallible BrokerSig Refusal Grant := do
  let entry ← tokens.entry caller
  tokens.one caller entry audience now

/-- One audience after the other. One that Vault refuses outright is left out; any other failure
    is the whole answer. -/
def each (tokens : Tokens E) (caller : Caller) (entry : CatalogIdentity) (now : Int64) :
    List Audience → List Grant → Prog BrokerSig (Except Refusal (List Grant))
  | [], out => return .ok out
  | aud :: rest, out => do
    match ← (tokens.one caller entry aud.audience now).run with
    | .ok g => each tokens caller entry now rest (out ++ [g])
    | .error (.forbidden "vault" _) => each tokens caller entry now rest out
    | .error e => return .error e

/-- File mode: every approved audience. -/
def all (tokens : Tokens E) (caller : Caller) (now : Int64) :
    Fallible BrokerSig Refusal (List Grant) := do
  let entry ← tokens.entry caller
  ExceptT.mk (tokens.each caller entry now entry.audiences [])

/-- Drop cached tokens past half-life or whose key is retired. -/
def sweep (now : Int64) : Prog BrokerSig Unit := ask (.cacheSweep now)

/-! ## 7. What the token port and the housekeeping ask for -/

inductive Call where
  | single (caller : Caller) (audience : String) (now : Int64)
  | all (caller : Caller) (now : Int64)
  | sweep (now : Int64)
  | refresh
  | reload

/-- Who is asking for tokens, and when. -/
def Call.asks : Call → Option (Caller × Int64)
  | .single caller _ now => some (caller, now)
  | .all caller now => some (caller, now)
  | .sweep _ | .refresh | .reload => none

inductive Answer where
  | granted (r : Except Refusal (List Grant))
  | swept
  | refreshed (r : Except String Nat)
  | reloaded (r : Except String Bool)

/-- The tokens handed out. -/
def Answer.grants : Answer → List Grant
  | .granted (.ok gs) => gs
  | _ => []

def serve (tokens : Tokens E) (toml : String → Except Error Catalog) : Call → Prog BrokerSig Answer
  | .single caller audience now => do
    let r ← (tokens.single caller audience now).run
    return .granted (r.map fun g => [g])
  | .all caller now => return .granted (← (tokens.all caller now).run)
  | .sweep now => do
    sweep now
    return .swept
  | .refresh => return .refreshed (← (JwksSource.refresh tokens.jwt).run)
  | .reload => return .reloaded (← (CatalogHandle.reload toml).run)

end Tokens

/-! ## 8. Which calls they make -/

/-- A call that neither files a token nor touches a rate. -/
def BrokerOp.Plain : BrokerOp → Prop
  | .cacheInsert _ _ | .nodeRateCheck _ _ | .nodeRateRecord _ _ | .nodeRateSweep _
  | .mintRateCheck _ _ | .mintRateRecord _ _ => False
  | _ => True

/-- A plain call that leaves the minter and the cache alone, too. -/
def BrokerOp.Quiet : BrokerOp → Prop
  | .mint _ _ | .cacheSweep _ | .cacheGet _ => False
  | op => op.Plain

theorem BrokerOp.Quiet.plain {op : BrokerOp} (h : op.Quiet) : op.Plain := by
  cases op <;> first | exact h | exact h.elim

section

variable {E : RegexEngine} {φ : BrokerOp → Prop}

theorem ask_makes {op : BrokerOp} (h : φ op) : (ask op).Makes φ := Prog.Makes.of_op h

theorem JwksSource.refresh_makes (hφ : ∀ op : BrokerOp, op.Quiet → φ op) {reader : JwtReader} :
    (JwksSource.refresh reader).run.Makes φ := by
  unfold refresh
  refine .run_bind (ask_makes (hφ _ trivial)) fun text => ?_
  refine .result_bind fun jwks => ?_
  refine .result_bind fun _ => ?_
  exact .lift_bind (ask_makes (hφ _ trivial)) fun _ => trivial

theorem JwksSource.refreshIfStale_makes (hφ : ∀ op : BrokerOp, op.Quiet → φ op)
    {reader : JwtReader} {now : Int64} : (JwksSource.refreshIfStale reader now).Makes φ := by
  unfold refreshIfStale
  refine .bind (ask_makes (hφ _ trivial)) fun stale => ?_
  split
  · exact .bind (refresh_makes hφ) fun _ => trivial
  · trivial

theorem CatalogHandle.reload_makes (hφ : ∀ op : BrokerOp, op.Quiet → φ op)
    {toml : String → Except Error Catalog} : (CatalogHandle.reload toml).run.Makes φ := by
  unfold reload
  refine .run_bind (ask_makes (hφ _ trivial)) fun text => ?_
  refine .lift_bind (ask_makes (hφ _ trivial)) fun current => ?_
  split
  · trivial
  · refine .result_bind fun catalog => ?_
    exact .lift_bind (ask_makes (hφ _ trivial)) fun _ => trivial

namespace Tokens

variable {tokens : Tokens E} {caller : Caller} {audience : String} {now : Int64}

theorem entry_makes (hφ : ∀ op : BrokerOp, op.Quiet → φ op) : (tokens.entry caller).run.Makes φ := by
  unfold entry
  refine .lift_bind (ask_makes (hφ _ trivial)) fun catalog => ?_
  split
  · trivial
  · trivial

theorem servable_makes (hφ : ∀ op : BrokerOp, op.Quiet → φ op) {t : Unverified} :
    (servable t caller now).run.Makes φ := by
  unfold servable
  split
  · trivial
  refine .lift_bind (ask_makes (hφ _ trivial)) fun has => ?_
  split
  · trivial
  · trivial
  · trivial

theorem fromCache_makes (hget : φ (.cacheGet (tokens.role caller, audience)))
    (hφ : ∀ op : BrokerOp, op.Quiet → φ op) :
    (tokens.fromCache caller audience now).run.Makes φ := by
  unfold fromCache
  refine .lift_bind (ask_makes hget) fun found => ?_
  split
  · trivial
  refine .run_bind (servable_makes hφ) fun good => ?_
  split
  · trivial
  · trivial

theorem mint_makes (hcheck : φ (.mintRateCheck (tokens.role caller) now))
    (hrecord : φ (.mintRateRecord (tokens.role caller) now))
    (hmint : φ (.mint (tokens.role caller) audience)) :
    (tokens.mint caller audience now).run.Makes φ := by
  unfold mint
  refine .lift_bind (ask_makes hcheck) fun fits => ?_
  refine .result_bind fun _ => ?_
  refine .lift_bind (ask_makes hrecord) fun _ => ?_
  refine .lift_bind (ask_makes hmint) fun answer => ?_
  refine .result_bind fun token => ?_
  refine .result_bind fun parsed => ?_
  exact .result_bind fun _ => trivial

theorem published_makes (hφ : ∀ op : BrokerOp, op.Quiet → φ op) {kid : String} :
    (tokens.published kid now).run.Makes φ := by
  unfold published
  refine .lift_bind (ask_makes (hφ _ trivial)) fun has => ?_
  split
  · trivial
  · refine .lift_bind (JwksSource.refreshIfStale_makes hφ) fun _ => ?_
    refine .lift_bind (ask_makes (hφ _ trivial)) fun again => ?_
    trivial

theorem one_makes {entry : CatalogIdentity} (hget : φ (.cacheGet (tokens.role caller, audience)))
    (hφ : ∀ op : BrokerOp, op.Quiet → φ op)
    (hcheck : φ (.mintRateCheck (tokens.role caller) now))
    (hrecord : φ (.mintRateRecord (tokens.role caller) now))
    (hmint : φ (.mint (tokens.role caller) audience))
    (hinsert : ∀ c, φ (.cacheInsert (tokens.role caller, audience) c)) :
    (tokens.one caller entry audience now).run.Makes φ := by
  unfold one
  split
  · trivial
  refine .run_bind (fromCache_makes hget hφ) fun found => ?_
  split
  · trivial
  refine .run_bind (mint_makes hcheck hrecord hmint) fun fresh => ?_
  refine .run_bind (published_makes hφ) fun _ => ?_
  refine .result_bind fun _ => ?_
  exact .lift_bind (ask_makes (hinsert fresh)) fun _ => trivial

end Tokens

end

end Svidlet.Broker
