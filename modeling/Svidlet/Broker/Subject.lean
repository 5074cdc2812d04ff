import Svidlet.Broker.Grants

/-!
# Whose token it is

The cache is keyed by role and audience, and a role is a cluster, a namespace and a ServiceAccount.
The subject of a token is compared with the caller's ID when the token is minted, and not again when
it is served from the cache.

So the subject of a granted token is the ID of *some* caller with the same role, the one it was
minted for. If the callers of a session who share a namespace and a ServiceAccount share their ID
as well, that is the caller's own ID (`granted_subject_is_caller`), and that is so for the default
template. But the broker accepts a template that also has the pod's name in it, and then two pods
of one ServiceAccount have two IDs and one cache entry: the second is served the first one's token
(`cached_token_names_another_pod`), which it would have been refused had it been minted for it.
-/

namespace Svidlet.Broker.Tokens

open Lib Issue

variable {E : RegexEngine}

/-- Somebody who asked for tokens in a session. -/
def Asker (ds : List (Done BrokerSig Call Answer)) (caller : Caller) : Prop :=
  ∃ d ∈ ds, ∃ now, d.call.asks = some (caller, now)

/-- A cached token is that of an asker with the role it is filed under. -/
structure OfAsker (tokens : Tokens E) (ds : List (Done BrokerSig Call Answer)) (key : CacheKey)
    (c : Cached) : Prop where
  decoded : decodeUnverified tokens.jwt c.token = .ok c.parsed
  asker : ∃ owner, Asker ds owner ∧ Listed tokens owner ∧ key.1 = tokens.role owner ∧
    c.parsed.claims.sub = owner.spiffeId.asStr

/-- Two callers in the catalog who have the same role have the same names. -/
theorem same_names_of_role {tokens : Tokens E} {a b : Caller} (ha : Listed tokens a)
    (hb : Listed tokens b) (h : tokens.role a = tokens.role b) :
    a.ns = b.ns ∧ a.serviceAccount = b.serviceAccount := by
  obtain ⟨catalogA, _, hA⟩ := ha
  obtain ⟨catalogB, _, hB⟩ := hb
  exact roleName_injective (catalogA.lookup_isName hA).1 (catalogB.lookup_isName hB).1 h

/-- The role that a call names. -/
def roleKey : BrokerOp → Option String
  | .cacheGet key | .cacheInsert key _ => some key.1
  | .mintRateCheck role _ | .mintRateRecord role _ | .mint role _ => some role
  | _ => none

/-- For a caller `one` looks under one role only. -/
theorem one_roleKey (tokens : Tokens E) (caller : Caller) (entry : CatalogIdentity) (audience : String)
    (now : Int64) : (tokens.one caller entry audience now).run.Makes
      (fun op => ∀ role, roleKey op = some role → role = tokens.role caller) := by
  have hown : ∀ role, some (tokens.role caller) = some role → role = tokens.role caller :=
    fun role h => (Option.some.inj h).symm
  refine one_makes hown ?_ hown hown hown fun _ => hown
  intro op hquiet role hrole
  cases op <;> first | exact False.elim hquiet | cases hrole

/-- **Role names keep identities apart**: the name gives the three names back, and so what is asked of
    the cache, of the mint rate and of Vault for one identity is never asked for another. -/
theorem roles_tell_identities_apart {cluster ns sa cluster' ns' sa' : String}
    (hnames : isName cluster = true ∧ isName ns = true ∧ isName sa = true)
    (hnames' : isName cluster' = true ∧ isName ns' = true ∧ isName sa' = true) :
    (roleName cluster ns sa = roleName cluster' ns' sa' →
      (cluster, ns, sa) = (cluster', ns', sa')) ∧
    ((cluster, ns, sa) ≠ (cluster', ns', sa') →
      ∀ {E E' : RegexEngine} (tokens : Tokens E) (tokens' : Tokens E') (a b : Caller),
        (tokens.cfg.cluster, a.ns, a.serviceAccount) = (cluster, ns, sa) →
        (tokens'.cfg.cluster, b.ns, b.serviceAccount) = (cluster', ns', sa') →
        ∃ role role', role ≠ role' ∧ ∀ entry entry' audience audience' now now',
          (tokens.one a entry audience now).run.Makes
            (fun op => ∀ key, roleKey op = some key → key = role) ∧
          (tokens'.one b entry' audience' now').run.Makes
            (fun op => ∀ key, roleKey op = some key → key = role')) := by
  have hinj : roleName cluster ns sa = roleName cluster' ns' sa' →
      (cluster, ns, sa) = (cluster', ns', sa') := by
    intro h
    obtain rfl := cluster_of_roleName hnames.1 hnames'.1 h
    obtain ⟨rfl, rfl⟩ := roleName_injective hnames.2.1 hnames'.2.1 h
    rfl
  refine ⟨hinj, ?_⟩
  intro hne _ _ tokens tokens' a b ha hb
  obtain ⟨rfl, rfl, rfl⟩ : _ ∧ _ ∧ _ := by simpa using ha
  obtain ⟨rfl, rfl, rfl⟩ : _ ∧ _ ∧ _ := by simpa using hb
  exact ⟨tokens.role a, tokens'.role b, fun h => hne (hinj h), fun _ _ _ _ _ _ =>
    ⟨one_roleKey tokens a _ _ _, one_roleKey tokens' b _ _ _⟩⟩

/-- Two ways to place a dash. -/
theorem roles_tell_identities_apart_dashes :
    isName "c" = true ∧ roleName "c" "a-b" "s" ≠ roleName "c" "a" "b-s" :=
  ⟨by decide, fun h => absurd ((roles_tell_identities_apart (by decide) (by decide)).1 h) (by decide)⟩

/-- Callers of a session with the same namespace and ServiceAccount have the same ID. -/
def OneIdPerAccount (ds : List (Done BrokerSig Call Answer)) : Prop :=
  ∀ a b, Asker ds a → Asker ds b → a.ns = b.ns → a.serviceAccount = b.serviceAccount →
    a.spiffeId = b.spiffeId

/-- **A granted token names the caller it is granted to**, in every session whose callers have one ID
    for each namespace and ServiceAccount. -/
theorem granted_subject_is_caller (tokens : Tokens E) (toml : String → Except Error Catalog)
    (out : Outside) (catalog : ValidCatalog) (text : String) (s' : BrokerState)
    (ds : List (Done BrokerSig Call Answer))
    (h : Session (brokerWorld out) (tokens.serve toml) (.start tokens.cfg catalog text) ds s')
    (hone : OneIdPerAccount ds) :
    ∀ d ∈ ds, ∀ caller now, d.call.asks = some (caller, now) → ∀ g ∈ d.answer.grants,
      ∃ parsed, decodeUnverified tokens.jwt g.token = .ok parsed ∧
        parsed.claims.sub = caller.spiffeId.asStr := by
  have hasker : ∀ d ∈ ds, ∀ caller now, d.call.asks = some (caller, now) → Asker ds caller :=
    fun d hd caller now hasks => ⟨d, hd, now, hasks⟩
  have hgranted := session_granted (K := OfAsker tokens ds)
    (A := fun call => ∀ caller now, call.asks = some (caller, now) → Asker ds caller)
    (fun call caller now audience c hcall hasks hlisted hfresh =>
      ⟨hfresh.decoded, caller, hcall caller now hasks, hlisted, rfl, hfresh.subject⟩) h hasker
  intro d hd caller now hasks g hg
  obtain ⟨catalog', entry, c, _, hfound, hc⟩ := hgranted d hd caller now hasks g hg
  obtain ⟨hdecoded, owner, howner, hlisted, hrole, hsub⟩ := hc.cached
  obtain ⟨hns, hsa⟩ := same_names_of_role ⟨catalog', entry, hfound⟩ hlisted hrole
  have hid := hone caller owner (hasker d hd caller now hasks) howner hns hsa
  refine ⟨c.parsed, ?_, ?_⟩
  · rw [hc.same]
    exact hdecoded
  · rw [hsub, hid]

theorem asker_of_calls {calls : List Call} {caller : Caller} (h : Asker (podSession calls).1 caller) :
    ∃ call ∈ calls, ∃ now, call.asks = some (caller, now) := by
  obtain ⟨d, hd, now, hasks⟩ := h
  have hcalls : (podSession calls).1.map Done.call = calls := playAll_calls
  exact ⟨d.call, hcalls ▸ List.mem_map_of_mem hd, now, hasks⟩

/-- One pod asks twice, and the second answer comes from the cache. -/
theorem granted_subject_is_caller_cached :
    ∃ d ∈ (podSession twice).1, d.call.asks = some (callerP, 2) ∧ oldGrant ∈ d.answer.grants ∧
      ∃ parsed, decodeUnverified podTokens.jwt oldGrant.token = .ok parsed ∧
        parsed.claims.sub = callerP.spiffeId.asStr := by
  have honly : ∀ a, Asker (podSession twice).1 a → a = callerP := by
    intro a ha
    obtain ⟨call, hcall, now, hasks⟩ := asker_of_calls ha
    simp only [twice, List.mem_cons, List.not_mem_nil, or_false] at hcall
    rcases hcall with rfl | rfl | rfl
    · cases hasks
    · exact (Prod.mk.inj (Option.some.inj hasks)).1.symm
    · exact (Prod.mk.inj (Option.some.inj hasks)).1.symm
  have hone : OneIdPerAccount (podSession twice).1 := by
    intro a b ha hb _ _
    rw [honly a ha, honly b hb]
  obtain ⟨d, hd, hasks, hgrant⟩ := twice_served
  exact ⟨d, hd, hasks, hgrant, granted_subject_is_caller podTokens _ podOutside oneCatalog "" _ _
    (playAll_session podMinter_world _ _ _) hone d hd callerP 2 hasks oldGrant hgrant⟩

/-- Two pods of one ServiceAccount, one after the other. -/
def twoPods : List Call := [.refresh, .single callerP "d" 1, .single callerQ "d" 2]

/-- The configuration is accepted, and so are both callers. The pod `p` has a token minted; then the
    pod `q` asks for the same audience and is handed a token that says it is `p`. -/
theorem cached_token_names_another_pod : podTokens.cfg.idPolicy = .ok podTokens.policy ∧
    podTokens.caller [1] 1 = .ok callerP ∧ podTokens.caller [2] 2 = .ok callerQ ∧
    Session (brokerWorld podOutside) (podTokens.serve fun _ => .error (.config "not asked"))
      (.start podTokens.cfg oneCatalog "")
      (podSession twoPods).1
      (podSession twoPods).2 ∧
    ∃ d ∈ (podSession twoPods).1, d.call.asks = some (callerQ, 2) ∧ ∃ g ∈ d.answer.grants,
        ∀ parsed, decodeUnverified podTokens.jwt g.token = .ok parsed →
          parsed.claims.sub ≠ callerQ.spiffeId.asStr := by
  refine ⟨by decide +kernel, by decide, by decide, playAll_session podMinter_world _ _ _, ?_⟩
  have hserved : ∃ d ∈ (podSession twoPods).1,
      d.call.asks = some (callerQ, 2) ∧ oldGrant ∈ d.answer.grants := by decide
  have hsub : (decodeUnverified podTokens.jwt oldGrant.token).toOption.all
      (fun t => t.claims.sub ≠ callerQ.spiffeId.asStr) = true := by decide +kernel
  obtain ⟨d, hd, hasks, hgrant⟩ := hserved
  refine ⟨d, hd, hasks, oldGrant, hgrant, ?_⟩
  intro parsed hparsed
  rw [hparsed] at hsub
  exact of_decide_eq_true hsub

end Svidlet.Broker.Tokens
