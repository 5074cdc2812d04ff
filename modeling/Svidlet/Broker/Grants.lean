import Svidlet.Broker.World

/-!
# What a granted token has been checked for

A token that has just been minted is checked at once. A token from the cache was checked when it
was minted, for another caller, at another time, under another catalog, and what is checked again is
only what can have changed: its age, the caller's expiry, its key. The rest has to be an invariant
of the cache.

> **Whatever is true of every freshly checked token, and does not change, is true of every granted
> one.**

That is `serve_granted`, for any predicate `K` on what is in the cache: nothing but `one` files a
token, and `one` files only what it has just checked (`Fresh`). The theorem about approval, audience,
key, expiry and age takes for `K` that the token is readable, carries the audience it is filed under
and does not expire before it was issued (`Sound`).
-/

namespace Svidlet.Broker

open Lib Issue

variable {E : RegexEngine}

/-! ## 1. Invariants of the cache -/

/-- Every cached token has `K`. -/
def BrokerState.CacheHas (K : CacheKey → Cached → Prop) (s : BrokerState) : Prop :=
  ∀ key c, s.cache key = some c → K key c

/-- Every call but one that files a token. -/
def BrokerOp.FilesNothing (op : BrokerOp) : Prop := ∀ key c, op ≠ .cacheInsert key c

variable {K : CacheKey → Cached → Prop} {s : BrokerState} {op : BrokerOp}

theorem BrokerState.CacheHas.after (hs : s.CacheHas K)
    (hop : ∀ key c, op = .cacheInsert key c → K key c) :
    (s.after op).CacheHas K := by
  intro key c hc
  rcases cache_after hc with hold | hnew
  · exact hs key c hold
  · exact hop key c hnew

/-- A program that files nothing keeps every invariant of the cache. -/
theorem cacheHas_of_makes {α : Type} {out : Outside} {p : Prog BrokerSig α}
    (hp : p.Makes BrokerOp.FilesNothing) {s' : BrokerState} {tr : List (Event BrokerSig)} {a : α}
    (h : Exec (brokerWorld out) p s tr a s') (hs : s.CacheHas K) : s'.CacheHas K := by
  refine Exec.of_makes ?_ hp h hs
  intro op s1 ans s2 hop hw hhas
  rw [hw.2]
  exact hhas.after fun key c he => absurd he (hop key c)

theorem BrokerOp.Plain.filesNothing (h : op.Plain) : op.FilesNothing := by
  rintro key c rfl
  exact h

namespace Tokens

variable {tokens : Tokens E} {caller : Caller} {audience : String} {now : Int64}

/-! ## 2. What `one` checks -/

/-- What has been checked of a token that was just minted. -/
structure Fresh (tokens : Tokens E) (out : Outside) (caller : Caller) (audience : String)
    (c : Cached) : Prop where
  minted : out.mints (tokens.role caller) audience c.token
  decoded : decodeUnverified tokens.jwt c.token = .ok c.parsed
  subject : c.parsed.claims.sub = caller.spiffeId.asStr
  audience : audience ∈ c.parsed.claims.aud

/-- What is known of a grant: the token has `K`, it was approved by the entry, its key was in the key
    set, the caller's certificate outlives it, and if it is an old one it is not past half-life. -/
structure Granted (K : CacheKey → Cached → Prop) (tokens : Tokens E) (caller : Caller)
    (entry : CatalogIdentity) (now : Int64) (tr : List (Event BrokerSig)) (g : Grant)
    (c : Cached) : Prop where
  cached : K (tokens.role caller, g.audience) c
  same : g = grant g.aliasName g.audience c g.minted
  approved : entry.audience g.audience = some ⟨g.aliasName, g.audience⟩
  key : ⟨.jwksHas c.parsed.header.kid, some true⟩ ∈ tr
  outlived : c.parsed.claims.exp ≤ caller.notAfter
  young : g.minted = false → c.parsed.pastHalfLife now = false

variable {out : Outside} {s s' : BrokerState} {tr : List (Event BrokerSig)}

theorem servable_run {t : Unverified}
    (h : Exec (brokerWorld out) (servable t caller now).run s tr (.ok true) s') :
    t.pastHalfLife now = false ∧ t.claims.exp ≤ caller.notAfter ∧
      ⟨.jwksHas t.header.kid, some true⟩ ∈ tr := by
  unfold servable at h
  split at h
  · cases h
  rename_i hfit
  obtain ⟨hyoung, hexp⟩ := not_or.mp hfit
  obtain ⟨has, _, _, rfl, _, h⟩ := h.op_bind_inv
  split at h
  · exact ⟨by simpa using hyoung, Int64.not_lt.mp hexp, .head _⟩
  · cases h
  · cases h

variable {c : Cached}

theorem fromCache_run
    (h : Exec (brokerWorld out) (tokens.fromCache caller audience now).run s tr (.ok (some c)) s') :
    s.cache (tokens.role caller, audience) = some c ∧ c.parsed.pastHalfLife now = false ∧
      c.parsed.claims.exp ≤ caller.notAfter ∧
      ⟨.jwksHas c.parsed.header.kid, some true⟩ ∈ tr := by
  unfold fromCache at h
  obtain ⟨found, _, _, rfl, ⟨hfound, _⟩, h⟩ := h.op_bind_inv
  split at h
  · cases h
  rename_i c'
  obtain ⟨_, _, good, _, rfl, hserv, h⟩ := h.run_bind_ok
  split at h
  · rename_i hgood
    cases h
    subst hgood
    obtain ⟨hyoung, hexp, hkey⟩ := servable_run hserv
    exact ⟨hfound.symm, hyoung, hexp, .tail _ (List.mem_append_left _ hkey)⟩
  · cases h

theorem mint_run
    (h : Exec (brokerWorld out) (tokens.mint caller audience now).run s tr (.ok c) s') :
    Fresh tokens out caller audience c := by
  unfold mint at h
  obtain ⟨_, _, _, rfl, _, h⟩ := h.op_bind_inv
  obtain ⟨_, _, h⟩ := h.result_bind_ok
  obtain ⟨_, _, _, rfl, _, h⟩ := h.op_bind_inv
  obtain ⟨answer, _, _, rfl, ⟨hmint, _⟩, h⟩ := h.op_bind_inv
  obtain ⟨token, htoken, h⟩ := h.result_bind_ok
  obtain ⟨parsed, hparsed, h⟩ := h.result_bind_ok
  obtain ⟨_, hchecked, h⟩ := h.result_bind_ok
  cases h
  rw [checkMinted, refuseIf_ok, not_or, not_not, not_not] at hchecked
  refine ⟨?_, ?_, hchecked.1, hchecked.2⟩
  · cases answer with
    | error e => cases htoken
    | ok token' =>
      obtain rfl := Except.ok.inj htoken
      exact hmint _ rfl
  cases hd : decodeUnverified tokens.jwt token with
  | error e =>
    rw [hd] at hparsed
    cases hparsed
  | ok parsed' =>
    rw [hd] at hparsed
    exact congrArg Except.ok (Except.ok.inj hparsed)

theorem published_run {kid : String} {u : Unit}
    (h : Exec (brokerWorld out) (tokens.published kid now).run s tr (.ok u) s') :
    (⟨.jwksHas kid, some true⟩ : Event BrokerSig) ∈ tr := by
  unfold published at h
  obtain ⟨has, _, _, rfl, _, h⟩ := h.op_bind_inv
  split at h
  · rename_i htrue
    rw [htrue]
    exact .head _
  refine .tail _ ?_
  obtain ⟨_, _, _, _, rfl, _, h⟩ := h.lift_bind_inv
  refine List.mem_append_right _ ?_
  obtain ⟨again, _, _, rfl, _, h⟩ := h.op_bind_inv
  by_cases htrue : again = some true
  · rw [htrue]
    exact .head _
  · rw [refuseIf, if_pos htrue] at h
    cases h

variable {entry : CatalogIdentity}

theorem approved_eq {approved : Audience} (h : entry.audience audience = some approved) :
    approved = ⟨approved.aliasName, audience⟩ := by
  have haud : approved.audience = audience := by simpa using List.find?_some h
  rw [← haud]

variable {K : CacheKey → Cached → Prop}

/-- **One token.** What has just been checked has `K`, so the cache keeps `K`, and what is granted has
    `K` whether it is new or not. -/
theorem one_run (hK : ∀ c, Fresh tokens out caller audience c → K (tokens.role caller, audience) c)
    {r : Except Refusal Grant}
    (h : Exec (brokerWorld out) (tokens.one caller entry audience now).run s tr r s')
    (hs : s.CacheHas K) :
    s'.CacheHas K ∧ ∀ g, r = .ok g → ∃ c, Granted K tokens caller entry now tr g c := by
  unfold one at h
  split at h
  · cases h
    exact ⟨hs, nofun⟩
  rename_i approved happroved
  have hsame := approved_eq happroved
  rcases h.run_bind_inv with ⟨e, rfl, herr⟩ | ⟨_, tr1, o, s1, rfl, hcache, h⟩
  · exact ⟨cacheHas_of_makes (fromCache_makes nofun fun _ h => h.plain.filesNothing) herr hs, nofun⟩
  have hs1 := cacheHas_of_makes (fromCache_makes nofun fun _ h => h.plain.filesNothing) hcache hs
  cases o with
  | some c =>
    -- from the cache: the invariant says what was checked when it was filed
    cases h
    obtain ⟨hfound, hyoung, hexp, hkey⟩ := fromCache_run hcache
    refine ⟨hs1, ?_⟩
    intro g hg
    obtain rfl := Except.ok.inj hg
    exact ⟨c, hs _ c hfound, rfl, hsame ▸ happroved, List.mem_append_left _ hkey, hexp,
      fun _ => hyoung⟩
  | none =>
    rcases h.run_bind_inv with ⟨e, rfl, herr⟩ | ⟨_, tr2, fresh, s2, rfl, hmint, h⟩
    · exact ⟨cacheHas_of_makes (mint_makes nofun nofun nofun) herr hs1, nofun⟩
    have hs2 := cacheHas_of_makes (mint_makes nofun nofun nofun) hmint hs1
    rcases h.run_bind_inv with ⟨e, rfl, herr⟩ | ⟨_, tr3, _, s3, rfl, hpub, h⟩
    · exact ⟨cacheHas_of_makes (published_makes fun _ h => h.plain.filesNothing) herr hs2, nofun⟩
    have hs3 := cacheHas_of_makes (published_makes fun _ h => h.plain.filesNothing) hpub hs2
    rcases h.result_bind_inv with ⟨e, rfl, rfl, _⟩ | ⟨_, hexp, h⟩
    · exact ⟨hs3, nofun⟩
    have hfresh := hK fresh (mint_run hmint)
    obtain ⟨_, s4, _, rfl, ⟨_, hs4⟩, h⟩ := h.op_bind_inv
    cases h
    rw [refuseIf_ok] at hexp
    refine ⟨?_, ?_⟩
    · rw [hs4]
      refine hs3.after ?_
      intro key c he
      obtain ⟨rfl, rfl⟩ := BrokerOp.cacheInsert.inj he
      exact hfresh
    intro g hg
    obtain rfl := Except.ok.inj hg
    refine ⟨fresh, hfresh, rfl, hsame ▸ happroved, ?_, Int64.not_lt.mp hexp, nofun⟩
    exact List.mem_append_right _ (List.mem_append_right _
      (List.mem_append_left _ (published_run hpub)))

theorem Granted.mono {g : Grant} {tr' : List (Event BrokerSig)}
    (h : Granted K tokens caller entry now tr g c) (htr : ∀ e ∈ tr, e ∈ tr') :
    Granted K tokens caller entry now tr' g c :=
  ⟨h.cached, h.same, h.approved, htr _ h.key, h.outlived, h.young⟩

variable {r : Except Refusal (List Grant)}

/-- **All of them**, by induction on the audiences still to come; `done` is what has been granted. -/
theorem each_run
    (hK : ∀ audience c, Fresh tokens out caller audience c → K (tokens.role caller, audience) c)
    {auds : List Audience} {done : List Grant}
    (h : Exec (brokerWorld out) (tokens.each caller entry now auds done) s tr r s')
    (hs : s.CacheHas K) :
    s'.CacheHas K ∧ ∀ gs, r = .ok gs → ∀ g ∈ gs, g ∈ done ∨
      ∃ c, Granted K tokens caller entry now tr g c := by
  induction auds generalizing s tr done with
  | nil =>
    cases h
    refine ⟨hs, ?_⟩
    intro gs hgs g hg
    obtain rfl := Except.ok.inj hgs
    exact .inl hg
  | cons aud rest ih =>
    unfold each at h
    obtain ⟨tr1, tr2, r1, s1, rfl, hone, h⟩ := h.bind_inv
    obtain ⟨hs1, hgrant⟩ := one_run (hK aud.audience) hone hs
    have hlater : ∀ {done' : List Grant},
        Exec (brokerWorld out) (tokens.each caller entry now rest done') s1 tr2 r s' →
        (∀ g ∈ done', g ∈ done ∨ ∃ c, Granted K tokens caller entry now tr1 g c) →
        s'.CacheHas K ∧ ∀ gs, r = .ok gs → ∀ g ∈ gs, g ∈ done ∨
          ∃ c, Granted K tokens caller entry now (tr1 ++ tr2) g c := by
      intro done' hrest hdone'
      obtain ⟨hs', hgs'⟩ := ih hrest hs1
      refine ⟨hs', ?_⟩
      intro gs hgs g hg
      rcases hgs' gs hgs g hg with hg | ⟨c, hc⟩
      · rcases hdone' g hg with hg | ⟨c, hc⟩
        · exact .inl hg
        · exact .inr ⟨c, hc.mono fun e he => List.mem_append_left _ he⟩
      · exact .inr ⟨c, hc.mono fun e he => List.mem_append_right _ he⟩
    split at h
    · rename_i g
      refine hlater h ?_
      intro g' hg'
      rcases List.mem_append.mp hg' with hg' | hg'
      · exact .inl hg'
      · obtain rfl := List.mem_singleton.mp hg'
        exact .inr (hgrant _ rfl)
    · exact hlater h fun g hg => .inl hg
    · cases h
      exact ⟨hs1, nofun⟩

/-! ## 3. Requests -/

/-- The first call of a request for tokens is a look at the catalog, and it found the entry. -/
theorem entry_run (h : Exec (brokerWorld out) (tokens.entry caller).run s tr (.ok entry) s') :
    ∃ catalog : ValidCatalog, tr = [⟨.catalogCurrent, catalog⟩] ∧
      catalog.catalog.lookup tokens.cfg.cluster caller.ns caller.serviceAccount = some entry := by
  unfold Tokens.entry at h
  obtain ⟨catalog, _, _, rfl, _, h⟩ := h.op_bind_inv
  split at h
  · rename_i identity hfound
    cases h
    exact ⟨catalog, rfl, hfound⟩
  · cases h

/-- Somebody with an entry in a valid catalog. -/
def Listed (tokens : Tokens E) (caller : Caller) : Prop :=
  ∃ (catalog : ValidCatalog) (entry : CatalogIdentity),
    catalog.catalog.lookup tokens.cfg.cluster caller.ns caller.serviceAccount = some entry

/-- What a request says of each of its grants: the entry it looked up first, and `Granted`. -/
def GrantedBy (K : CacheKey → Cached → Prop) (tokens : Tokens E) (caller : Caller) (now : Int64)
    (tr : List (Event BrokerSig)) (g : Grant) : Prop :=
  ∃ (catalog : ValidCatalog) (entry : CatalogIdentity) (c : Cached),
    tr.head? = some ⟨.catalogCurrent, catalog⟩ ∧
    catalog.catalog.lookup tokens.cfg.cluster caller.ns caller.serviceAccount = some entry ∧
    Granted K tokens caller entry now tr g c

/-- A request for tokens, whatever its mode: the entry, and then a program that grants. -/
theorem request_run {α : Type} {f : CatalogIdentity → Fallible BrokerSig Refusal α}
    (granted : α → List Grant) (hf : Listed tokens caller → ∀ entry s tr r s',
      Exec (brokerWorld out) (f entry).run s tr r s' → s.CacheHas K →
      s'.CacheHas K ∧ ∀ a, r = .ok a → ∀ g ∈ granted a,
        ∃ c, Granted K tokens caller entry now tr g c) {r : Except Refusal α}
    (h : Exec (brokerWorld out) (tokens.entry caller >>= f).run s tr r s') (hs : s.CacheHas K) :
    s'.CacheHas K ∧ ∀ a, r = .ok a → ∀ g ∈ granted a, GrantedBy K tokens caller now tr g := by
  rcases h.run_bind_inv with ⟨e, rfl, herr⟩ | ⟨_, tr2, entry, s1, rfl, hentry, hrest⟩
  · exact ⟨cacheHas_of_makes (entry_makes fun _ h => h.plain.filesNothing) herr hs, nofun⟩
  have hs1 := cacheHas_of_makes (entry_makes fun _ h => h.plain.filesNothing) hentry hs
  obtain ⟨catalog, rfl, hfound⟩ := entry_run hentry
  obtain ⟨hs', hgrants⟩ := hf ⟨catalog, entry, hfound⟩ entry s1 tr2 r s' hrest hs1
  refine ⟨hs', ?_⟩
  intro a ha g hg
  obtain ⟨c, hc⟩ := hgrants a ha g hg
  exact ⟨catalog, entry, c, rfl, hfound, hc.mono fun e he => List.mem_append_right _ he⟩

theorem single_run (hK : Listed tokens caller → ∀ c, Fresh tokens out caller audience c →
      K (tokens.role caller, audience) c) {r : Except Refusal Grant}
    (h : Exec (brokerWorld out) (tokens.single caller audience now).run s tr r s')
    (hs : s.CacheHas K) :
    s'.CacheHas K ∧ ∀ g, r = .ok g → GrantedBy K tokens caller now tr g := by
  obtain ⟨hs', hgrants⟩ := request_run (fun g : Grant => [g]) (fun hlisted entry s tr r s' hone hhas => by
    obtain ⟨hs', hg⟩ := one_run (hK hlisted) hone hhas
    refine ⟨hs', ?_⟩
    intro a ha g hg'
    obtain rfl := List.mem_singleton.mp hg'
    exact hg _ ha) h hs
  exact ⟨hs', fun g hg => hgrants g hg g (.head _)⟩

theorem all_run (hK : Listed tokens caller → ∀ audience c, Fresh tokens out caller audience c →
      K (tokens.role caller, audience) c)
    (h : Exec (brokerWorld out) (tokens.all caller now).run s tr r s') (hs : s.CacheHas K) :
    s'.CacheHas K ∧ ∀ gs, r = .ok gs → ∀ g ∈ gs, GrantedBy K tokens caller now tr g := by
  refine request_run id ?_ h hs
  intro hlisted entry s tr r s' heach hhas
  obtain ⟨hs', hg⟩ := each_run (hK hlisted) heach hhas
  refine ⟨hs', ?_⟩
  intro gs hgs g hmem
  rcases hg gs hgs g hmem with hnone | hc
  · cases hnone
  · exact hc

variable {toml : String → Except Error Catalog}

/-- **One request of any kind.** If every freshly checked token has `K` then the cache keeps `K`, and
    every token the request grants has it. -/
theorem serve_granted {call : Call} {answer : Answer}
    (hK : ∀ caller now audience c, call.asks = some (caller, now) → Listed tokens caller →
      Fresh tokens out caller audience c → K (tokens.role caller, audience) c)
    (h : Exec (brokerWorld out) (tokens.serve toml call) s tr answer s') (hs : s.CacheHas K) :
    s'.CacheHas K ∧ ∀ caller now, call.asks = some (caller, now) → ∀ g ∈ answer.grants,
      GrantedBy K tokens caller now tr g := by
  cases call with
  | single caller audience now =>
    obtain ⟨_, _, r, _, rfl, hrun, hend⟩ := h.bind_inv
    cases hend
    obtain ⟨hs', hgrant⟩ := single_run (fun hlisted c => hK caller now audience c rfl hlisted) hrun hs
    refine ⟨hs', ?_⟩
    intro caller' now' hasks g hg
    obtain ⟨rfl, rfl⟩ := Prod.mk.inj (Option.some.inj hasks)
    rw [List.append_nil]
    cases r with
    | error e => cases hg
    | ok g' =>
      obtain rfl := List.mem_singleton.mp hg
      exact hgrant _ rfl
  | all caller now =>
    obtain ⟨_, _, r, _, rfl, hrun, hend⟩ := h.bind_inv
    cases hend
    obtain ⟨hs', hgrants⟩ :=
      all_run (fun hlisted audience c => hK caller now audience c rfl hlisted) hrun hs
    refine ⟨hs', ?_⟩
    intro caller' now' hasks g hg
    obtain ⟨rfl, rfl⟩ := Prod.mk.inj (Option.some.inj hasks)
    rw [List.append_nil]
    cases r with
    | error e => cases hg
    | ok gs => exact hgrants gs rfl g hg
  | sweep now =>
    refine ⟨cacheHas_of_makes ?_ h hs, nofun⟩
    exact .bind (ask_makes nofun) fun _ => trivial
  | refresh =>
    refine ⟨cacheHas_of_makes ?_ h hs, nofun⟩
    exact .bind (JwksSource.refresh_makes fun _ h => h.plain.filesNothing) fun _ => trivial
  | reload =>
    refine ⟨cacheHas_of_makes ?_ h hs, nofun⟩
    exact .bind (CatalogHandle.reload_makes fun _ h => h.plain.filesNothing) fun _ => trivial

/-- **Whole sessions.** A broker starts with an empty cache. -/
theorem session_granted {A : Call → Prop}
    (hK : ∀ call caller now audience c, A call → call.asks = some (caller, now) →
      Listed tokens caller → Fresh tokens out caller audience c → K (tokens.role caller, audience) c)
    {catalog : ValidCatalog} {text : String} {ds : List (Done BrokerSig Call Answer)}
    (h : Session (brokerWorld out) (tokens.serve toml) (.start tokens.cfg catalog text) ds s')
    (hA : ∀ d ∈ ds, A d.call) :
    ∀ d ∈ ds, ∀ caller now, d.call.asks = some (caller, now) → ∀ g ∈ d.answer.grants,
      GrantedBy K tokens caller now d.trace g := by
  refine (Session.all ?_ h hA (I := BrokerState.CacheHas K) nofun).1
  intro call s tr answer s' hcall hs hrun
  exact (serve_granted (fun caller now audience c => hK call caller now audience c hcall) hrun
    hs).symm

/-! ## 4. The theorem -/

/-- The minter's tokens do not expire before they were issued. -/
def Ordered (tokens : Tokens E) (out : Outside) : Prop :=
  ∀ role audience token parsed, out.mints role audience token →
    decodeUnverified tokens.jwt token = .ok parsed → parsed.claims.iat ≤ parsed.claims.exp

/-- A token that is what was kept of it, carries its audience and was issued before it expires. -/
structure Sound (tokens : Tokens E) (key : CacheKey) (c : Cached) : Prop where
  decoded : decodeUnverified tokens.jwt c.token = .ok c.parsed
  audience : key.2 ∈ c.parsed.claims.aud
  ordered : c.parsed.claims.iat ≤ c.parsed.claims.exp

/-- **Every grant is approved, addressed, verifiable, short enough and young enough.** In any session
    of a broker whose minter's tokens do not expire before they were issued. The first call of a
    request is its look at the catalog, and a call `jwksHas` is answered from the key set that is
    loaded. -/
theorem grants_are_approved_and_current (tokens : Tokens E) (toml : String → Except Error Catalog)
    (out : Outside) (hminter : tokens.Ordered out) (catalog : ValidCatalog) (text : String)
    (s' : BrokerState) (ds : List (Done BrokerSig Call Answer))
    (h : Session (brokerWorld out) (tokens.serve toml) (.start tokens.cfg catalog text) ds s') :
    ∀ d ∈ ds, ∀ caller now, d.call.asks = some (caller, now) → ∀ g ∈ d.answer.grants,
      ∃ (catalog : ValidCatalog) (entry : CatalogIdentity) (parsed : Unverified),
        d.trace.head? = some ⟨.catalogCurrent, catalog⟩ ∧
        catalog.catalog.lookup tokens.cfg.cluster caller.ns caller.serviceAccount = some entry ∧
        ⟨g.aliasName, g.audience⟩ ∈ entry.audiences ∧
        decodeUnverified tokens.jwt g.token = .ok parsed ∧
        g.audience ∈ parsed.claims.aud ∧
        ⟨.jwksHas parsed.header.kid, some true⟩ ∈ d.trace ∧
        g.exp = parsed.claims.exp ∧ g.exp ≤ caller.notAfter ∧
        (g.minted = false →
          g.exp.toInt - parsed.claims.iat.toInt < 2 * (g.exp.toInt - now.toInt)) := by
  have hgranted := session_granted (K := Sound tokens) (A := fun _ => True)
    (fun call caller now audience c _ _ _ hfresh => ⟨hfresh.decoded, hfresh.audience,
      hminter _ _ _ _ hfresh.minted hfresh.decoded⟩) h (fun _ _ => trivial)
  intro d hd caller now hasks g hg
  obtain ⟨catalog', entry, c, hhead, hfound, hc⟩ := hgranted d hd caller now hasks g hg
  have htoken : g.token = c.token := by rw [hc.same]; rfl
  have hexp : g.exp = c.parsed.claims.exp := by rw [hc.same]; rfl
  refine ⟨catalog', entry, c.parsed, hhead, hfound, List.mem_of_find?_eq_some hc.approved, ?_,
    hc.cached.audience, hc.key, hexp, ?_, ?_⟩
  · rw [htoken]
    exact hc.cached.decoded
  · rw [hexp]
    exact hc.outlived
  · intro hold
    rw [hexp]
    exact Unverified.more_than_half_left (hc.young hold) hc.cached.ordered

/-! The second answer comes from the cache. -/

theorem podTokens_ordered : podTokens.Ordered podOutside := by
  have hall : (decodeUnverified podTokens.jwt podToken).toOption.all
      (fun t => t.claims.iat ≤ t.claims.exp) = true := by decide
  intro _ _ token parsed hm hd
  rw [show token = podToken from hm] at hd
  rw [hd] at hall
  exact of_decide_eq_true hall

/-- What the second request is granted. -/
def oldGrant : Grant := ⟨"db", "d", podToken, 8, "", false⟩

/-- The pod `p` asks twice. -/
def twice : List Call := [.refresh, .single callerP "d" 1, .all callerP 2]

theorem twice_served : ∃ d ∈ (podSession twice).1,
    d.call.asks = some (callerP, 2) ∧ oldGrant ∈ d.answer.grants := by decide

theorem grants_are_approved_and_current_cached :
    ∃ d ∈ (podSession twice).1, d.call.asks = some (callerP, 2) ∧ oldGrant ∈ d.answer.grants ∧
      ∃ parsed, decodeUnverified podTokens.jwt oldGrant.token = .ok parsed ∧
        "d" ∈ parsed.claims.aud ∧ (8 : Int) - parsed.claims.iat.toInt < 2 * (8 - 2) := by
  obtain ⟨d, hd, hasks, hgrant⟩ := twice_served
  obtain ⟨_, _, parsed, _, _, _, hread, haud, _, _, _, hold⟩ :=
    grants_are_approved_and_current podTokens _ podOutside podTokens_ordered oneCatalog "" _ _
      (playAll_session podMinter_world _ _ _) d hd callerP 2 hasks oldGrant hgrant
  exact ⟨d, hd, hasks, hgrant, parsed, hread, haud, hold rfl⟩

end Tokens

end Svidlet.Broker
