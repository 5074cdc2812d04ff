import Svidlet.Broker.Rounds

/-!
# One mint for half a lifetime

> The cache is keyed by identity and audience, so all replicas of a Deployment in a cluster share
> one token per audience. Vault sees one mint per identity, audience and half-lifetime, not one per
> pod.

A token that was minted is in the cache, and **while it is held nobody mints** (`Holds`, `Passes`):
a request under its key is answered from the cache, a request under another key leaves this one
alone, and a sweep keeps what is young and published. The statement is about the order of calls.
A mint under the key comes after the key set was replaced by one without the token's signing key
(`Spared`), or not at all.

There is one more way out of the cache, and it belongs to the caller. A token that outlives the
caller's certificate is not served to it, and `one` then goes to Vault for another, which outlives
the certificate as well and is refused. So the sentence holds for callers whose certificates outlive
the token; a replica that is about to renew asks Vault with each of its requests, up to its rate.
-/

namespace Svidlet.Broker

open Lib Issue

variable {E : RegexEngine}

/-! ## 1. A token that is held -/

/-- The role and the audience a call has a token minted for. -/
def BrokerOp.mintKey : BrokerOp → Option CacheKey
  | .mint role audience => some (role, audience)
  | _ => none

/-- The call replaces the key set by one without this key. -/
def BrokerOp.drops (kid : String) : BrokerOp → Bool
  | .jwksReplace jwks => kid ∉ jwks
  | _ => false

/-- The token is in the cache, and its signing key is published. -/
structure BrokerState.Holds (key : CacheKey) (c : Cached) (s : BrokerState) : Prop where
  cached : s.cache key = some c
  published : s.has c.parsed.header.kid = some true

/-- A call that has nothing to do with the tokens under the key. -/
def BrokerOp.Spares (key : CacheKey) : BrokerOp → Prop
  | .mint role audience => (role, audience) ≠ key
  | .cacheInsert key' _ => key' ≠ key
  | .cacheSweep _ => False
  | _ => True

variable {key : CacheKey} {op : BrokerOp}

theorem BrokerOp.Quiet.spares (h : op.Quiet) : op.Spares key := by
  cases op <;> trivial

theorem BrokerOp.Spares.mintKey (h : op.Spares key) : op.mintKey ≠ some key := by
  cases op with
  | mint role audience => exact fun heq => h (Option.some.inj heq)
  | _ => exact nofun

variable {s : BrokerState}

theorem BrokerState.cache_spared (h : op.Spares key) : (s.after op).cache key = s.cache key := by
  cases op with
  | cacheInsert key' c => exact Function.update_of_ne (Ne.symm h) _ _
  | cacheSweep now => exact h.elim
  | jwksForce now =>
    simp only [after]
    split
    · rfl
    · rfl
  | _ => rfl

theorem BrokerState.has_after {kid : String} (h : op.drops kid = false)
    (hs : s.has kid = some true) : (s.after op).has kid = some true := by
  cases op with
  | jwksReplace jwks =>
    have hmem : kid ∈ jwks := by simpa [BrokerOp.drops] using h
    simp [after, has, hmem]
  | jwksForce now =>
    simp only [after]
    split
    · exact hs
    · exact hs
  | _ => exact hs

theorem BrokerState.Holds.after {c : Cached} (hs : s.Holds key c) (hop : op.Spares key)
    (hkey : op.drops c.parsed.header.kid = false) :
    (s.after op).Holds key c :=
  ⟨(cache_spared hop).trans hs.cached, has_after hkey hs.published⟩

/-- A sweep keeps a token that is held, until it is half way through its life. -/
theorem BrokerState.Holds.sweep {c : Cached} {now : Int64} (hs : s.Holds key c)
    (hyoung : c.parsed.pastHalfLife now = false) :
    (s.after (.cacheSweep now)).Holds key c := by
  have hkeeps : s.keeps now c = true := by
    simp [keeps, hyoung, hs.published]
  refine ⟨?_, hs.published⟩
  show (s.cache key).filter (s.keeps now) = some c
  rw [hs.cached, Option.filter_some_pos hkeeps]

/-! ## 2. The order of calls -/

/-- At some point the key set was replaced by one without the key. -/
def Lost (kid : String) (tr : List (Event BrokerSig)) : Prop := ∃ ev ∈ tr, ev.op.drops kid = true

/-- No token is minted under the key before the signing key is lost. -/
def Spared (kid : String) (key : CacheKey) (tr : List (Event BrokerSig)) : Prop :=
  ∀ before ev later, tr = before ++ ev :: later → ev.op.mintKey = some key → Lost kid before

/-- What the calls of a program that found the token held have done: it is still held, unless its
    signing key was lost, and nothing was minted before that. -/
structure Passes (key : CacheKey) (c : Cached) (tr : List (Event BrokerSig)) (s' : BrokerState) :
    Prop where
  spared : Spared c.parsed.header.kid key tr
  held : Lost c.parsed.header.kid tr ∨ s'.Holds key c

section

variable {kid : String} {key : CacheKey} {c : Cached} {s s₁ s' : BrokerState}
  {tr tr₁ tr₂ : List (Event BrokerSig)}

theorem Lost.append_left (h : Lost kid tr₁) : Lost kid (tr₁ ++ tr₂) := by
  obtain ⟨ev, hev, hdrops⟩ := h
  exact ⟨ev, List.mem_append_left _ hev, hdrops⟩

theorem Lost.append_right (h : Lost kid tr₂) : Lost kid (tr₁ ++ tr₂) := by
  obtain ⟨ev, hev, hdrops⟩ := h
  exact ⟨ev, List.mem_append_right _ hev, hdrops⟩

theorem Spared.append (h1 : Spared kid key tr₁) (h2 : Lost kid tr₁ ∨ Spared kid key tr₂) :
    Spared kid key (tr₁ ++ tr₂) := by
  intro before ev later heq hmint
  rcases List.append_eq_append_iff.mp heq with ⟨mid, rfl, htr2⟩ | ⟨mid, htr1, hmid⟩
  · -- the mint is among the later calls
    rcases h2 with hlost | h2
    · exact hlost.append_left
    · exact (h2 mid ev later htr2 hmint).append_right
  cases mid with
  | nil =>
    rw [List.append_nil] at htr1
    rcases h2 with hlost | h2
    · exact htr1 ▸ hlost
    · obtain ⟨_, hnone, _⟩ := h2 [] ev later hmid.symm hmint
      cases hnone
  | cons ev' mid =>
    obtain ⟨rfl, _⟩ := List.cons.inj hmid
    exact h1 before ev mid htr1 hmint

theorem Passes.append (h1 : Passes key c tr₁ s₁) (h2 : s₁.Holds key c → Passes key c tr₂ s') :
    Passes key c (tr₁ ++ tr₂) s' := by
  rcases h1.held with hlost | hheld
  · exact ⟨h1.spared.append (.inl hlost), .inl hlost.append_left⟩
  · obtain ⟨hspared, hend⟩ := h2 hheld
    exact ⟨h1.spared.append (.inr hspared), hend.imp Lost.append_right id⟩

theorem Passes.nil (h : s.Holds key c) : Passes key c [] s := by
  refine ⟨?_, .inr h⟩
  intro before ev later heq
  simp at heq

/-- A program that has nothing to do with the key. -/
theorem passes_of_makes {α : Type} {out : Outside} {p : Prog BrokerSig α} {a : α}
    (hp : p.Makes (BrokerOp.Spares key)) (h : Exec (brokerWorld out) p s tr a s')
    (hs : s.Holds key c) : Passes key c tr s' := by
  have htr := h.makes_trace hp
  refine ⟨?_, ?_⟩
  · intro before ev later heq hmint
    exact absurd hmint (htr ev (by simp [heq])).mintKey
  by_cases hlost : Lost c.parsed.header.kid tr
  · exact .inl hlost
  refine .inr (Exec.of_trace (S := BrokerSig) (φ := fun op => BrokerOp.Spares key op ∧
    BrokerOp.drops c.parsed.header.kid op = false) ?_ h ?_ hs)
  · intro op s₁ ans s2 hop hw hheld
    rw [hw.2]
    exact hheld.after hop.1 hop.2
  intro ev hev
  refine ⟨htr ev hev, ?_⟩
  by_contra hdrops
  exact hlost ⟨ev, hev, by simpa using hdrops⟩

end

/-! ## 3. Requests -/

namespace Tokens

variable {tokens : Tokens E} {caller : Caller} {audience : String} {now : Int64} {out : Outside}
  {key : CacheKey} {c : Cached} {s s' : BrokerState} {tr : List (Event BrokerSig)}

variable {entry : CatalogIdentity}

/-- A try under another key. -/
theorem one_spares (hkey : (tokens.role caller, audience) ≠ key) :
    (tokens.one caller entry audience now).run.Makes (BrokerOp.Spares key) :=
  one_makes trivial (fun _ h => h.spares) trivial trivial hkey fun _ => hkey

/-- A token that is held is found. -/
theorem fromCache_held {r : Except Refusal (Option Cached)}
    (hs : s.Holds (tokens.role caller, audience) c) (hyoung : c.parsed.pastHalfLife now = false)
    (hfits : c.parsed.claims.exp ≤ caller.notAfter)
    (h : Exec (brokerWorld out) (tokens.fromCache caller audience now).run s tr r s') :
    r = .ok (some c) := by
  have hgood : ¬ (c.parsed.pastHalfLife now = true ∨ caller.notAfter < c.parsed.claims.exp) := by
    simp only [hyoung, not_or, Int64.not_lt]
    exact ⟨Bool.false_ne_true, hfits⟩
  unfold fromCache servable at h
  obtain ⟨found, s₁, _, _, ⟨hfound, hs1⟩, h⟩ := h.op_bind_inv
  obtain rfl : found = some c := hfound.trans hs.cached
  simp only [if_neg hgood] at h
  rcases h.run_bind_inv with ⟨e, _, herr⟩ | ⟨_, _, good, _, _, hserv, h⟩
  · obtain ⟨has, _, _, _, ⟨hhas, _⟩, herr⟩ := herr.op_bind_inv
    obtain rfl : has = some true := hhas.trans (hs1 ▸ hs.published)
    cases herr
  obtain ⟨has, _, _, _, ⟨hhas, _⟩, hserv⟩ := hserv.op_bind_inv
  obtain rfl : has = some true := hhas.trans (hs1 ▸ hs.published)
  cases hserv
  cases h
  rfl

/-- **One try.** Under the key of a token that is held it is answered from the cache, if the audience
    is approved at all. -/
theorem one_passes {r : Except Refusal Grant} (hs : s.Holds key c)
    (hyoung : c.parsed.pastHalfLife now = false)
    (hfits : (tokens.role caller, audience) = key → (entry.audience audience).isSome = true →
      c.parsed.claims.exp ≤ caller.notAfter)
    (h : Exec (brokerWorld out) (tokens.one caller entry audience now).run s tr r s') :
    Passes key c tr s' := by
  by_cases hkey : (tokens.role caller, audience) = key
  · subst hkey
    unfold one at h
    split at h
    · cases h
      exact .nil hs
    rename_i approved happroved
    have hexp := hfits rfl (by rw [happroved]; rfl)
    have hquiet : (tokens.fromCache caller audience now).run.Makes
        (BrokerOp.Spares (tokens.role caller, audience)) := fromCache_makes trivial fun _ h => h.spares
    rcases h.run_bind_inv with ⟨e, rfl, herr⟩ | ⟨tr₁, tr₂, found, s₁, rfl, hcache, h⟩
    · exact passes_of_makes hquiet herr hs
    obtain rfl := Except.ok.inj (fromCache_held hs hyoung hexp hcache)
    cases h
    rw [List.append_nil]
    exact passes_of_makes hquiet hcache hs
  · exact passes_of_makes (one_spares hkey) h hs

/-- One try after the other, by induction on the audiences still to come. -/
theorem each_passes {auds : List Audience} {done : List Grant} {r : Except Refusal (List Grant)}
    (hs : s.Holds key c) (hyoung : c.parsed.pastHalfLife now = false)
    (hfits : tokens.role caller = key.1 → (entry.audience key.2).isSome = true →
      c.parsed.claims.exp ≤ caller.notAfter)
    (h : Exec (brokerWorld out) (tokens.each caller entry now auds done) s tr r s') :
    Passes key c tr s' := by
  induction auds generalizing s tr done with
  | nil =>
    cases h
    exact .nil hs
  | cons aud rest ih =>
    unfold each at h
    obtain ⟨tr₁, tr₂, outcome, s₁, rfl, hone, h⟩ := h.bind_inv
    have hfirst : Passes key c tr₁ s₁ := by
      refine one_passes hs hyoung ?_ hone
      intro heq happroved
      obtain ⟨hrole, haud⟩ := Prod.mk.inj heq
      exact hfits hrole (by rw [← haud]; exact happroved)
    split at h
    · exact hfirst.append fun hheld => ih hheld h
    · exact hfirst.append fun hheld => ih hheld h
    · cases h
      exact hfirst.append Passes.nil

/-- When a call is made. -/
def Call.time : Call → Option Int64
  | .single _ _ now | .all _ now | .sweep now => some now
  | .refresh | .reload => none

def Call.AsksFor (caller : Caller) (audience : String) : Call → Prop
  | .single caller' audience' _ => caller' = caller ∧ audience' = audience
  | .all caller' _ => caller' = caller
  | .sweep _ | .refresh | .reload => False

/-- The call is a request of this caller for a token under the key, and the catalog approves it. -/
def Call.Wants (tokens : Tokens E) (s : BrokerState) (key : CacheKey) (caller : Caller)
    (call : Call) : Prop :=
  call.AsksFor caller key.2 ∧ tokens.role caller = key.1 ∧
    ∃ entry, s.catalog.catalog.lookup tokens.cfg.cluster caller.ns caller.serviceAccount
      = some entry ∧ (entry.audience key.2).isSome = true

/-- A request for tokens: a look at the catalog, and then a program for the entry. -/
theorem request_passes {α : Type} {f : CatalogIdentity → Fallible BrokerSig Refusal α}
    {r : Except Refusal α} (hs : s.Holds key c)
    (hf : ∀ entry tr, s.catalog.catalog.lookup tokens.cfg.cluster caller.ns caller.serviceAccount
      = some entry → Exec (brokerWorld out) (f entry).run s tr r s' → Passes key c tr s')
    (h : Exec (brokerWorld out) (tokens.entry caller >>= f).run s tr r s') :
    Passes key c tr s' := by
  have hquiet : (tokens.entry caller).run.Makes (BrokerOp.Spares key) :=
    entry_makes fun _ h => h.spares
  rcases h.run_bind_inv with ⟨e, rfl, herr⟩ | ⟨tr₁, tr₂, entry, s₁, rfl, hentry, hrest⟩
  · exact passes_of_makes hquiet herr hs
  cases hlookup : s.catalog.catalog.lookup tokens.cfg.cluster caller.ns caller.serviceAccount with
  | none => exact absurd hentry (entry_missing hlookup)
  | some entry' =>
    obtain ⟨hsame, rfl, -⟩ := entry_found hlookup hentry
    obtain rfl := Except.ok.inj hsame
    exact (passes_of_makes hquiet hentry hs).append fun _ => hf entry tr₂ hlookup hrest

variable {toml : String → Except Error Catalog}

/-- **One request of any kind**, made before the token is half way through its life. -/
theorem serve_passes {call : Call} {answer : Answer} (hs : s.Holds key c)
    (hyoung : ∀ now, call.time = some now → c.parsed.pastHalfLife now = false)
    (hfits : ∀ caller, call.Wants tokens s key caller → c.parsed.claims.exp ≤ caller.notAfter)
    (h : Exec (brokerWorld out) (tokens.serve toml call) s tr answer s') : Passes key c tr s' := by
  cases call with
  | single caller audience now =>
    obtain ⟨tr₁, _, r, _, rfl, hrun, hend⟩ := h.bind_inv
    cases hend
    rw [List.append_nil]
    refine request_passes hs ?_ hrun
    intro entry tr hlookup hone
    refine one_passes hs (hyoung now rfl) ?_ hone
    intro hkey happroved
    subst hkey
    exact hfits caller ⟨⟨rfl, rfl⟩, rfl, entry, hlookup, happroved⟩
  | all caller now =>
    obtain ⟨tr₁, _, r, _, rfl, hrun, hend⟩ := h.bind_inv
    cases hend
    rw [List.append_nil]
    refine request_passes hs ?_ hrun
    intro entry tr hlookup heach
    refine each_passes hs (hyoung now rfl) ?_ heach
    intro hrole happroved
    exact hfits caller ⟨rfl, hrole, entry, hlookup, happroved⟩
  | sweep now =>
    obtain ⟨tr₁, _, _, s₁, rfl, hop, hend⟩ := h.bind_inv
    cases hend
    rw [List.append_nil]
    obtain ⟨rfl, _, hs'⟩ := hop.op_inv
    refine ⟨?_, .inr (hs' ▸ hs.sweep (hyoung now rfl))⟩
    intro before ev later heq hmint
    have hev : ev ∈ [(⟨.cacheSweep now, ()⟩ : Event BrokerSig)] := by rw [heq]; simp
    obtain rfl := List.mem_singleton.mp hev
    cases hmint
  | refresh =>
    refine passes_of_makes ?_ h hs
    exact .bind (JwksSource.refresh_makes fun _ h => h.spares) fun _ => trivial
  | reload =>
    refine passes_of_makes ?_ h hs
    exact .bind (CatalogHandle.reload_makes fun _ h => h.spares) fun _ => trivial

/-! ## 4. A token that was just granted -/

/-- Tries for other audiences leave a cached token where it is. -/
theorem Rounds.cache_kept {rounds : List Round} (h : Rounds tokens out caller entry now s rounds s')
    (hother : ∀ x ∈ rounds, x.audience.audience ≠ audience)
    (hc : s.cache (tokens.role caller, audience) = some c) :
    s'.cache (tokens.role caller, audience) = some c := by
  induction h with
  | nil => exact hc
  | @cons s s₁ s' aud tr outcome rest hone _ ih =>
    obtain ⟨hfirst, hrest⟩ := List.forall_mem_cons.mp hother
    have hkey : (tokens.role caller, aud.audience) ≠ (tokens.role caller, audience) :=
      fun heq => hfirst (Prod.mk.inj heq).2
    refine ih hrest (Exec.of_makes (I := fun s => s.cache (tokens.role caller, audience) = some c)
      ?_ (one_spares hkey) hone hc)
    intro op s2 ans s3 hop hw hc
    rw [hw.2, BrokerState.cache_spared hop]
    exact hc

/-- What is in the cache of a grant that cost a mint. -/
def Filed (tokens : Tokens E) (caller : Caller) (g : Grant) (s : BrokerState) : Prop :=
  ∃ c, s.cache (tokens.role caller, g.audience) = some c ∧ c.token = g.token ∧
    decodeUnverified tokens.jwt c.token = .ok c.parsed

variable {g : Grant}

theorem OneEnds.filed (h : OneEnds tokens caller entry audience s s' tr (.ok g))
    (hminted : g.minted = true) :
    Filed tokens caller g s' := by
  cases h with
  | cached _ _ => cases hminted
  | minted _ hc _ hdecoded => exact ⟨_, hc, rfl, hdecoded⟩

theorem Rounds.filed {rounds : List Round} (h : Rounds tokens out caller entry now s rounds s')
    (hnodup : (rounds.map fun x => x.audience.audience).Nodup) (hg : g ∈ grantsOf rounds)
    (hminted : g.minted = true) : Filed tokens caller g s' := by
  induction h with
  | nil => cases hg
  | @cons s s₁ s' aud tr outcome rest hone hrounds ih =>
    obtain ⟨hnew, hrest⟩ := List.nodup_cons.mp hnodup
    rw [grantsOf_cons] at hg
    rcases List.mem_append.mp hg with hg | hg
    · cases outcome with
      | error e => cases hg
      | ok g' =>
        obtain rfl : g = g' := List.mem_singleton.mp hg
        have hends := one_ends hone
        obtain ⟨c, hc, htoken, hdecoded⟩ := hends.filed hminted
        refine ⟨c, hrounds.cache_kept ?_ hc, htoken, hdecoded⟩
        intro x hx haud
        refine hnew (List.mem_map.mpr ⟨x, hx, ?_⟩)
        rw [haud]
        exact hends.granted.2
    · exact ih hrest hg

/-- Whoever was granted a token that cost a mint leaves it in the cache. -/
theorem serve_filed {call : Call} {answer : Answer} (hasks : call.asks = some (caller, now))
    (hg : g ∈ answer.grants) (hminted : g.minted = true)
    (h : Exec (brokerWorld out) (tokens.serve toml call) s tr answer s') :
    Filed tokens caller g s' := by
  cases call with
  | single caller' audience now' =>
    obtain ⟨rfl, rfl⟩ := Prod.mk.inj (Option.some.inj hasks)
    obtain ⟨_, _, r, _, _, hrun, hend⟩ := h.bind_inv
    cases hend
    cases r with
    | error e => cases hg
    | ok g' =>
      obtain rfl : g = g' := List.mem_singleton.mp hg
      obtain ⟨_, _, entry, s₁, _, _, hone⟩ := hrun.run_bind_ok
      exact (one_ends hone).filed hminted
  | all caller' now' =>
    obtain ⟨rfl, rfl⟩ := Prod.mk.inj (Option.some.inj hasks)
    obtain ⟨_, _, r, _, _, hrun, hend⟩ := h.bind_inv
    cases hend
    cases r with
    | error e => cases hg
    | ok gs =>
      obtain ⟨_, _, entry, s₁, _, hentry, heach⟩ := hrun.run_bind_ok
      obtain ⟨catalog, _, hlookup⟩ := entry_run hentry
      have hnodup := approved_nodup catalog hlookup
      obtain ⟨rounds, hrounds, -, hends⟩ := each_rounds hnodup (fun _ haud => haud) heach
      cases hends with
      | complete hauds _ hgs =>
        rw [List.nil_append] at hgs
        refine hrounds.filed ?_ (hgs ▸ hg) hminted
        have hsame : rounds.map (fun x => x.audience.audience)
            = (rounds.map Round.audience).map Audience.audience := (List.map_map ..).symm
        rw [hsame, hauds]
        exact hnodup
  | sweep now => cases hasks
  | refresh => cases hasks
  | reload => cases hasks

/-! ## 5. The theorem -/

/-- **Whole sessions**, by induction: what one request leaves held, the next one finds held. -/
theorem session_passes {ds : List (Done BrokerSig Call Answer)}
    (h : Session (brokerWorld out) (tokens.serve toml) s ds s') (hs : s.Holds key c)
    (hyoung : ∀ d ∈ ds, ∀ now, d.call.time = some now → c.parsed.pastHalfLife now = false)
    (hfits : ∀ before d later s₁ caller, ds = before ++ d :: later →
      Session (brokerWorld out) (tokens.serve toml) s before s₁ →
      d.call.Wants tokens s₁ key caller → c.parsed.claims.exp ≤ caller.notAfter) :
    Passes key c (ds.flatMap Done.trace) s' := by
  induction h with
  | nil => exact .nil hs
  | @cons s s₁ s' call tr answer ds hrun _ ih =>
    obtain ⟨hfirst, hrest⟩ := List.forall_mem_cons.mp hyoung
    rw [List.flatMap_cons]
    refine (serve_passes hs hfirst (fun caller => hfits [] _ ds s caller rfl .nil) hrun).append ?_
    intro hheld
    refine ih hheld hrest ?_
    intro before d later s2 caller hds hsession
    exact hfits (⟨call, tr, answer⟩ :: before) d later s2 caller (by rw [hds]; rfl)
      (.cons hrun hsession)

/-- **One mint for half a lifetime.** A request was granted a token that cost a mint, and the
    token's signing key is in the key set. In the session that follows, as long as no call is made
    after half of the token's life and everybody who asks for the token has a certificate that
    outlives it, no token is minted for its role and audience before the signing key has left the
    key set. -/
theorem one_mint_per_half_life (tokens : Tokens E) (toml : String → Except Error Catalog)
    (out : Outside) {s s₁ s₂ : BrokerState} {call : Call} {tr : List (Event BrokerSig)}
    {answer : Answer} {caller : Caller} {now : Int64} {g : Grant} {parsed : Unverified}
    {ds : List (Done BrokerSig Call Answer)}
    (hgranting : Exec (brokerWorld out) (tokens.serve toml call) s tr answer s₁)
    (hasks : call.asks = some (caller, now)) (hg : g ∈ answer.grants) (hminted : g.minted = true)
    (hparsed : decodeUnverified tokens.jwt g.token = .ok parsed)
    (hkey : s₁.has parsed.header.kid = some true)
    (h : Session (brokerWorld out) (tokens.serve toml) s₁ ds s₂)
    (hyoung : ∀ d ∈ ds, ∀ now, d.call.time = some now → parsed.pastHalfLife now = false)
    (hfits : ∀ before d later s₃ caller', ds = before ++ d :: later →
      Session (brokerWorld out) (tokens.serve toml) s₁ before s₃ →
      d.call.Wants tokens s₃ (tokens.role caller, g.audience) caller' →
      parsed.claims.exp ≤ caller'.notAfter) :
    Spared parsed.header.kid (tokens.role caller, g.audience) (ds.flatMap Done.trace) := by
  obtain ⟨c, hc, htoken, hdecoded⟩ := serve_filed hasks hg hminted hgranting
  obtain rfl : c.parsed = parsed := by
    rw [htoken] at hdecoded
    exact Except.ok.inj (hdecoded.symm.trans hparsed)
  exact (session_passes h ⟨hc, hkey⟩ hyoung hfits).spared

/-! The pod `p` has a token minted; then both pods ask, and then `p` with an older certificate. -/

/-- What the pod `p` is granted first. -/
def newGrant : Grant := ⟨"db", "d", podToken, 8, "", true⟩

def podParsed : Unverified := ⟨⟨"ES256", "k"⟩, ⟨"spiffe://t/c/n/s/p", ["d"], "", 8, 0, ""⟩⟩

/-- The broker once it has loaded its key set, and what it does with the first request. -/
def loaded : BrokerState := (podSession [.refresh]).2

def firstAsked : List (Event BrokerSig) × Answer × BrokerState :=
  (podTokens.serve (fun _ => .error (.config "not asked")) (.single callerP "d" 1)).play
    podMinter.answer loaded

/-- What it does with the requests after that. -/
def laterAsked (calls : List Call) : List (Done BrokerSig Call Answer) × BrokerState :=
  playAll podMinter.answer (podTokens.serve fun _ => .error (.config "not asked")) calls
    firstAsked.2.2

theorem firstAsked_granted : newGrant ∈ firstAsked.2.1.grants ∧ firstAsked.2.2.has "k" = some true ∧
    (decodeUnverified podTokens.jwt newGrant.token).toOption = some podParsed := by decide +kernel

theorem firstAsked_exec : Exec (brokerWorld podOutside)
    (podTokens.serve (fun _ => .error (.config "not asked")) (.single callerP "d" 1)) loaded
    firstAsked.1 firstAsked.2.1 firstAsked.2.2 := by
  unfold firstAsked
  exact Prog.play_exec podMinter_world _ _

theorem laterAsked_session (calls : List Call) : Session (brokerWorld podOutside)
    (podTokens.serve fun _ => .error (.config "not asked")) firstAsked.2.2 (laterAsked calls).1
    (laterAsked calls).2 := by
  unfold laterAsked
  exact playAll_session podMinter_world _ _ _

/-- Both pods have a certificate that outlives the token. -/
def bothPods : List Call := [.single callerQ "d" 2, .sweep 2, .all callerP 3]

theorem one_mint_per_half_life_shared : newGrant ∈ firstAsked.2.1.grants ∧
    Spared "k" (podTokens.role callerP, "d") ((laterAsked bothPods).1.flatMap Done.trace) := by
  obtain ⟨hgrant, hkey, hparsed⟩ := firstAsked_granted
  have hdecoded : decodeUnverified podTokens.jwt newGrant.token = .ok podParsed := by
    have hok := ok_of_isSome (x := decodeUnverified podTokens.jwt newGrant.token)
      (by rw [hparsed]; rfl)
    rw [Option.get_of_eq_some _ hparsed] at hok
    exact hok
  have hcalls : ∀ d ∈ (laterAsked bothPods).1, d.call ∈ bothPods := by
    intro d hd
    have hmap : (laterAsked bothPods).1.map Done.call = bothPods := playAll_calls
    exact hmap ▸ List.mem_map_of_mem hd
  refine ⟨hgrant, one_mint_per_half_life podTokens _ podOutside firstAsked_exec rfl hgrant rfl
    hdecoded hkey (laterAsked_session bothPods) ?_ ?_⟩
  · intro d hd now htime
    have hall : ∀ call ∈ bothPods, (call.time.all fun now => !podParsed.pastHalfLife now) = true := by
      decide
    have hyoung := hall d.call (hcalls d hd)
    rw [htime] at hyoung
    simpa using hyoung
  intro before d later s₃ caller hds _ hwants
  have hd : d ∈ (laterAsked bothPods).1 := by simp [hds]
  have hall : ∀ call ∈ bothPods, (call.asks.all fun a => podParsed.claims.exp ≤ a.1.notAfter) := by
    decide
  have hfits := hall d.call (hcalls d hd)
  generalize d.call = call at hwants hfits
  cases call with
  | single caller' audience now =>
    obtain ⟨⟨rfl, _⟩, _⟩ := hwants
    simpa [Call.asks] using hfits
  | all caller' now =>
    obtain ⟨rfl, _⟩ := hwants
    simpa [Call.asks] using hfits
  | sweep now => exact hwants.1.elim
  | refresh => exact hwants.1.elim
  | reload => exact hwants.1.elim

/-- The pod `p` with a certificate that expires before the token. -/
def shortP : Caller := { callerP with notAfter := 7, serial := "00" }

def thenShort : List Call := [.single shortP "d" 2]

/-- The token was granted to a caller with the same namespace and ServiceAccount, it is young and its
    key is in the key set, and a mint is made all the same. The answer is a refusal. -/
theorem short_certificate_mints_again : Exec (brokerWorld podOutside)
      (podTokens.serve (fun _ => .error (.config "not asked")) (.single callerP "d" 1)) loaded
      firstAsked.1 firstAsked.2.1 firstAsked.2.2 ∧
    newGrant ∈ firstAsked.2.1.grants ∧ newGrant.minted = true ∧
    firstAsked.2.2.has podParsed.header.kid = some true ∧ podParsed.pastHalfLife 2 = false ∧
    (shortP.ns = callerP.ns ∧ shortP.serviceAccount = callerP.serviceAccount) ∧
    Session (brokerWorld podOutside) (podTokens.serve fun _ => .error (.config "not asked"))
      firstAsked.2.2 (laterAsked thenShort).1 (laterAsked thenShort).2 ∧
    ¬ Spared podParsed.header.kid (podTokens.role callerP, "d")
      ((laterAsked thenShort).1.flatMap Done.trace) ∧
    ∀ d ∈ (laterAsked thenShort).1, d.answer.grants = [] := by
  obtain ⟨hgrant, hkey, _⟩ := firstAsked_granted
  have hplayed : (¬ ∃ ev ∈ (laterAsked thenShort).1.flatMap Done.trace, ev.op.drops "k" = true) ∧
      (∃ ev ∈ (laterAsked thenShort).1.flatMap Done.trace,
        ev.op.mintKey = some (podTokens.role callerP, "d")) ∧
      ∀ d ∈ (laterAsked thenShort).1, d.answer.grants = [] := by decide +kernel
  obtain ⟨hkept, ⟨ev, hev, hmint⟩, hrefused⟩ := hplayed
  refine ⟨firstAsked_exec, hgrant, rfl, hkey, by decide, ⟨rfl, rfl⟩, laterAsked_session thenShort,
    ?_, hrefused⟩
  intro hspared
  obtain ⟨before, later, heq⟩ := List.append_of_mem hev
  obtain ⟨ev', hev', hdrops⟩ := hspared before ev later heq hmint
  exact hkept ⟨ev', by rw [heq]; exact List.mem_append_left _ hev', hdrops⟩

end Tokens

end Svidlet.Broker
