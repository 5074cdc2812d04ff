import Svidlet.Broker.Grants

/-!
# All tokens, or none

A node asks for all tokens of a workload and replaces its directory with the answer. So the answer
must not leave a token out because Vault was slow: **what is left out is what Vault refuses**.

`all` tries one audience after the other. `Rounds` is the record of these tries; `each_rounds` says
that a run of `all` is such a record, that it ends at the first refusal that is not a denial by
Vault, and that without one it covers the whole entry. Whether a refusal is a denial is read off
its rule; `OneEnds.denied` says that the rule `vault` on a denied request comes from a `403` and from
nothing else, through the cache, the rate, the minter and the key set.
-/

namespace Svidlet.Broker

open Lib Issue

variable {E : RegexEngine}

/-! ## 1. Refusals, and where they come from -/

/-- A denied request with the rule `vault` is a `403`. -/
theorem fromVault_denied {e : Error} {m : String} (h : fromVault e = .forbidden "vault" m) :
    ∃ body, e = .backend 403 body ∧ m = "Vault denied: " ++ body := by
  unfold fromVault at h
  split at h
  · rename_i body
    obtain ⟨-, rfl⟩ := Refusal.forbidden.inj h
    exact ⟨body, rfl, rfl⟩
  · cases h
  split at h
  · cases h
  · split at h
    · exact absurd (Refusal.forbidden.inj h).1 (by decide)
    · cases h

namespace Tokens

variable {tokens : Tokens E} {caller : Caller} {audience : String} {now : Int64} {out : Outside}
  {s s' : BrokerState} {tr : List (Event BrokerSig)}

variable {e : Refusal}

theorem servable_refused {t : Unverified}
    (h : Exec (brokerWorld out) (servable t caller now).run s tr (.error e) s') :
    ∃ m, e = .unavailable m := by
  unfold servable at h
  split at h
  · cases h
  obtain ⟨has, _, _, rfl, _, h⟩ := h.op_bind_inv
  split at h
  · cases h
  · cases h
  · cases h
    exact ⟨_, rfl⟩

theorem fromCache_refused
    (h : Exec (brokerWorld out) (tokens.fromCache caller audience now).run s tr (.error e) s') :
    ∃ m, e = .unavailable m := by
  unfold fromCache at h
  obtain ⟨found, _, _, rfl, _, h⟩ := h.op_bind_inv
  split at h
  · cases h
  rcases h.run_bind_inv with ⟨_, he, hserv⟩ | ⟨_, _, good, _, _, _, h⟩
  · obtain rfl := Except.error.inj he
    exact servable_refused hserv
  · split at h
    · cases h
    · cases h

/-- Why a token could not be minted: the rate, Vault, or a token that is not what was asked for. -/
inductive NotMinted (tokens : Tokens E) (caller : Caller) (audience : String)
    (tr : List (Event BrokerSig)) : Refusal → Prop where
  | rate {m : String} : NotMinted tokens caller audience tr (.tooMany "T7" m)
  | vault {e : Error} : ⟨.mint (tokens.role caller) audience, .error e⟩ ∈ tr →
      NotMinted tokens caller audience tr (fromVault e)
  | mismatch {m : String} : NotMinted tokens caller audience tr (.internal m)

theorem mint_refused
    (h : Exec (brokerWorld out) (tokens.mint caller audience now).run s tr (.error e) s') :
    NotMinted tokens caller audience tr e := by
  unfold mint at h
  obtain ⟨fits, _, _, rfl, _, h⟩ := h.op_bind_inv
  rcases h.result_bind_error with hrate | ⟨_, _, h⟩
  · rw [refuseIf_error] at hrate
    rw [← hrate.2]
    exact .rate
  obtain ⟨_, _, _, rfl, _, h⟩ := h.op_bind_inv
  obtain ⟨answer, _, _, rfl, _, h⟩ := h.op_bind_inv
  rcases h.result_bind_error with hvault | ⟨token, _, h⟩
  · cases answer with
    | ok token => cases hvault
    | error e' =>
      obtain rfl := Except.error.inj hvault
      exact .vault (by simp)
  rcases h.result_bind_error with hparse | ⟨parsed, _, h⟩
  · cases hd : decodeUnverified tokens.jwt token with
    | ok parsed =>
      rw [hd] at hparse
      cases hparse
    | error e' =>
      rw [hd] at hparse
      obtain rfl := Except.error.inj hparse
      exact .mismatch
  rcases h.result_bind_error with hchecked | ⟨_, _, h⟩
  · rw [checkMinted, refuseIf_error] at hchecked
    rw [← hchecked.2]
    exact .mismatch
  · cases h

theorem published_refused {kid : String}
    (h : Exec (brokerWorld out) (tokens.published kid now).run s tr (.error e) s') :
    ∃ m, e = .unavailable m := by
  unfold published at h
  obtain ⟨has, _, _, rfl, _, h⟩ := h.op_bind_inv
  split at h
  · cases h
  obtain ⟨_, _, _, _, rfl, _, h⟩ := h.lift_bind_inv
  obtain ⟨again, _, _, rfl, _, h⟩ := h.op_bind_inv
  by_cases htrue : again = some true
  · rw [refuseIf, if_neg (not_not.mpr htrue)] at h
    cases h
  · rw [refuseIf, if_pos htrue] at h
    cases h
    exact ⟨_, rfl⟩

/-- Once a key has been found published, it is in the key set. -/
theorem published_has {kid : String} {u : Unit}
    (h : Exec (brokerWorld out) (tokens.published kid now).run s tr (.ok u) s') :
    s'.has kid = some true := by
  unfold published at h
  obtain ⟨has, s1, _, rfl, ⟨hans, hs1⟩, h⟩ := h.op_bind_inv
  split at h
  · rename_i htrue
    cases h
    rw [hs1]
    exact hans.symm.trans htrue
  obtain ⟨_, _, _, s2, rfl, _, h⟩ := h.lift_bind_inv
  obtain ⟨again, s3, _, rfl, ⟨hans, hs3⟩, h⟩ := h.op_bind_inv
  by_cases htrue : again = some true
  · rw [refuseIf, if_neg (not_not.mpr htrue)] at h
    cases h
    rw [hs3]
    exact hans.symm.trans htrue
  · rw [refuseIf, if_pos htrue] at h
    cases h

/-- What one try can come to. -/
inductive OneEnds (tokens : Tokens E) (caller : Caller) (entry : CatalogIdentity)
    (audience : String) (s s' : BrokerState) (tr : List (Event BrokerSig)) :
    Except Refusal Grant → Prop where
  | unapproved {m : String} : entry.audience audience = none →
      OneEnds tokens caller entry audience s s' tr (.error (.forbidden "T3" m))
  | cached {approved : Audience} {c : Cached} : entry.audience audience = some approved →
      s.cache (tokens.role caller, audience) = some c →
      OneEnds tokens caller entry audience s s' tr (.ok (grant approved.aliasName audience c false))
  | unavailable {m : String} :
      OneEnds tokens caller entry audience s s' tr (.error (.unavailable m))
  | notMinted {e : Refusal} : NotMinted tokens caller audience tr e →
      OneEnds tokens caller entry audience s s' tr (.error e)
  | minted {approved : Audience} {c : Cached} : entry.audience audience = some approved →
      s'.cache (tokens.role caller, audience) = some c →
      s'.has c.parsed.header.kid = some true →
      decodeUnverified tokens.jwt c.token = .ok c.parsed →
      OneEnds tokens caller entry audience s s' tr (.ok (grant approved.aliasName audience c true))

theorem NotMinted.mono {tr' : List (Event BrokerSig)} (h : NotMinted tokens caller audience tr e)
    (htr : ∀ ev ∈ tr, ev ∈ tr') :
    NotMinted tokens caller audience tr' e := by
  cases h with
  | rate => exact .rate
  | vault hmem => exact .vault (htr _ hmem)
  | mismatch => exact .mismatch

variable {entry : CatalogIdentity}

theorem one_ends {r : Except Refusal Grant}
    (h : Exec (brokerWorld out) (tokens.one caller entry audience now).run s tr r s') :
    OneEnds tokens caller entry audience s s' tr r := by
  unfold one at h
  split at h
  · rename_i hnone
    cases h
    exact .unapproved hnone
  rename_i approved happroved
  rcases h.run_bind_inv with ⟨e, rfl, herr⟩ | ⟨tr1, tr2, found, s1, rfl, hcache, h⟩
  · obtain ⟨m, rfl⟩ := fromCache_refused herr
    exact .unavailable
  cases found with
  | some c =>
    cases h
    exact .cached happroved (fromCache_run hcache).1
  | none =>
    rcases h.run_bind_inv with ⟨e, rfl, herr⟩ | ⟨_, tr3, fresh, s2, rfl, hmint, h⟩
    · exact .notMinted ((mint_refused herr).mono fun ev hev => List.mem_append_right _ hev)
    rcases h.run_bind_inv with ⟨e, rfl, herr⟩ | ⟨_, tr4, _, s3, rfl, hpub, h⟩
    · obtain ⟨m, rfl⟩ := published_refused herr
      exact .unavailable
    cases r with
    | error e =>
      rcases h.result_bind_error with hexp | ⟨_, _, h⟩
      · rw [refuseIf_error] at hexp
        rw [← hexp.2]
        exact .unavailable
      · obtain ⟨_, _, _, _, _, h⟩ := h.op_bind_inv
        cases h
    | ok g =>
      obtain ⟨_, _, h⟩ := h.result_bind_ok
      obtain ⟨_, s4, _, _, ⟨_, hs4⟩, h⟩ := h.op_bind_inv
      cases h
      refine .minted happroved ?_ ?_ (mint_run hmint).decoded
      · rw [hs4]
        simp [BrokerState.after]
      · rw [hs4]
        show s3.has _ = _
        exact published_has hpub

/-- A try that was denied in the name of Vault was answered with a `403`. -/
theorem OneEnds.denied {m : String}
    (h : OneEnds tokens caller entry audience s s' tr (.error (.forbidden "vault" m))) :
    ∃ body, m = "Vault denied: " ++ body ∧
      ⟨.mint (tokens.role caller) audience, .error (.backend 403 body)⟩ ∈ tr := by
  generalize hr : (Except.error (Refusal.forbidden "vault" m) : Except Refusal Grant) = r at h
  cases h with
  | unapproved _ => exact absurd (Refusal.forbidden.inj (Except.error.inj hr)).1 (by decide)
  | cached _ _ => cases hr
  | unavailable => cases hr
  | notMinted h =>
    cases h with
    | rate => cases hr
    | vault hmem =>
      obtain ⟨body, rfl, rfl⟩ := fromVault_denied (Except.error.inj hr).symm
      exact ⟨body, rfl, hmem⟩
    | mismatch => cases hr
  | minted _ _ _ _ => cases hr

/-- What is granted is granted under the alias of the entry. -/
theorem OneEnds.granted {g : Grant} (h : OneEnds tokens caller entry audience s s' tr (.ok g)) :
    entry.audience audience = some ⟨g.aliasName, g.audience⟩ ∧ g.audience = audience := by
  cases h with
  | cached happroved _ => exact ⟨approved_eq happroved ▸ happroved, rfl⟩
  | minted happroved _ _ _ => exact ⟨approved_eq happroved ▸ happroved, rfl⟩

/-! ## 2. One try after the other -/

/-- A try: the audience, the calls it made, and what it came to. -/
structure Round where
  audience : Audience
  trace : List (Event BrokerSig)
  outcome : Except Refusal Grant

/-- `Rounds tokens out caller entry now s rounds s'`: from `s`, these tries were made one after the
    other, leaving `s'`. -/
inductive Rounds (tokens : Tokens E) (out : Outside) (caller : Caller) (entry : CatalogIdentity)
    (now : Int64) : BrokerState → List Round → BrokerState → Prop where
  | nil {s : BrokerState} : Rounds tokens out caller entry now s [] s
  | cons {s s₁ s' : BrokerState} {aud : Audience} {tr : List (Event BrokerSig)}
      {outcome : Except Refusal Grant} {rest : List Round} :
      Exec (brokerWorld out) (tokens.one caller entry aud.audience now).run s tr outcome s₁ →
      Rounds tokens out caller entry now s₁ rest s' →
      Rounds tokens out caller entry now s (⟨aud, tr, outcome⟩ :: rest) s'

/-- The try ended with a token for its audience, under the audience's own alias. -/
def Round.Granted (x : Round) : Prop :=
  ∃ g, x.outcome = .ok g ∧ g.aliasName = x.audience.aliasName ∧ g.audience = x.audience.audience

/-- Vault answered the try with a `403`, and that is how it ended. -/
def Round.Denied (tokens : Tokens E) (caller : Caller) (x : Round) : Prop :=
  ∃ body, x.outcome = .error (.forbidden "vault" ("Vault denied: " ++ body)) ∧
    ⟨.mint (tokens.role caller) x.audience.audience, .error (.backend 403 body)⟩ ∈ x.trace

/-- The tokens of the tries that ended with one. -/
def grantsOf (rounds : List Round) : List Grant := rounds.filterMap (·.outcome.toOption)

theorem grantsOf_cons (x : Round) (rest : List Round) :
    grantsOf (x :: rest) = x.outcome.toOption.toList ++ grantsOf rest := by
  unfold grantsOf
  rw [List.filterMap_cons]
  cases x.outcome.toOption <;> rfl

/-- How the tries ended: all were made and none failed but by a denial, or the last one did. -/
inductive RoundsEnd (tokens : Tokens E) (caller : Caller) (auds : List Audience)
    (done : List Grant) (rounds : List Round) : Except Refusal (List Grant) → Prop where
  | complete {gs : List Grant} : rounds.map Round.audience = auds →
      (∀ x ∈ rounds, x.Granted ∨ x.Denied tokens caller) → gs = done ++ grantsOf rounds →
      RoundsEnd tokens caller auds done rounds (.ok gs)
  | stopped (before : List Round) (last : Round) {e : Refusal} : rounds = before ++ [last] →
      rounds.map Round.audience <+: auds →
      (∀ x ∈ before, x.Granted ∨ x.Denied tokens caller) → last.outcome = .error e →
      ¬ last.Denied tokens caller → RoundsEnd tokens caller auds done rounds (.error e)

section

variable {entry : CatalogIdentity}

/-- A try of an audience of the entry is granted under its alias, unless the audience is there
    twice. -/
theorem Round.granted_of_one {aud : Audience} {g : Grant}
    (hnodup : (entry.audiences.map Audience.audience).Nodup) (haud : aud ∈ entry.audiences)
    (h : OneEnds tokens caller entry aud.audience s s' tr (.ok g)) :
    (Round.mk aud tr (.ok g)).Granted := by
  obtain ⟨hfound, haudience⟩ := h.granted
  have hmem := List.mem_of_find?_eq_some hfound
  have hsame : (⟨g.aliasName, g.audience⟩ : Audience) = aud :=
    List.inj_on_of_nodup_map hnodup hmem haud haudience
  refine ⟨g, rfl, ?_, haudience⟩
  show g.aliasName = aud.aliasName
  rw [← hsame]

theorem Round.not_denied_of {aud : Audience} {e : Refusal}
    (h : ∀ m, e ≠ .forbidden "vault" m) : ¬ (Round.mk aud tr (.error e)).Denied tokens caller := by
  intro ⟨body, hbody, _⟩
  exact h _ (Except.error.inj hbody)

/-- One more try in front. -/
theorem RoundsEnd.cons {x : Round} {rest : List Audience} {done : List Grant}
    {rounds : List Round} {r : Except Refusal (List Grant)}
    (hx : x.Granted ∨ x.Denied tokens caller)
    (h : RoundsEnd tokens caller rest (done ++ grantsOf [x]) rounds r) :
    RoundsEnd tokens caller (x.audience :: rest) done (x :: rounds) r := by
  cases h with
  | complete hauds hall hgs =>
    refine .complete (by rw [List.map_cons, hauds]) (List.forall_mem_cons.mpr ⟨hx, hall⟩) ?_
    rw [hgs, grantsOf_cons, grantsOf_cons, List.append_assoc, List.append_assoc]
    rfl
  | stopped before last hrounds hauds hall hlast hdenied =>
    refine .stopped (x :: before) last (by rw [hrounds]; rfl) ?_
      (List.forall_mem_cons.mpr ⟨hx, hall⟩) hlast hdenied
    rw [List.map_cons]
    exact List.cons_prefix_cons.mpr ⟨rfl, hauds⟩

/-- **The loop**, by induction on the audiences still to come. -/
theorem each_rounds {auds : List Audience} {done : List Grant} {r : Except Refusal (List Grant)}
    (hnodup : (entry.audiences.map Audience.audience).Nodup)
    (hauds : ∀ aud ∈ auds, aud ∈ entry.audiences)
    (h : Exec (brokerWorld out) (tokens.each caller entry now auds done) s tr r s') :
    ∃ rounds, Rounds tokens out caller entry now s rounds s' ∧ tr = rounds.flatMap Round.trace ∧
      RoundsEnd tokens caller auds done rounds r := by
  induction auds generalizing s tr done with
  | nil =>
    cases h
    exact ⟨[], .nil, rfl, .complete rfl nofun (by simp [grantsOf])⟩
  | cons aud rest ih =>
    have hrest : ∀ a ∈ rest, a ∈ entry.audiences := fun a ha => hauds a (.tail _ ha)
    unfold each at h
    obtain ⟨tr1, tr2, outcome, s1, rfl, hone, h⟩ := h.bind_inv
    have hends := one_ends hone
    split at h
    · rename_i g
      obtain ⟨rounds, hrounds, rfl, hend⟩ := ih hrest h
      have hgranted := Round.granted_of_one hnodup (hauds aud (.head _)) hends
      exact ⟨_, .cons hone hrounds, rfl, RoundsEnd.cons (.inl hgranted) hend⟩
    · rename_i m
      obtain ⟨rounds, hrounds, rfl, hend⟩ := ih hrest h
      obtain ⟨body, rfl, hmem⟩ := hends.denied
      have hdenied : (Round.mk aud tr1 (.error _)).Denied tokens caller := ⟨body, rfl, hmem⟩
      refine ⟨_, .cons hone hrounds, rfl, RoundsEnd.cons (.inr hdenied) ?_⟩
      -- a denied try adds no token
      rw [show grantsOf [Round.mk aud tr1 (.error _)] = [] from rfl, List.append_nil]
      exact hend
    · rename_i e hother
      cases h
      refine ⟨_, .cons hone .nil, rfl, .stopped [] _ rfl ?_ nofun rfl
        (Round.not_denied_of fun m he => hother m (by rw [he]))⟩
      exact List.cons_prefix_cons.mpr ⟨rfl, List.nil_prefix⟩

end

/-! ## 3. The whole request -/

/-- The audience of the entry a grant is for. -/
def approvedFor (g : Grant) : Audience := ⟨g.aliasName, g.audience⟩

/-- The tokens come in the order of the tries. -/
theorem grantsOf_sublist {rounds : List Round}
    (h : ∀ x ∈ rounds, x.Granted ∨ x.Denied tokens caller) :
    List.Sublist ((grantsOf rounds).map approvedFor) (rounds.map Round.audience) := by
  induction rounds with
  | nil => exact List.Sublist.slnil
  | cons x rest ih =>
    obtain ⟨hx, hrest⟩ := List.forall_mem_cons.mp h
    have hlater := ih hrest
    rcases hx with ⟨g, hg, halias, haud⟩ | ⟨body, hbody, _⟩
    · have happroved : approvedFor g = x.audience := by
        unfold approvedFor
        rw [halias, haud]
      rw [grantsOf_cons, hg, List.map_append, List.map_cons, ← happroved]
      exact hlater.cons_cons _
    · rw [grantsOf_cons, hbody, List.map_cons]
      exact hlater.cons _

theorem entry_found {r : Except Refusal CatalogIdentity}
    (hentry : s.catalog.catalog.lookup tokens.cfg.cluster caller.ns caller.serviceAccount
      = some entry) (h : Exec (brokerWorld out) (tokens.entry caller).run s tr r s') :
    r = .ok entry ∧ s' = s ∧ tr = [⟨.catalogCurrent, s.catalog⟩] := by
  unfold Tokens.entry at h
  obtain ⟨catalog, s1, _, rfl, ⟨hans, hs1⟩, h⟩ := h.op_bind_inv
  obtain rfl : catalog = s.catalog := hans
  rw [hentry] at h
  cases h
  exact ⟨rfl, hs1, rfl⟩

theorem entry_missing {r : CatalogIdentity}
    (hentry : s.catalog.catalog.lookup tokens.cfg.cluster caller.ns caller.serviceAccount = none) :
    ¬ Exec (brokerWorld out) (tokens.entry caller).run s tr (.ok r) s' := by
  intro h
  unfold Tokens.entry at h
  obtain ⟨catalog, _, _, _, ⟨hans, _⟩, h⟩ := h.op_bind_inv
  obtain rfl : catalog = s.catalog := hans
  rw [hentry] at h
  cases h

/-- A valid catalog approves no audience twice. -/
theorem approved_nodup (catalog : ValidCatalog)
    (hentry : catalog.catalog.lookup tokens.cfg.cluster caller.ns caller.serviceAccount
      = some entry) : (entry.audiences.map Audience.audience).Nodup := by
  obtain ⟨hmem, _, _⟩ := Catalog.lookup_names hentry
  obtain ⟨_, hchecked⟩ := catalog.checked hmem
  exact Catalog.checkIdentity_audiences hchecked

/-- **All or nothing.** A request for all tokens of a caller with an entry looks the entry up and makes one
    try for each audience in the order of the entry, and no other calls. It ends well if and only if every audience was tried and
    ended with a token or with a `403` of Vault; then the answer is the tokens, in the entry's
    order, each audience once and under its own alias. Otherwise the answer is the refusal of the
    try it stopped at, and that was not a `403`. -/
theorem all_tokens_or_refusal (tokens : Tokens E) (out : Outside) {caller : Caller} {now : Int64}
    {entry : CatalogIdentity} {s s' : BrokerState} {tr : List (Event BrokerSig)}
    {r : Except Refusal (List Grant)}
    (hentry : s.catalog.catalog.lookup tokens.cfg.cluster caller.ns caller.serviceAccount
      = some entry)
    (h : Exec (brokerWorld out) (tokens.all caller now).run s tr r s') :
    ∃ rounds, Rounds tokens out caller entry now s rounds s' ∧
      tr = ⟨.catalogCurrent, s.catalog⟩ :: rounds.flatMap Round.trace ∧
      rounds.map Round.audience <+: entry.audiences ∧
      (r.isOk = true ↔ rounds.map Round.audience = entry.audiences ∧
        ∀ x ∈ rounds, x.Granted ∨ x.Denied tokens caller) ∧
      (∀ gs, r = .ok gs → gs = grantsOf rounds ∧
        List.Sublist (gs.map approvedFor) entry.audiences ∧ (gs.map Grant.audience).Nodup) ∧
      ∀ e, r = .error e → ∃ x ∈ rounds, x.outcome = .error e ∧ ¬ x.Denied tokens caller := by
  have hnodup := approved_nodup s.catalog hentry
  unfold Tokens.all at h
  rcases h.run_bind_inv with ⟨e, _, herr⟩ | ⟨_, _, entry', s₁, htr, hfound, hloop⟩
  · cases (entry_found hentry herr).1
  obtain ⟨heq, rfl, rfl⟩ := entry_found hentry hfound
  obtain rfl := Except.ok.inj heq
  obtain ⟨rounds, hrounds, rfl, hend⟩ := each_rounds hnodup (fun _ haud => haud) hloop
  refine ⟨rounds, hrounds, htr, ?_⟩
  cases hend with
  | complete hauds hall hgs =>
    refine ⟨hauds ▸ List.prefix_refl _, ⟨fun _ => ⟨hauds, hall⟩, fun _ => rfl⟩, ?_, nofun⟩
    intro gs heq
    obtain rfl := Except.ok.inj heq
    rw [List.nil_append] at hgs
    have hsub : List.Sublist (_ : List Audience) entry'.audiences := hauds ▸ grantsOf_sublist hall
    rw [← hgs] at hsub
    refine ⟨hgs, hsub, ?_⟩
    have hmap := hsub.map Audience.audience
    rw [List.map_map] at hmap
    exact hmap.nodup hnodup
  | stopped before last hlist hauds hall hlast hdenied =>
    have hmem : last ∈ rounds := by simp [hlist]
    refine ⟨hauds, ⟨nofun, ?_⟩, nofun, ?_⟩
    · intro ⟨_, hfine⟩
      rcases hfine last hmem with ⟨g, hg, _⟩ | hlastDenied
      · rw [hlast] at hg
        cases hg
      · exact absurd hlastDenied hdenied
    · intro e heq
      obtain rfl := Except.error.inj heq
      exact ⟨last, hmem, hlast, hdenied⟩

/-! Two audiences, of which Vault denies the first. -/

def twoEntry : CatalogIdentity := ⟨"c", "n", "s", none, true, [⟨"api", "e"⟩, ⟨"db", "d"⟩]⟩

def twoCatalog : ValidCatalog where
  catalog := { oneCatalog.catalog with identity := [twoEntry] }
  valid := by decide +kernel

def denyingMinter : Responses := { podMinter with
    mint := fun _ audience =>
      if audience = "d" then .ok podToken else .error (.backend 403 "permission denied") }

theorem denyingMinter_world (op : BrokerOp) (s : BrokerState) :
    brokerWorld podOutside op s (denyingMinter.answer op s).1 (denyingMinter.answer op s).2 := by
  refine Responses.answer_world rfl ?_ op s
  intro role audience token h
  have hmint : (if audience = "d" then .ok podToken else .error (.backend 403 "permission denied") :
      Except Error String) = .ok token := h
  split at hmint
  · exact (Except.ok.inj hmint).symm
  · cases hmint

/-- A broker with this catalog that has loaded its key set. -/
def twoState : BrokerState := { BrokerState.start podConfig twoCatalog "" with jwks := some ["k"] }

def twoAsked : List (Event BrokerSig) × Except Refusal (List Grant) × BrokerState :=
  (podTokens.all callerP 1).run.play denyingMinter.answer twoState

/-- What is left is granted. -/
theorem twoAsked_granted :
    twoAsked.2.1.toOption = some [⟨"db", "d", podToken, 8, "", true⟩] := by decide +kernel

theorem all_tokens_or_refusal_denied :
    ∃ rounds s', Rounds podTokens podOutside callerP twoEntry 1 twoState rounds s' ∧
      twoAsked.1 = ⟨.catalogCurrent, twoCatalog⟩ :: rounds.flatMap Round.trace ∧
      rounds.map Round.audience = [⟨"api", "e"⟩, ⟨"db", "d"⟩] ∧
      (∀ x ∈ rounds, x.Granted ∨ x.Denied podTokens callerP) ∧
      grantsOf rounds = [⟨"db", "d", podToken, 8, "", true⟩] := by
  have hentry : twoState.catalog.catalog.lookup podTokens.cfg.cluster callerP.ns
      callerP.serviceAccount = some twoEntry := by decide +kernel
  have hrun := ok_of_isSome (x := twoAsked.2.1) (by rw [twoAsked_granted]; rfl)
  have hplayed : Exec (brokerWorld podOutside) (podTokens.all callerP 1).run twoState twoAsked.1
      twoAsked.2.1 twoAsked.2.2 := by
    unfold twoAsked
    exact Prog.play_exec denyingMinter_world _ _
  obtain ⟨rounds, hrounds, htr, _, hiff, hlist, _⟩ :=
    all_tokens_or_refusal podTokens podOutside hentry hplayed
  obtain ⟨hauds, hall⟩ := hiff.mp (by rw [hrun]; rfl)
  obtain ⟨hgs, _, _⟩ := hlist _ hrun
  rw [Option.get_of_eq_some _ twoAsked_granted] at hgs
  exact ⟨rounds, _, hrounds, htr, hauds, hall, hgs.symm⟩

end Tokens

end Svidlet.Broker
