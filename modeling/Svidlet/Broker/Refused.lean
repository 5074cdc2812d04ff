import Svidlet.Broker.Identities
import Svidlet.Broker.Rates
import Svidlet.Broker.Reuse

/-!
# A request that was refused

`sign` checks the rate of a node, then its number of identities, and only then records. A request that is
refused on the way has still been at the limiters: a check of the rate drops old events, and a call for
an identity may start a node's hour over. **Whoever comes later must not notice.**

> The broker with the refused request in its history and the broker without it can serve the same
> requests with the same calls and the same answers.

The two states differ in the queue of one node: in one of them it has lost events of a minute ago and more
(`Forgot`). Every later check looks at less than that, so it answers the same, and what it leaves is
related again; `Session.simulate` does the rest, in both directions. As for the identities, a call is only
refused when the node's hour has begun and its set is full, and then it changes nothing.

It depends on `now - 60` being what it says. The times are those of `unix_now`, which are never negative, so
the subtraction does not wrap; the theorem only asks that `now` is not in the first minute of the range of
`i64`.
-/

namespace Svidlet.Broker

open Lib Issue

/-! ## 1. Two windows -/

/-- The second window has lost events that the first may still have, all of them old. -/
structure RateTrails (cut : Int) (w w' : Window) : Prop where
  limit_eq : w'.limit = w.limit
  window_eq : w'.window = w.window
  trails : ∀ key, Trails cut (w.times key) (w'.times key)

namespace RateTrails

variable {cut : Int} {w w' : Window} {key : String} {now : Int64}

theorem refl (cut : Int) (w : Window) : RateTrails cut w w := ⟨rfl, rfl, fun _ => Trails.refl _ _⟩

theorem cut_eq (h : RateTrails cut w w') (now : Int64) : w'.cut now = w.cut now := by
  rw [Window.cut, Window.cut, h.window_eq]

/-- A check of the first alone. -/
theorem of_check (hcut : w.cut now = cut) : RateTrails cut w (w.check key now).2 := by
  refine ⟨Window.check_limit w key now, Window.check_window w key now, fun key' => ?_⟩
  by_cases hpos : w.limit = 0
  · rw [Window.check, if_pos hpos]
    exact Trails.refl _ _
  rw [Window.times_check hpos]
  by_cases hkey : key' = key
  · subst hkey
    rw [Function.update_self, hcut]
    exact (Trails.refl _ _).expire
  · rw [Function.update_of_ne hkey]
    exact Trails.refl _ _

theorem check_fst (h : RateTrails cut w w') (hle : cut ≤ w.cut now) :
    (w'.check key now).1 = (w.check key now).1 := by
  by_cases hpos : w.limit = 0
  · rw [Window.check, Window.check, if_pos hpos, if_pos (h.limit_eq.trans hpos)]
  · rw [Window.check_fst hpos, Window.check_fst (by rwa [h.limit_eq]), h.cut_eq,
      (h.trails key).dropWhile_eq hle, h.limit_eq]

theorem check (h : RateTrails cut w w') (hle : cut ≤ w.cut now) :
    RateTrails cut (w.check key now).2 (w'.check key now).2 := by
  refine ⟨by simp [h.limit_eq], by simp [h.window_eq], fun key' => ?_⟩
  by_cases hpos : w.limit = 0
  · rw [Window.check, Window.check, if_pos hpos, if_pos (h.limit_eq.trans hpos)]
    exact h.trails key'
  rw [Window.times_check hpos, Window.times_check (by rwa [h.limit_eq]), h.cut_eq,
    (h.trails key).dropWhile_eq hle]
  by_cases hkey : key' = key
  · rw [hkey, Function.update_self, Function.update_self]
    exact Trails.refl _ _
  · rw [Function.update_of_ne hkey, Function.update_of_ne hkey]
    exact h.trails key'

theorem record (h : RateTrails cut w w') : RateTrails cut (w.record key now) (w'.record key now) := by
  refine ⟨by simp [h.limit_eq], by simp [h.window_eq], fun key' => ?_⟩
  by_cases hpos : w.limit = 0
  · rw [Window.record, Window.record, if_pos hpos, if_pos (h.limit_eq.trans hpos)]
    exact h.trails key'
  rw [Window.times_record hpos, Window.times_record (by rwa [h.limit_eq])]
  by_cases hkey : key' = key
  · rw [hkey, Function.update_self, Function.update_self]
    exact (h.trails key).push _
  · rw [Function.update_of_ne hkey, Function.update_of_ne hkey]
    exact h.trails key'

/-- A sweep looks at the last event, which both have unless it is old. -/
theorem sweep (h : RateTrails cut w w') (hle : cut ≤ w.cut now) :
    RateTrails cut (w.sweep now) (w'.sweep now) := by
  refine ⟨h.limit_eq, h.window_eq, fun key => ?_⟩
  rw [Window.times_sweep, Window.times_sweep, h.cut_eq, (h.trails key).getLast_any hle]
  split
  · exact h.trails key
  · exact Trails.refl _ _

end RateTrails

/-! ## 2. Two brokers -/

/-- A broker whose API server may say something else each time. -/
def openWorld : World BrokerSig BrokerState :=
  fun op s ans s' => (∃ out, s.Answers out op ans) ∧ s' = s.after op

/-- The second broker is the first, except that its rate limiter has lost events which were a minute old
    at `now`, and that it may have asked the API server more often. -/
def Forgot (now : Int64) (s t : BrokerState) : Prop :=
  ∃ rate asked, t = { s with nodeRate := rate, asked := asked } ∧ s.nodeRate.window = 60 ∧
    RateTrails (now.toInt - 60) s.nodeRate rate

/-- The rate of nodes is not checked or swept for an earlier time. -/
def BrokerOp.RatesFrom (now : Int64) : BrokerOp → Prop
  | .nodeRateCheck _ t | .nodeRateSweep t => now.toInt ≤ t.toInt
  | _ => True

section

variable {now : Int64} {s t s' t' : BrokerState} {op : BrokerOp} {ans : op.Ans}

theorem cut_from (hnow : -2 ^ 63 + 60 ≤ now.toInt) {w : Window} (hwindow : w.window = 60) {u : Int64}
    (hu : now.toInt ≤ u.toInt) : now.toInt - 60 ≤ w.cut u := by
  rw [Window.cut_minute hwindow (Int.le_trans hnow hu)]
  exact Int.sub_le_sub_right hu 60

/-- Each is answered what the other is. -/
theorem Forgot.answers_iff (hnow : -2 ^ 63 + 60 ≤ now.toInt) (h : Forgot now s t)
    (hop : op.RatesFrom now) : (∃ out, s.Answers out op ans) ↔ ∃ out, t.Answers out op ans := by
  obtain ⟨rate, asked, rfl, hwindow, hrate⟩ := h
  cases op with
  | tokenReview token audience =>
    -- an API server that says this and nothing else
    have hany : ∀ s₁ : BrokerState, ∃ out, s₁.Answers out (.tokenReview token audience) ans := fun _ =>
      ⟨⟨fun _ => ⟨fun _ _ => ans, fun _ _ => .ok none⟩, fun _ _ _ => True⟩, rfl⟩
    exact ⟨fun _ => hany _, fun _ => hany _⟩
  | pod ns name =>
    have hany : ∀ s₁ : BrokerState, ∃ out, s₁.Answers out (.pod ns name) ans := fun _ =>
      ⟨⟨fun _ => ⟨fun _ _ => .ok none, fun _ _ => ans⟩, fun _ _ _ => True⟩, rfl⟩
    exact ⟨fun _ => hany _, fun _ => hany _⟩
  | nodeRateCheck node u =>
    simp only [BrokerState.Answers, hrate.check_fst (cut_from hnow hwindow hop)]
  | _ => exact Iff.rfl

theorem Forgot.after (hnow : -2 ^ 63 + 60 ≤ now.toInt) (h : Forgot now s t)
    (hop : op.RatesFrom now) : Forgot now (s.after op) (t.after op) := by
  obtain ⟨rate, asked, rfl, hwindow, hrate⟩ := h
  cases op with
  | nodeRateCheck node u =>
    exact ⟨(rate.check node u).2, asked, rfl, (Window.check_window _ _ _).trans hwindow,
      hrate.check (cut_from hnow hwindow hop)⟩
  | nodeRateRecord node u =>
    exact ⟨rate.record node u, asked, rfl, (Window.record_window _ _ _).trans hwindow, hrate.record⟩
  | nodeRateSweep u =>
    exact ⟨rate.sweep u, asked, rfl, hwindow, hrate.sweep (cut_from hnow hwindow hop)⟩
  | jwksForce u =>
    by_cases hforce : s.mayForce u = true
    · refine ⟨rate, asked, ?_, ?_, ?_⟩
      all_goals simp_all [BrokerState.after, BrokerState.mayForce]
    · refine ⟨rate, asked, ?_, ?_, ?_⟩
      all_goals simp_all [BrokerState.after, BrokerState.mayForce]
  | tokenReview token audience => exact ⟨rate, asked + 1, rfl, hwindow, hrate⟩
  | pod ns name => exact ⟨rate, asked + 1, rfl, hwindow, hrate⟩
  | _ => exact ⟨rate, asked, rfl, hwindow, hrate⟩

/-- What one of them can do the other can, and they stay as alike as they were. -/
theorem Forgot.step (hnow : -2 ^ 63 + 60 ≤ now.toInt) (h : Forgot now s t) (hop : op.RatesFrom now)
    (hw : openWorld op s ans s') : ∃ t', openWorld op t ans t' ∧ Forgot now s' t' := by
  obtain ⟨hans, rfl⟩ := hw
  exact ⟨t.after op, ⟨(h.answers_iff hnow hop).mp hans, rfl⟩, h.after hnow hop⟩

theorem Forgot.step_back (hnow : -2 ^ 63 + 60 ≤ now.toInt) (h : Forgot now s t)
    (hop : op.RatesFrom now) (hw : openWorld op t ans t') :
    ∃ s', openWorld op s ans s' ∧ Forgot now s' t' := by
  obtain ⟨hans, rfl⟩ := hw
  exact ⟨s.after op, ⟨(h.answers_iff hnow hop).mpr hans, rfl⟩, h.after hnow hop⟩

end

/-! ## 3. What a refused request does -/

def BrokerOp.Signs : BrokerOp → Prop
  | .issuerSign _ => True
  | _ => False

instance (op : BrokerOp) : Decidable op.Signs :=
  match op with
  | .issuerSign _ => isTrue trivial
  | .tokenReview _ _ | .pod _ _ | .catalogCurrent | .nodeRateCheck _ _ | .nodeRateRecord _ _
  | .nodeIdentitiesAllow _ _ _ | .nodeRateSweep _ | .nodeIdentitiesSweep _ | .cacheGet _
  | .cacheInsert _ _ | .cacheSweep _ | .mintRateCheck _ _ | .mintRateRecord _ _ | .mint _ _
  | .jwksHas _ | .jwksForce _ | .jwksFetch | .jwksReplace _ | .catalogFile | .catalogText
  | .catalogReplace _ _ => isFalse id

/-- A broker that is cut off from the issuer. -/
def unsigned : World BrokerSig BrokerState :=
  fun op s ans s' => openWorld op s ans s' ∧ ¬ op.Signs

/-- A call that is refused leaves the limiter as it is: the node's hour has begun, and its set is
    full. -/
theorem Distinct.allow_refused {d : Distinct} {node identity : String} {now : Int64}
    (h : (d.allow node identity now).1 = false) : (d.allow node identity now).2 = d := by
  by_cases hlimit : d.limit = 0
  · rw [Distinct.allow, if_pos hlimit] at h
    cases h
  rw [d.allow_eq node identity now hlimit] at h ⊢
  cases hentry : d.entry node now with
  | mk start set =>
    simp only [hentry] at h ⊢
    by_cases hknown : identity ∈ set
    · simp [hknown] at h
    by_cases hfull : d.limit ≤ set.length % 2 ^ 32
    · simp only [if_neg hknown, if_pos hfull]
      rcases d.entry_cases node now with ⟨hnew, _⟩ | hseen
      · -- a new set has room
        rw [hentry] at hnew
        cases hnew
        exact absurd (Nat.le_zero.mp hfull) hlimit
      · rw [hentry] at hseen
        rw [Distinct.put, ← hseen, Function.update_eq_self]
    · rw [if_neg hknown, if_neg hfull] at h
      cases h

section

variable {E : RegexEngine} {α β : Type} {s s₁ : BrokerState}

/-- Only the API server has been asked. -/
def Asked (s s' : BrokerState) : Prop := ∃ asked, s' = { s with asked := asked }

theorem Asked.refl (s : BrokerState) : Asked s s := ⟨s.asked, rfl⟩

/-- The state is as it was, or the rate of a node has been checked. -/
def Checked (now : Int64) (s s' : BrokerState) : Prop := ∃ asked, s' = { s with asked := asked } ∨
    ∃ node, s' = { s with nodeRate := (s.nodeRate.check node now).2, asked := asked }

theorem Asked.checked {s' : BrokerState} (h : Asked s s') (now : Int64) : Checked now s s' := by
  obtain ⟨asked, rfl⟩ := h
  exact ⟨asked, .inl rfl⟩

/-- A part of the path that only asks, and then the rest. -/
theorem asks_bind {x : Fallible BrokerSig Refusal α} {f : α → Fallible BrokerSig Refusal β}
    {now : Int64} (hx : x.run.Makes BrokerOp.Question) (hs : Asked s s₁)
    (hf : ∀ a s2, Asked s s2 → wp unsigned (fun _ s' => Checked now s s') (f a).run s2) :
    wp unsigned (fun _ s' => Checked now s s') (x >>= f).run s₁ := by
  rw [wp_run_bind, wp_iff_exec]
  intro tr r s2 hrun
  have hasked : Asked s s2 := by
    refine Exec.of_makes (I := Asked s) ?_ hx hrun hs
    intro op a ans b hop hw ha
    obtain ⟨asked, rfl⟩ := ha
    obtain ⟨⟨_, rfl⟩, _⟩ := hw
    cases op with
    | tokenReview token audience => exact ⟨asked + 1, rfl⟩
    | pod ns name => exact ⟨asked + 1, rfl⟩
    | catalogCurrent => exact ⟨asked, rfl⟩
    | _ => exact hop.elim
  cases r with
  | error e => exact hasked.checked now
  | ok a => exact hf a s2 hasked

/-- **A request that does not come to the issuer** checks the rate of a node and changes nothing else. -/
theorem sign_checked (signer : Signer E) (nodeToken : String) (body : SignBody) (now : Int64)
    (s : BrokerState) :
    wp unsigned (fun _ s' => Checked now s s') (signer.sign nodeToken body now).run s := by
  unfold Signer.sign
  refine asks_bind (attestNode_makes fun _ h => h) (.refl s) fun node s₁ h1 => ?_
  refine asks_bind (attestPod_makes fun _ h => h) h1 fun pod s2 h2 => ?_
  refine asks_bind trivial h2 fun _ s3 h3 => ?_
  refine asks_bind (admitPod_makes fun _ h => h) h3 fun _ s4 h4 => ?_
  refine asks_bind trivial h4 fun id s5 h5 => ?_
  obtain ⟨asked, rfl⟩ := h5
  rw [wp_run_bind, wp_iff_exec]
  intro tr r s6 hspend
  unfold Signer.spend at hspend
  obtain ⟨fits, s7, _, _, ⟨⟨⟨_, hfits⟩, rfl⟩, _⟩, hspend⟩ := hspend.op_bind_inv
  cases fits with
  | false =>
    -- over the rate
    cases hspend
    exact ⟨asked, .inr ⟨node, rfl⟩⟩
  | true =>
    obtain ⟨fits, s8, _, _, ⟨⟨⟨_, hallowed⟩, rfl⟩, _⟩, hspend⟩ := hspend.op_bind_inv
    cases fits with
    | false =>
      -- too many identities
      cases hspend
      have hsame := Distinct.allow_refused hallowed.symm
      refine ⟨asked, .inr ⟨node, ?_⟩⟩
      simp only [BrokerState.after] at hsame ⊢
      rw [hsame]
    | true =>
      cases r with
      | error e =>
        cases hspend with
        | call hw hk => cases hk
      | ok u =>
        -- the issuer is next
        intro answer s9 hw
        exact absurd trivial hw.2

theorem Checked.forgot {now : Int64} {s' : BrokerState} (h : Checked now s s')
    (hnow : -2 ^ 63 + 60 ≤ now.toInt) (hwindow : s.nodeRate.window = 60) : Forgot now s s' := by
  obtain ⟨asked, rfl | ⟨node, rfl⟩⟩ := h
  · exact ⟨s.nodeRate, asked, rfl, hwindow, RateTrails.refl _ _⟩
  · exact ⟨_, asked, rfl, hwindow, RateTrails.of_check (Window.cut_minute hwindow hnow)⟩

end

/-! ## 4. Histories -/

/-- What the broker is asked to do: certificates, the housekeeping of their limits, and everything on
    the token side. -/
inductive BrokerCall where
  | sign (nodeToken : String) (body : SignBody) (now : Int64)
  | sweep (now : Int64)
  | token (call : Tokens.Call)

inductive BrokerAnswer where
  | signed (r : Except Refusal Signed)
  | swept
  | token (answer : Tokens.Answer)

/-- When a certificate was asked for, or the limits were swept. -/
def BrokerCall.time : BrokerCall → Option Int64
  | .sign _ _ now | .sweep now => some now
  | .token _ => none

section

variable {E : RegexEngine}

def serveCall (signer : Signer E) (tokens : Tokens E) (toml : String → Except Error Catalog) :
    BrokerCall → Prog BrokerSig BrokerAnswer
  | .sign nodeToken body now => do return .signed (← (signer.sign nodeToken body now).run)
  | .sweep now => do
    Signer.sweep now
    return .swept
  | .token call => do return .token (← tokens.serve toml call)

theorem ratesFrom_plain {op : BrokerOp} (h : op.Plain) (now : Int64) : op.RatesFrom now := by
  cases op <;> trivial

theorem tokensServe_makes (tokens : Tokens E) (toml : String → Except Error Catalog)
    (call : Tokens.Call) (now : Int64) :
    (tokens.serve toml call).Makes (BrokerOp.RatesFrom now) := by
  have hquiet : ∀ op : BrokerOp, op.Quiet → op.RatesFrom now := fun op h => ratesFrom_plain h.plain now
  have hone : ∀ caller entry audience t,
      (tokens.one caller entry audience t).run.Makes (BrokerOp.RatesFrom now) := fun _ _ _ _ =>
    Tokens.one_makes trivial hquiet trivial trivial trivial fun _ => trivial
  cases call with
  | single caller audience t =>
    refine .bind (.run_bind (Tokens.entry_makes hquiet) fun entry => ?_) fun _ => trivial
    exact hone _ _ _ _
  | all caller t =>
    refine .bind (.run_bind (Tokens.entry_makes hquiet) fun entry => ?_) fun _ => trivial
    have heach : ∀ list out, (tokens.each caller entry t list out).Makes (BrokerOp.RatesFrom now) := by
      intro list
      induction list with
      | nil => exact fun _ => trivial
      | cons aud rest ih =>
        intro out
        refine .bind (hone _ _ _ _) fun r => ?_
        split
        · exact ih _
        · exact ih _
        · trivial
    exact heach entry.audiences []
  | sweep t => exact .bind (ask_makes trivial) fun _ => trivial
  | refresh => exact .bind (JwksSource.refresh_makes hquiet) fun _ => trivial
  | reload => exact .bind (CatalogHandle.reload_makes hquiet) fun _ => trivial

/-- All checks of a signing request are made at the time the request was given. -/
theorem sign_makes {E : RegexEngine} {φ : BrokerOp → Prop} (hφ : ∀ op : BrokerOp, op.Plain → φ op)
    {signer : Signer E} {nodeToken : String} {body : SignBody} {now : Int64}
    (hcheck : ∀ node, φ (.nodeRateCheck node now)) (hrecord : ∀ node, φ (.nodeRateRecord node now)) :
    (signer.sign nodeToken body now).run.Makes φ := by
  have hask : ∀ op : BrokerOp, op.Question → φ op := fun op h => hφ op h.plain
  unfold Signer.sign Signer.spend
  refine .run_bind (attestNode_makes hask) fun node => ?_
  refine .run_bind (attestPod_makes hask) fun pod => ?_
  refine .result_bind fun _ => ?_
  refine .run_bind (admitPod_makes hask) fun _ => ?_
  refine .result_bind fun id => ?_
  refine .run_bind ?_ fun _ => ?_
  · refine .lift_bind (ask_makes (hcheck node)) fun fits => ?_
    refine .result_bind fun _ => ?_
    refine .lift_bind (ask_makes (hφ _ trivial)) fun fits => ?_
    refine .result_bind fun _ => ?_
    exact .bind (ask_makes (hrecord node)) fun _ => trivial
  · refine .lift_bind (ask_makes (hφ _ trivial)) fun answer => ?_
    exact .result_bind fun bundle => trivial

/-- A call uses the rate of nodes only for its own time. -/
theorem serveCall_makes (signer : Signer E) (tokens : Tokens E)
    (toml : String → Except Error Catalog) {call : BrokerCall} {now : Int64}
    (h : ∀ t ∈ call.time, now.toInt ≤ t.toInt) :
    (serveCall signer tokens toml call).Makes (BrokerOp.RatesFrom now) := by
  cases call with
  | sign nodeToken body t =>
    have ht : now.toInt ≤ t.toInt := h t rfl
    refine .bind (sign_makes ?_ (fun _ => ht) fun _ => trivial) fun _ => trivial
    exact fun op hop => ratesFrom_plain hop now
  | sweep t =>
    have ht : now.toInt ≤ t.toInt := h t rfl
    exact .bind (.bind (ask_makes ht) fun _ => ask_makes trivial) fun _ => trivial
  | token call => exact .bind (tokensServe_makes tokens toml call now) fun _ => trivial

theorem BrokerState.after_window (s : BrokerState) (op : BrokerOp) :
    (s.after op).nodeRate.window = s.nodeRate.window := by
  cases op with
  | nodeRateCheck node now => exact Window.check_window _ _ _
  | nodeRateRecord node now => exact Window.record_window _ _ _
  | jwksForce now =>
    simp only [BrokerState.after]
    split <;> rfl
  | _ => rfl

theorem session_window {prog : BrokerCall → Prog BrokerSig BrokerAnswer} {s s' : BrokerState}
    {ds : List (Done BrokerSig BrokerCall BrokerAnswer)} (h : Session openWorld prog s ds s')
    (hs : s.nodeRate.window = 60) : s'.nodeRate.window = 60 := by
  refine (Session.all (I := fun s => s.nodeRate.window = 60) (A := fun _ => True) (P := fun _ => True)
    ?_ h (fun _ _ => trivial) hs).2
  intro c s tr b s' _ hs hrun
  refine ⟨trivial, ?_⟩
  refine Exec.of_trace (S := BrokerSig) (φ := fun _ => True) (I := fun s => s.nodeRate.window = 60)
    ?_ hrun (fun _ _ => trivial) hs
  intro op a ans b _ hw ha
  rw [hw.2, BrokerState.after_window]
  exact ha

/-- **A refused request is not noticed.** After any history, and a request that is refused before the
    issuer is called, whatever can be served from then on, with whatever answers of the API server, the
    catalog and the issuer, can be served without the refused request, and the other way round. -/
theorem refused_request_is_not_noticed (signer : Signer E) (tokens : Tokens E)
    (toml : String → Except Error Catalog) (cfg : Config) (catalog : ValidCatalog) (text : String)
    (before later : List (Done BrokerSig BrokerCall BrokerAnswer)) (s s₁ : BrokerState)
    (nodeToken : String) (body : SignBody) (now : Int64) (tr : List (Event BrokerSig))
    (refusal : Refusal)
    (hbefore : Session openWorld (serveCall signer tokens toml) (.start cfg catalog text) before s)
    (hrefused : Exec openWorld (signer.sign nodeToken body now).run s tr (.error refusal) s₁)
    (hunsigned : ∀ e ∈ tr, ¬ e.op.Signs) (hnow : -2 ^ 63 + 60 ≤ now.toInt)
    (hlater : ∀ d ∈ later, ∀ t ∈ d.call.time, now.toInt ≤ t.toInt) :
    (∃ s₂, Session openWorld (serveCall signer tokens toml) s₁ later s₂) ↔
      ∃ s₂, Session openWorld (serveCall signer tokens toml) s later s₂ := by
  have hchecked : Checked now s s₁ :=
    (hrefused.restrict hunsigned).post (sign_checked signer nodeToken body now s)
  have hforgot := hchecked.forgot hnow (session_window hbefore rfl)
  have hmakes : ∀ d ∈ later, (serveCall signer tokens toml d.call).Makes (BrokerOp.RatesFrom now) :=
    fun d hd => serveCall_makes signer tokens toml (hlater d hd)
  constructor
  · intro ⟨s₂, h⟩
    obtain ⟨s₃, h', _⟩ := Session.simulate (W := openWorld) (R := fun t s => Forgot now s t)
      (fun op t s ans t' hop hR hw => hR.step_back hnow hop hw) hmakes h hforgot
    exact ⟨s₃, h'⟩
  · intro ⟨s₂, h⟩
    obtain ⟨s₃, h', _⟩ := Session.simulate (W := openWorld) (R := Forgot now)
      (fun op s t ans s' hop hR hw => hR.step hnow hop hw) hmakes h hforgot
    exact ⟨s₃, h'⟩

end

/-! ## 5. Two pods of a node -/

def otherPod : Pod := { workloadPod with name := "q", uid := "3" }

def pairKube : Kube where
  tokenReview token audience :=
    if token = "other token" then .ok (some ⟨"system:serviceaccount:n:s", some "q", some "3", none⟩)
    else oneKube.tokenReview token audience
  pod ns name := .ok ([nodePod, workloadPod, otherPod].find? fun pod => pod.ns = ns ∧ pod.name = name)

def pairIssuer : Responses := { oneIssuer with kube := fun _ => pairKube }

/-- One identity an hour. -/
def pairConfig (rate : Nat) : Config :=
  { podConfig with nodeRatePerMinute := rate, nodeIdentitiesPerHour := 1 }

def pairServe (rate : Nat) : BrokerCall → Prog BrokerSig BrokerAnswer :=
  serveCall ⟨pairConfig rate, podPolicy, oneSigner.csr⟩ podTokens fun _ => .error (.config "not asked")

theorem pairIssuer_world (op : BrokerOp) (s : BrokerState) :
    openWorld op s (pairIssuer.answer op s).1 (pairIssuer.answer op s).2 := by
  have hworld : brokerWorld ⟨fun _ => pairKube, fun _ _ _ => False⟩ op s
      (pairIssuer.answer op s).1 (pairIssuer.answer op s).2 :=
    Responses.answer_world rfl (fun _ _ _ h => by cases h) op s
  exact ⟨⟨_, hworld.1⟩, hworld.2⟩

def signFirst (now : Int64) : BrokerCall := .sign "node token" oneBody now

/-- Requests to this broker, played from a state. -/
def pairPlay (rate : Nat) (calls : List BrokerCall) (s : BrokerState) :
    List (Done BrokerSig BrokerCall BrokerAnswer) × BrokerState :=
  playAll pairIssuer.answer (pairServe rate) calls s

def pairStart (rate : Nat) : BrokerState := .start (pairConfig rate) oneCatalog ""

/-- Whether a certificate was issued, and whether the issuer was called. -/
def outcome (d : Done BrokerSig BrokerCall BrokerAnswer) : Bool × Bool := (match d.answer with
    | .signed (.ok _) => true
    | _ => false,
   d.trace.any fun e => decide e.op.Signs)

/-- Two certificates a minute. One pod has had one, and the other is refused for its identity. -/
def pairBefore : List (Done BrokerSig BrokerCall BrokerAnswer) × BrokerState :=
  pairPlay 2 [signFirst 0] (pairStart 2)

def pairRefused : List (Event BrokerSig) × Except Refusal Signed × BrokerState :=
  (Signer.sign ⟨pairConfig 2, podPolicy, oneSigner.csr⟩ "node token"
    { oneBody with podToken := "other token" } 10).run.play pairIssuer.answer pairBefore.2

def pairLater : List (Done BrokerSig BrokerCall BrokerAnswer) × BrokerState :=
  pairPlay 2 [signFirst 30] pairRefused.2.2

theorem refused_request_is_not_noticed_by_pair :
    pairRefused.2.1.toOption.isNone = true ∧ pairLater.1.map outcome = [(true, true)] ∧
      ∃ s₂, Session openWorld (pairServe 2) pairBefore.2 pairLater.1 s₂ := by
  have hnone : pairRefused.2.1.toOption.isNone = true := by decide
  have hunsigned : (pairRefused.1.all fun e => decide (¬ e.op.Signs)) = true := by decide
  refine ⟨hnone, by decide, ?_⟩
  have hbefore : Session openWorld (pairServe 2) (pairStart 2) pairBefore.1 pairBefore.2 :=
    playAll_session pairIssuer_world _ _ _
  have hlater : Session openWorld (pairServe 2) pairRefused.2.2 pairLater.1 pairLater.2 :=
    playAll_session pairIssuer_world _ _ _
  have hrun : Exec openWorld (Signer.sign ⟨pairConfig 2, podPolicy, oneSigner.csr⟩ "node token"
      { oneBody with podToken := "other token" } 10).run pairBefore.2 pairRefused.1 pairRefused.2.1
      pairRefused.2.2 := Prog.play_exec pairIssuer_world _ _
  cases hanswer : pairRefused.2.1 with
  | ok signed =>
    rw [hanswer] at hnone
    cases hnone
  | error refusal =>
    rw [hanswer] at hrun
    refine (refused_request_is_not_noticed _ podTokens _ (pairConfig 2) oneCatalog "" pairBefore.1
      pairLater.1 _ _ _ _ 10 _ refusal hbefore hrun ?_ (by decide) ?_).mp ⟨_, hlater⟩
    · intro e he
      exact of_decide_eq_true (List.all_eq_true.mp hunsigned e he)
    intro d hd t ht
    have hcalls : pairLater.1.map Done.call = [signFirst 30] := playAll_calls
    have hcall : d.call ∈ [signFirst 30] := hcalls ▸ List.mem_map_of_mem hd
    rw [List.mem_singleton.mp hcall] at ht
    obtain rfl := Option.some.inj ht
    decide

end Svidlet.Broker
