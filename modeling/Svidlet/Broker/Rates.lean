import Svidlet.Broker.Recognized
import Svidlet.Broker.Sliding
import Svidlet.Lib.Meter

/-!
# Rates of requests that overlap

`Window` is documented as "at most `limit` events in any `window` seconds. Simple and exact". Each of
its operations holds the mutex; but a request checks under one lock and records under another, and
requests run on as many threads as there are. So a burst that arrives at once passes the check as a
whole before the first of it is recorded (`rate_is_exceeded`).

> No sixty seconds hold more records for a node, or mints for a role, than the limit, in every run in
> which no check is made in a **crowd**: when there is room for this request, but not for it and those
> that have passed their check and may still record.

Checks must also come in the order of their times. A request reads the clock once, at its start, so
that is not implied by a clock that does not go backwards: an older request that comes to its check
late finds that a younger one has already dropped events which its own window still has.
-/

namespace Svidlet.Broker

open Lib Issue

/-! ## 1. The two meters -/

/-- The issuance rate of a node. -/
def nodeMeter : Meter BrokerSig String where
  use
    | .nodeRateCheck node now => .check node now.toInt
    | .nodeRateRecord node now => .record node now.toInt
    | .nodeRateSweep _ => .foreign
    | _ => .other
  passed
    | .nodeRateCheck _ _, ans => ans
    | _, _ => false

/-- The mint rate of a role. -/
def mintMeter : Meter BrokerSig String where
  use
    | .mintRateCheck role now => .check role now.toInt
    | .mintRateRecord role now => .record role now.toInt
    | _ => .other
  passed
    | .mintRateCheck _ _, ans => ans
    | _, _ => false

variable {op : BrokerOp}

theorem nodeMeter_plain (h : op.Plain) : nodeMeter.use op = .other := by
  cases op <;> first | rfl | exact h.elim

theorem mintMeter_plain (h : op.Plain) : mintMeter.use op = .other := by
  cases op <;> first | rfl | exact h.elim

/-! ## 2. Requests record what they have checked -/

/-- What is asked of the API server, and the catalog. -/
def BrokerOp.Question : BrokerOp → Prop
  | .tokenReview _ _ | .pod _ _ | .catalogCurrent => True
  | _ => False

theorem BrokerOp.Question.plain (h : op.Question) : op.Plain := by
  cases op <;> trivial

section

variable {E : RegexEngine} {m : Meter BrokerSig String} {φ : BrokerOp → Prop} {signer : Signer E}

theorem attestNode_makes (hφ : ∀ op : BrokerOp, op.Question → φ op) {nodeToken : String} :
    (signer.attestNode nodeToken).run.Makes φ := by
  unfold Signer.attestNode
  refine .result_bind fun _ => ?_
  refine .lift_bind (ask_makes (hφ _ trivial)) fun answer => ?_
  refine .result_bind fun review => ?_
  refine .result_bind fun names => ?_
  refine .lift_bind (ask_makes (hφ _ trivial)) fun answer => ?_
  refine .result_bind fun pod => ?_
  exact .result_bind fun _ => trivial

theorem attestPod_makes (hφ : ∀ op : BrokerOp, op.Question → φ op) {podToken node : String} :
    (signer.attestPod podToken node).run.Makes φ := by
  unfold Signer.attestPod
  refine .result_bind fun _ => ?_
  refine .lift_bind (ask_makes (hφ _ trivial)) fun answer => ?_
  refine .result_bind fun review => ?_
  refine .result_bind fun claim => ?_
  refine .lift_bind (ask_makes (hφ _ trivial)) fun answer => ?_
  refine .result_bind fun pod => ?_
  exact .result_bind fun _ => trivial

theorem admitPod_makes (hφ : ∀ op : BrokerOp, op.Question → φ op) {pod : Pod} :
    (signer.admitPod pod).run.Makes φ := by
  unfold Signer.admitPod
  refine .result_bind fun _ => ?_
  exact .lift_bind (ask_makes (hφ _ trivial)) fun catalog => trivial

variable {now : Int64}

/-- What is left of `sign` is plain, so `spend` decides. -/
theorem sign_obeys (hplain : ∀ op : BrokerOp, op.Plain → m.use op = .other)
    (hspend : ∀ node id now, (Signer.spend node id now).run.Obeys m none) {nodeToken : String}
    {body : SignBody} :
    (signer.sign nodeToken body now).run.Obeys m none := by
  have hask : ∀ op : BrokerOp, op.Question → m.use op = .other := fun op h => hplain op h.plain
  unfold Signer.sign
  refine .run_bind (.of_makes (attestNode_makes hask) none) fun node => ?_
  refine .run_bind (.of_makes (attestPod_makes hask) none) fun pod => ?_
  refine .run_bind trivial fun _ => ?_
  refine .run_bind (.of_makes (admitPod_makes hask) none) fun _ => ?_
  refine .run_bind trivial fun id => ?_
  refine .run_bind (hspend node id now) fun _ => .of_makes ?_ none
  exact .lift_bind (ask_makes (hplain _ trivial)) fun answer => .result_bind fun bundle => trivial

variable {tokens : Tokens E}

theorem one_obeys (hplain : ∀ op : BrokerOp, op.Plain → m.use op = .other)
    (hinsert : ∀ key c, m.use (.cacheInsert key c) = .other)
    (hmint : ∀ caller audience now, (tokens.mint caller audience now).run.Obeys m none)
    {caller : Caller} {entry : CatalogIdentity} {audience : String} :
    (tokens.one caller entry audience now).run.Obeys m none := by
  have hquiet : ∀ op : BrokerOp, op.Quiet → m.use op = .other := fun op h => hplain op h.plain
  unfold Tokens.one
  split
  · trivial
  refine .run_bind (.of_makes (Tokens.fromCache_makes (hplain _ trivial) hquiet) none) fun cached => ?_
  split
  · trivial
  refine .run_bind (hmint caller audience now) fun fresh => ?_
  refine .run_bind (.of_makes (Tokens.published_makes hquiet) none) fun _ => ?_
  refine .run_bind trivial fun _ => .of_makes ?_ none
  exact .lift_bind (ask_makes (hinsert _ _)) fun _ => trivial

theorem serve_obeys (hplain : ∀ op : BrokerOp, op.Plain → m.use op = .other)
    (hinsert : ∀ key c, m.use (.cacheInsert key c) = .other)
    (hmint : ∀ caller audience now, (tokens.mint caller audience now).run.Obeys m none)
    {toml : String → Except Error Catalog} (call : Tokens.Call) :
    (tokens.serve toml call).Obeys m none := by
  have hquiet : ∀ op : BrokerOp, op.Quiet → m.use op = .other := fun op h => hplain op h.plain
  cases call with
  | single caller audience now =>
    refine .bind (.run_bind (.of_makes (Tokens.entry_makes hquiet) none) fun entry => ?_) fun _ => trivial
    exact one_obeys hplain hinsert hmint
  | all caller now =>
    refine .bind (.run_bind (.of_makes (Tokens.entry_makes hquiet) none) fun entry => ?_) fun _ => trivial
    have heach : ∀ list out, (tokens.each caller entry now list out).Obeys m none := by
      intro list
      induction list with
      | nil => exact fun _ => trivial
      | cons aud rest ih =>
        intro out
        refine .bind (one_obeys hplain hinsert hmint) fun r => ?_
        split
        · exact ih _
        · exact ih _
        · trivial
    exact heach entry.audiences []
  | sweep now => exact .bind (.of_makes (ask_makes (hplain (.cacheSweep now) trivial)) none) fun _ => trivial
  | refresh => exact .bind (.of_makes (JwksSource.refresh_makes hquiet) none) fun _ => trivial
  | reload => exact .bind (.of_makes (CatalogHandle.reload_makes hquiet) none) fun _ => trivial

/-- Both limits are asked before the rate is recorded, and only if both agree is it. -/
theorem spend_obeys {node : String} {id : SpiffeId} :
    (Signer.spend node id now).run.Obeys nodeMeter none := by
  unfold Signer.spend
  refine .check_bind rfl fun fits => .result_bind fun _ hfits => ?_
  have hpassed : fits = true := by simpa [refuseIf_ok] using hfits
  subst hpassed
  intro distinct
  exact .result_bind fun _ _ => ⟨rfl, fun _ => trivial⟩

theorem mint_obeys {caller : Caller} {audience : String} :
    (tokens.mint caller audience now).run.Obeys mintMeter none := by
  unfold Tokens.mint
  refine .check_bind rfl fun fits => .result_bind fun _ hfits => ?_
  have hpassed : fits = true := by simpa [refuseIf_ok] using hfits
  subst hpassed
  refine .record_bind rfl fun _ => .of_makes ?_ none
  refine .lift_bind (ask_makes (mintMeter_plain trivial)) fun answer => ?_
  refine .result_bind fun token => ?_
  refine .result_bind fun parsed => ?_
  exact .result_bind fun _ => trivial

end

/-! ## 3. The two limiters -/

namespace Window

variable {w : Window} {limit : Nat} {key : String} {now : Int64}

/-- A window of a minute with this limit. -/
def PerMinute (limit : Nat) (w : Window) : Prop := w.limit = limit ∧ w.window = 60

theorem cut_minute (hw : w.window = 60) (hnow : -2 ^ 63 + 60 ≤ now.toInt) :
    w.cut now = now.toInt - 60 := by
  have hlt := Int64.toInt_lt now
  have hminute : (60 : Int64).toInt = 60 := rfl
  rw [cut, hw, Int64.toInt_sub, hminute]
  apply Int.bmod_eq_of_le <;> omega

theorem check_perMinute (hw : w.PerMinute limit) : (w.check key now).2.PerMinute limit :=
  ⟨by rw [check_limit, hw.1], by rw [check_window, hw.2]⟩

theorem record_perMinute (hw : w.PerMinute limit) : (w.record key now).PerMinute limit :=
  ⟨by rw [record_limit, hw.1], by rw [record_window, hw.2]⟩

/-- What a check does to the times, and when it passes. -/
theorem check_times (hw : w.PerMinute limit) (hpos : limit ≠ 0) (hlt : limit < 2 ^ 32)
    (hnow : 0 ≤ now.toInt) :
    (w.check key now).2.times = Function.update w.times key
        ((w.times key).dropWhile (· ≤ now.toInt - 60)) ∧
    ((w.times key).length ≤ limit → (w.check key now).1 = true →
      ((w.times key).dropWhile (· ≤ now.toInt - 60)).length < limit) := by
  have hpos' : w.limit ≠ 0 := by rw [hw.1]; exact hpos
  rw [times_check hpos', check_fst hpos', cut_minute hw.2 (by omega), hw.1]
  refine ⟨rfl, fun hshort hpass => ?_⟩
  have hle := (List.dropWhile_sublist (fun t => decide (t ≤ now.toInt - 60)) (l := w.times key)).length_le
  rwa [decide_eq_true_eq, Nat.mod_eq_of_lt (by omega)] at hpass

theorem record_times (hw : w.PerMinute limit) (hpos : limit ≠ 0) :
    (w.record key now).times = Function.update w.times key (w.times key ++ [now.toInt]) :=
  times_record (by rw [hw.1]; exact hpos)

end Window

/-- The limiter behind a meter whose calls act on a window of the broker. -/
def windowLimiter {out : Outside} {m : Meter BrokerSig String} (rate : BrokerState → Window)
    (hkeep : ∀ op s limit, (rate s).PerMinute limit → (rate (s.after op)).PerMinute limit)
    (hcheck : ∀ op key now, m.use op = .check key now → ∃ t : Int64, t.toInt = now ∧
      ∀ s ans s', brokerWorld out op s ans s' →
        m.passed op ans = ((rate s).check key t).1 ∧ rate s' = ((rate s).check key t).2)
    (hrecord : ∀ op key now, m.use op = .record key now → ∃ t : Int64, t.toInt = now ∧
      ∀ s, rate (s.after op) = (rate s).record key t)
    (hother : ∀ op s, m.use op = .other → rate (s.after op) = rate s)
    (limit : Nat) (hpos : limit ≠ 0) (hlt : limit < 2 ^ 32) : Limiter m (brokerWorld out) where
  limit := limit
  window := 60
  queue s := (rate s).times
  Good s := (rate s).PerMinute limit
  good := by
    intro op s ans s' hw hs
    rw [hw.2]
    exact hkeep op s limit hs
  check := by
    intro op key now s ans s' huse hnow hs hw
    obtain ⟨t, rfl, hstep⟩ := hcheck op key now huse
    obtain ⟨hpassed, hrate⟩ := hstep s ans s' hw
    rw [hpassed, hrate]
    exact Window.check_times hs hpos hlt hnow
  record := by
    intro op key now s ans s' huse hs hw
    obtain ⟨t, rfl, hstep⟩ := hrecord op key now huse
    rw [hw.2, hstep]
    exact Window.record_times hs hpos
  other := by
    intro op s ans s' huse hs hw
    rw [hw.2, hother op s huse]

theorem nodeRate_keep (op : BrokerOp) (s : BrokerState) (limit : Nat)
    (h : s.nodeRate.PerMinute limit) : (s.after op).nodeRate.PerMinute limit := by
  cases op with
  | nodeRateCheck node now => exact Window.check_perMinute h
  | nodeRateRecord node now => exact Window.record_perMinute h
  | jwksForce now =>
    simp only [BrokerState.after]
    split <;> exact h
  | _ => exact h

theorem mintRate_keep (op : BrokerOp) (s : BrokerState) (limit : Nat)
    (h : s.mintRate.PerMinute limit) : (s.after op).mintRate.PerMinute limit := by
  cases op with
  | mintRateCheck role now => exact Window.check_perMinute h
  | mintRateRecord role now => exact Window.record_perMinute h
  | jwksForce now =>
    simp only [BrokerState.after]
    split <;> exact h
  | _ => exact h

def nodeLimiter (out : Outside) (limit : Nat) (hpos : limit ≠ 0) (hlt : limit < 2 ^ 32) :
    Limiter nodeMeter (brokerWorld out) := by
  refine windowLimiter (·.nodeRate) nodeRate_keep ?_ ?_ ?_ limit hpos hlt
  · intro op key now huse
    cases op with
    | nodeRateCheck node t =>
      cases huse
      exact ⟨t, rfl, fun s ans s' hw => ⟨hw.1, by rw [hw.2]; rfl⟩⟩
    | _ => cases huse
  · intro op key now huse
    cases op with
    | nodeRateRecord node t =>
      cases huse
      exact ⟨t, rfl, fun s => rfl⟩
    | _ => cases huse
  · intro op s huse
    cases op with
    | nodeRateCheck node now => cases huse
    | nodeRateRecord node now => cases huse
    | nodeRateSweep now => cases huse
    | jwksForce now =>
      simp only [BrokerState.after]
      split <;> rfl
    | _ => rfl

def mintLimiter (out : Outside) (limit : Nat) (hpos : limit ≠ 0) (hlt : limit < 2 ^ 32) :
    Limiter mintMeter (brokerWorld out) := by
  refine windowLimiter (·.mintRate) mintRate_keep ?_ ?_ ?_ limit hpos hlt
  · intro op key now huse
    cases op with
    | mintRateCheck role t =>
      cases huse
      exact ⟨t, rfl, fun s ans s' hw => ⟨hw.1, by rw [hw.2]; rfl⟩⟩
    | _ => cases huse
  · intro op key now huse
    cases op with
    | mintRateRecord role t =>
      cases huse
      exact ⟨t, rfl, fun s => rfl⟩
    | _ => cases huse
  · intro op s huse
    cases op with
    | mintRateCheck role now => cases huse
    | mintRateRecord role now => cases huse
    | jwksForce now =>
      simp only [BrokerState.after]
      split <;> rfl
    | _ => rfl

/-! ## 4. The theorem -/

/-- What arrives at the two ports, and the housekeeping of the token side. -/
inductive Request where
  | sign (nodeToken : String) (body : SignBody) (now : Int64)
  | token (call : Tokens.Call)

section

variable {E : RegexEngine}

def requestBody (signer : Signer E) (tokens : Tokens E) (toml : String → Except Error Catalog) :
    Request → Prog BrokerSig Unit
  | .sign nodeToken body now => (signer.sign nodeToken body now).run >>= fun _ => pure ()
  | .token call => tokens.serve toml call >>= fun _ => pure ()

/-- Requests on any number of threads, with a log of their calls. -/
def requestSystem (signer : Signer E) (tokens : Tokens E) (toml : String → Except Error Catalog)
    (out : Outside) : System BrokerSig (BrokerState × List (Event BrokerSig)) Request Unit where
  world := (brokerWorld out).logged
  body := requestBody signer tokens toml
  restart _ _ := False

theorem requestBody_obeys_node (signer : Signer E) (tokens : Tokens E)
    (toml : String → Except Error Catalog) (request : Request) :
    (requestBody signer tokens toml request).Obeys nodeMeter none := by
  have hmint : ∀ caller audience now, (tokens.mint caller audience now).run.Obeys nodeMeter none :=
    fun caller audience now => .of_makes (Tokens.mint_makes rfl rfl rfl) none
  cases request with
  | sign nodeToken body now =>
    exact .bind (sign_obeys (fun _ => nodeMeter_plain) fun _ _ _ => spend_obeys) fun _ => trivial
  | token call =>
    exact .bind (serve_obeys (fun _ => nodeMeter_plain) (fun _ _ => rfl) hmint call) fun _ => trivial

theorem requestBody_obeys_mint (signer : Signer E) (tokens : Tokens E)
    (toml : String → Except Error Catalog) (request : Request) :
    (requestBody signer tokens toml request).Obeys mintMeter none := by
  have hspend : ∀ node id now, (Signer.spend node id now).run.Obeys mintMeter none := by
    intro node id now
    refine .of_makes ?_ none
    unfold Signer.spend
    refine .lift_bind (ask_makes rfl) fun fits => ?_
    refine .result_bind fun _ => ?_
    refine .lift_bind (ask_makes rfl) fun fits => ?_
    refine .result_bind fun _ => ?_
    exact .bind (ask_makes rfl) fun _ => trivial
  cases request with
  | sign nodeToken body now =>
    exact .bind (sign_obeys (fun _ => mintMeter_plain) hspend) fun _ => trivial
  | token call =>
    exact .bind (serve_obeys (fun _ => mintMeter_plain) (fun _ _ => rfl) (fun _ _ _ => mint_obeys) call)
      fun _ => trivial

/-- **No minute has more records than the limit**, for nodes and for roles, in every run in which
    checks come in the order of their times and none is made in a crowd. -/
theorem rates_hold_without_crowds (signer : Signer E) (tokens : Tokens E)
    (toml : String → Except Error Catalog) (out : Outside) (cfg : Config) (catalog : ValidCatalog)
    (text : String)
    {P : Pool BrokerSig (BrokerState × List (Event BrokerSig)) Request Unit} :
    (∀ (hpos : cfg.nodeRatePerMinute ≠ 0) (hlt : cfg.nodeRatePerMinute < 2 ^ 32),
      (requestSystem signer tokens toml out).Run
        (nodeLimiter out cfg.nodeRatePerMinute hpos hlt).Orderly
        (Pool.initial (.start cfg catalog text, [])) P →
      ∀ node start, nodeMeter.countIn node 60 start P.state.2 ≤ cfg.nodeRatePerMinute) ∧
    (∀ (hpos : cfg.mintRatePerMinute ≠ 0) (hlt : cfg.mintRatePerMinute < 2 ^ 32),
      (requestSystem signer tokens toml out).Run
        (mintLimiter out cfg.mintRatePerMinute hpos hlt).Orderly
        (Pool.initial (.start cfg catalog text, [])) P →
      ∀ role start, mintMeter.countIn role 60 start P.state.2 ≤ cfg.mintRatePerMinute) := by
  constructor
  · intro hpos hlt hrun node start
    exact (nodeLimiter out cfg.nodeRatePerMinute hpos hlt).countIn_le rfl
      (requestBody_obeys_node signer tokens toml) (fun _ _ => id) ⟨rfl, rfl⟩ (fun _ => rfl)
      (fun _ _ h => h) hrun node start
  · intro hpos hlt hrun role start
    exact (mintLimiter out cfg.mintRatePerMinute hpos hlt).countIn_le rfl
      (requestBody_obeys_mint signer tokens toml) (fun _ _ => id) ⟨rfl, rfl⟩ (fun _ => rfl)
      (fun _ _ h => h) hrun role start

end

/-! ## 5. With room for all, and without -/

/-- A signing request of one pod, made at time 0. -/
def oneRequest : Request := .sign "node token" oneBody 0

def oneOutside : Outside := ⟨fun _ => oneKube, fun _ _ _ => False⟩

def oneSystem : System BrokerSig (BrokerState × List (Event BrokerSig)) Request Unit :=
  requestSystem oneSigner podTokens (fun _ => .error (.config "not asked")) oneOutside

def playRequests (cfg : Config) (turns : List (Turn Request)) :
    Pool BrokerSig (BrokerState × List (Event BrokerSig)) Request Unit :=
  oneSystem.play (logging oneIssuer.answer) (Pool.initial (.start cfg oneCatalog "", [])) turns

def roomyConfig : Config := { oneConfig with nodeRatePerMinute := 3, mintRatePerMinute := 3 }

/-- Two signing requests and a request for a token overlap: all have made their check before the first
    records. Then two more signing requests come, one after the other. -/
def busy : List (Turn Request) :=
  .start 0 oneRequest :: .start 1 oneRequest :: .start 2 (.token (.single callerP "d" 0)) ::
    (List.replicate 6 (.go 0) ++ List.replicate 6 (.go 1) ++ List.replicate 3 (.go 2)
      ++ List.replicate 4 (.go 0) ++ List.replicate 3 (.go 2) ++ List.replicate 4 (.go 1)
      ++ .start 0 oneRequest :: List.replicate 10 (.go 0)
      ++ .start 1 oneRequest :: List.replicate 10 (.go 1))

theorem logged_answers (o : BrokerOp) (s : BrokerState × List (Event BrokerSig)) :
    oneSystem.world o s (logging oneIssuer.answer o s).1 (logging oneIssuer.answer o s).2 :=
  ⟨oneIssuer_world o s.1, rfl⟩

/-- The limit is reached, and the last of the requests is refused. -/
theorem rates_hold_without_crowds_busy :
    nodeMeter.checked "node-1" (playRequests roomyConfig busy).state.2 = [0, 0, 0, 0] ∧
      nodeMeter.recorded "node-1" (playRequests roomyConfig busy).state.2 = [0, 0, 0] ∧
      mintMeter.recorded (podTokens.role callerP) (playRequests roomyConfig busy).state.2 = [0] ∧
      nodeMeter.countIn "node-1" 60 (-1) (playRequests roomyConfig busy).state.2 ≤ 3 ∧
      mintMeter.countIn (podTokens.role callerP) 60 (-1) (playRequests roomyConfig busy).state.2 ≤ 3 := by
  have hrates := rates_hold_without_crowds oneSigner podTokens (fun _ => .error (.config "not asked"))
    oneOutside roomyConfig oneCatalog "" (P := playRequests roomyConfig busy)
  refine ⟨by decide +kernel, by decide +kernel, by decide +kernel,
    hrates.1 (by decide) (by decide) ?_ _ _, hrates.2 (by decide) (by decide) ?_ _ _⟩
  all_goals exact (System.play_run logged_answers (fun _ _ hP => Limiter.grants_of_fits hP) .refl
    (fun i (_ : i ∉ [0, 1, 2]) => rfl) (by decide +kernel)).1

def tightConfig : Config := { oneConfig with nodeRatePerMinute := 1, mintRatePerMinute := 1 }

/-- Both requests come to their check before either records. -/
def burst : List (Turn Request) :=
  .start 0 oneRequest :: .start 1 oneRequest :: (List.replicate 6 (.go 0) ++ List.replicate 6 (.go 1)
    ++ List.replicate 2 (.go 0) ++ List.replicate 2 (.go 1))

/-- Two requests of a node at one moment are both recorded, where the limit is one a minute. -/
theorem rate_is_exceeded :
    oneSystem.Run (fun _ _ => True) (Pool.initial (.start tightConfig oneCatalog "", []))
      (playRequests tightConfig burst) ∧
    tightConfig.nodeRatePerMinute = 1 ∧
    nodeMeter.checked "node-1" (playRequests tightConfig burst).state.2 = [0, 0] ∧
    nodeMeter.countIn "node-1" 60 (-1) (playRequests tightConfig burst).state.2 = 2 := by
  have hpass : oneSystem.passes (logging oneIssuer.answer) [0, 1] (fun _ _ => true)
      (Pool.initial (.start tightConfig oneCatalog "", [])) burst = true := by decide +kernel
  exact ⟨(System.play_run logged_answers (fun _ _ _ _ => System.grants_all _ _) .refl (fun _ _ => rfl)
    hpass).1, rfl, by decide, by decide⟩

end Svidlet.Broker
