import Svidlet.Node.World

/-!
# When a certificate is due

A deadline for renewal is drawn: `jittered_renew_at` takes a random point in a fraction of the lifetime,
and the configuration insists that the fraction ends before the lifetime does. That is how publishing
and renewal find the deadline they record, and so it is never past the expiry.

Adoption draws in the same way, but a certificate that is overdue by then is put somewhere in the
start-up window instead. **The window knows nothing of the expiry**: a certificate with less left than
the window is long may be recorded with a deadline at which it has expired.

Fractions are rational numbers here, exactly.
-/

namespace Svidlet.Node

open Lib Issue

/-! ## 1. Draws -/

/-- `rand::unit`, of a random word. -/
def unit (draw : UInt64) : ℚ := (draw >>> 11).toNat / 2 ^ 53

/-- The renew fractions the configuration accepts. -/
structure RenewFraction where
  min : ℚ
  max : ℚ
  pos : 0 < min
  le : min ≤ max
  lt : max < 1

/-- The point of the lifetime for a number from the unit interval. -/
def renewPoint (notBefore notAfter : Int) (fraction : RenewFraction) (u : ℚ) : Int :=
  notBefore + ⌊(max (notAfter - notBefore) 1 : Int) *
    (fraction.min + (fraction.max - fraction.min) * u)⌋

def jitteredRenewAt (notBefore notAfter : Int) (fraction : RenewFraction) (draw : UInt64) : Int :=
  renewPoint notBefore notAfter fraction (unit draw)

/-- The last second of the start-up window: `startup_spread.as_secs() as i64`, if that is positive. -/
def windowEnd (spread : UInt64) : Int := max 0 spread.toInt64.toInt

/-- The answers that are drawn, for these settings. -/
def Drawn (fraction : RenewFraction) (spread : UInt64) : (op : NodeOp) → op.Ans → Prop
  | .jitteredRenewAt notBefore notAfter, due =>
    ∃ draw, due = jitteredRenewAt notBefore notAfter fraction draw
  | .startupSpread, wait => ∃ draw, wait = rangeI64 0 spread.toInt64.toInt draw
  | _, _ => True

variable {fraction : RenewFraction} {spread : UInt64} {notBefore notAfter : Int}

theorem unit_nonneg (draw : UInt64) : 0 ≤ unit draw := by
  unfold unit
  positivity

theorem unit_le_one (draw : UInt64) : unit draw ≤ 1 := by
  have hword : (draw >>> 11).toNat ≤ 2 ^ 53 := by
    have hlt := draw.toNat_lt
    have hshift : (draw >>> 11).toNat = draw.toNat / 2 ^ 11 := by
      rw [UInt64.toNat_shiftRight, Nat.shiftRight_eq_div_pow]
      rfl
    omega
  unfold unit
  rw [div_le_one (by positivity)]
  exact_mod_cast hword

theorem renewPoint_mono {u v : ℚ} (h : u ≤ v) :
    renewPoint notBefore notAfter fraction u ≤ renewPoint notBefore notAfter fraction v := by
  have hwidth : 0 ≤ fraction.max - fraction.min := sub_nonneg.mpr fraction.le
  have hlife : (0 : ℚ) ≤ (max (notAfter - notBefore) 1 : Int) := by
    exact_mod_cast le_trans zero_le_one (le_max_right _ _)
  unfold renewPoint
  gcongr

/-- Within the lifetime, for all of the unit interval. -/
theorem jitteredRenewAt_le (h : notBefore < notAfter) (draw : UInt64) :
    jitteredRenewAt notBefore notAfter fraction draw ≤ notAfter := by
  have hone : renewPoint notBefore notAfter fraction 1 ≤ notAfter := by
    have hlife : max (notAfter - notBefore) 1 = notAfter - notBefore := max_eq_left (by omega)
    have hpart : ⌊(notAfter - notBefore : Int) * fraction.max⌋ ≤ notAfter - notBefore := by
      rw [Int.floor_le_iff]
      have hpos : (0 : ℚ) < (notAfter - notBefore : Int) := by exact_mod_cast sub_pos.mpr h
      nlinarith [fraction.lt]
    unfold renewPoint
    rw [hlife, mul_one, add_sub_cancel]
    omega
  exact (renewPoint_mono (unit_le_one draw)).trans hone

theorem rangeI64_le (draw : UInt64) : rangeI64 0 spread.toInt64.toInt draw ≤ windowEnd spread := by
  unfold rangeI64 windowEnd
  split
  · exact le_max_left _ _
  · have hmod : draw.toNat % ((spread.toInt64.toInt - 0).toNat + 1) < _ :=
      Nat.mod_lt draw.toNat (Nat.succ_pos _)
    omega

theorem exists_rangeI64 (spread : UInt64) :
    ∃ draw, rangeI64 0 spread.toInt64.toInt draw = windowEnd spread := by
  unfold rangeI64 windowEnd
  by_cases h : spread.toInt64.toInt ≤ 0
  · exact ⟨0, by rw [if_pos h, max_eq_left h]⟩
  refine ⟨spread, ?_⟩
  have hsame : spread.toInt64.toInt = spread.toNat := by
    have hlt := spread.toNat_lt
    rw [Int64.toInt, UInt64.toBitVec_toInt64, BitVec.toInt_eq_toNat_bmod] at h ⊢
    simp only [UInt64.toNat_toBitVec] at h ⊢
    rw [Int.bmod_def] at h ⊢
    split at h <;> omega
  rw [if_neg h, hsame, Nat.mod_eq_of_lt (by omega)]
  omega

/-! ## 2. What is recorded -/

/-- A certificate that is recorded is due before it expires. -/
def Timely : NodeOp → Prop
  | .storeInsert entry => entry.notBefore < entry.notAfter → entry.renewAt ≤ entry.notAfter
  | .storeRecordRenewal _ notBefore notAfter renewAt => notBefore < notAfter → renewAt ≤ notAfter
  | _ => True

theorem timely_of_target {op : NodeOp} (h : op.target = none) : Timely op := by
  cases op <;> trivial

section

variable {E : RegexEngine} {plugin : Plugin E}

theorem waitForPolicy_timely (target : String) (rounds : Nat) :
    (waitForPolicy target rounds).Makes Timely := by
  induction rounds with
  | zero => trivial
  | succ rounds ih =>
    refine .bind (.of_op trivial) fun there => ?_
    cases there with
    | true => trivial
    | false =>
      refine .bind (.of_op trivial) fun passed => ?_
      cases passed with
      | true => trivial
      | false => exact ih

theorem exposeVolume_timely (volumeId target : String) :
    (exposeVolume plugin volumeId target).run.Makes Timely := by
  unfold exposeVolume
  split
  · refine .lift_bind (.of_op trivial) fun r => ?_
    cases r with
    | ok u => trivial
    | error e => exact .lift_bind (.of_op trivial) fun _ => trivial
  · trivial

theorem awaitPolicy_timely (id : SpiffeId) (volumeId target : String) :
    (awaitPolicy plugin id volumeId target).run.Makes Timely := by
  unfold awaitPolicy
  split
  · refine .lift_bind (waitForPolicy_timely _ _) fun there => ?_
    cases there with
    | true => trivial
    | false =>
      refine .lift_bind (unexposeVolume_makes fun _ => timely_of_target) fun _ => ?_
      exact .lift_bind (.of_op trivial) fun _ => trivial
  · trivial

theorem publish_timely (req : PublishRequest) :
    (nodePublishVolume plugin req).run.MakesIf (Drawn fraction spread) Timely := by
  refine .run_bind trivial fun checked => ?_
  rw [ExceptT.run_bind_lift]
  refine .bind (Prog.Makes.makesIf (.of_op trivial)) fun held => ?_
  cases held with
  | some existing =>
    refine Prog.Makes.makesIf ?_
    dsimp only
    split
    · exact Prog.Makes.bind (.of_op trivial) fun _ => trivial
    · trivial
  | none =>
    show (publishNew plugin req checked.1 checked.2.1 checked.2.2).run.MakesIf _ _
    unfold publishNew
    rw [ExceptT.run_bind_lift]
    refine .bind (Prog.Makes.makesIf ?_) fun outcome => ?_
    · exact .run_bind (ioCall_makes (.of_op trivial)) fun _ =>
        issue_makes (fun _ => timely_of_target) fun _ _ => trivial
    cases outcome with
    | error e => exact Prog.Makes.makesIf (.lift_bind (.of_op trivial) fun _ => trivial)
    | ok bundle =>
      refine .run_bind (exposeVolume_timely _ _).makesIf fun _ => ?_
      refine .run_bind (awaitPolicy_timely _ _ _).makesIf fun _ => ?_
      -- the deadline is drawn, and recorded
      refine Prog.makesIf_op_bind.mpr ⟨trivial, fun renewAt hdrawn => ?_⟩
      obtain ⟨draw, rfl⟩ := hdrawn
      refine Prog.makesIf_op_bind.mpr ⟨fun hlife => jitteredRenewAt_le hlife draw, fun _ _ => ?_⟩
      refine Prog.Makes.makesIf (.lift_bind (.of_op trivial) fun passed => ?_)
      cases passed with
      | true => trivial
      | false => exact .lift_bind (refreshTokens_makes fun _ => timely_of_target) fun _ => trivial

theorem renewOne_timely (entry : Entry) :
    (renewOne plugin entry).MakesIf (Drawn fraction spread) Timely := by
  refine .bind (Prog.Makes.makesIf (.of_op trivial)) fun now => ?_
  refine .bind (Prog.Makes.makesIf (.of_op trivial)) fun there => ?_
  cases there with
  | false => exact Prog.Makes.makesIf (.bind (.of_op trivial) fun _ => trivial)
  | true =>
    refine .bind (issue_makes (fun _ => timely_of_target) fun _ _ => trivial).makesIf fun r => ?_
    cases r with
    | error e => exact Prog.Makes.makesIf (.of_op trivial)
    | ok bundle =>
      refine Prog.makesIf_op_bind.mpr ⟨trivial, fun renewAt hdrawn => ?_⟩
      obtain ⟨draw, rfl⟩ := hdrawn
      refine Prog.makesIf_op_bind.mpr ⟨fun hlife => jitteredRenewAt_le hlife draw, fun _ _ => ?_⟩
      exact Prog.Makes.makesIf
        (.bind (refreshTokens_makes fun _ => timely_of_target) fun _ => trivial)

theorem renewDue_timely : (renewDue plugin).MakesIf (Drawn fraction spread) Timely := by
  refine .bind (Prog.Makes.makesIf (.of_op trivial)) fun now => ?_
  refine .bind (Prog.Makes.makesIf (.of_op trivial)) fun due => ?_
  induction due with
  | nil => trivial
  | cons entry rest ih => exact .bind (renewOne_timely entry) fun _ => ih

/-- An adoption pass at `now` that reads no other chains than these. -/
def PassAnswers (now : Int) (seen : String → Prop) : (op : NodeOp) → op.Ans → Prop
  | .unixNow, clock => clock = now
  | .readCertChain _, .ok chain => seen chain
  | _, _ => True

/-- What is drawn, in such a pass. -/
def DrawnInPass (fraction : RenewFraction) (spread : UInt64) (now : Int) (seen : String → Prop)
    (op : NodeOp) (ans : op.Ans) : Prop :=
  Drawn fraction spread op ans ∧ PassAnswers now seen op ans

section Window

variable {ψ : (op : NodeOp) → op.Ans → Prop} {now : Int} {found : Discovered} {facts : CertFacts}
variable (hψ : ∀ op ans, ψ op ans → Drawn fraction spread op ans)
variable (hpoint : ∀ a b due, Drawn fraction spread (.jitteredRenewAt a b) due →
  ψ (.jitteredRenewAt a b) due)
variable (hspread : ∀ wait, Drawn fraction spread .startupSpread wait → ψ .startupSpread wait)

include hpoint hspread in
/-- The earliest draw is the one that matters for being overdue, the latest for the window. -/
theorem window_of_timely (hlife : facts.notBefore < facts.notAfter)
    (h : (adoptFound plugin now found facts).MakesIf ψ Timely) :
    now < renewPoint facts.notBefore facts.notAfter fraction 0 ∨
      now + windowEnd spread ≤ facts.notAfter := by
  unfold adoptFound at h
  by_contra hno
  obtain ⟨hdue, hlate⟩ := not_or.mp hno
  obtain ⟨draw, hdraw⟩ := exists_rangeI64 spread
  have hpassed : jitteredRenewAt facts.notBefore facts.notAfter fraction 0 ≤ now := by
    simpa [jitteredRenewAt, unit] using hdue
  have hrest := (Prog.makesIf_op_bind.mp h).2 _ (hpoint _ _ _ ⟨0, rfl⟩)
  rw [if_pos hpassed] at hrest
  have hrecord := (hrest.2 _ (hspread _ ⟨draw, rfl⟩)).1 hlife
  rw [hdraw] at hrecord
  exact hlate hrecord

include hψ in
theorem timely_of_window (h : facts.notBefore < facts.notAfter →
      now < renewPoint facts.notBefore facts.notAfter fraction 0 ∨
        now + windowEnd spread ≤ facts.notAfter) :
    (adoptFound plugin now found facts).MakesIf ψ Timely := by
  unfold adoptFound
  refine Prog.makesIf_op_bind.mpr ⟨trivial, fun due hdue => ?_⟩
  obtain ⟨draw, rfl⟩ := hψ _ _ hdue
  have htail : ∀ entry : Entry, Timely (.storeInsert entry) →
      (ask (.storeInsert entry) >>= fun _ =>
        if plugin.cfg.policyGid.isSome = true then
          ask (.expose (farmName found.volumeId) found.targetPath) >>= fun _ => pure ()
        else pure () : Prog NodeSig Unit).MakesIf ψ Timely := by
    intro entry hentry
    refine Prog.makesIf_op_bind.mpr ⟨hentry, fun _ _ => Prog.Makes.makesIf ?_⟩
    split
    · exact .bind (.of_op trivial) fun _ => trivial
    · trivial
  dsimp only
  split
  · rename_i hpassed
    refine ⟨trivial, fun wait hwait => htail _ fun hlife => ?_⟩
    obtain ⟨draw', rfl⟩ := hψ _ _ hwait
    have hfirst := (renewPoint_mono (unit_nonneg draw)).trans hpassed
    have hwindow := (h hlife).resolve_left (not_lt.mpr hfirst)
    exact (add_le_add_right (rangeI64_le draw') now).trans hwindow
  · exact htail _ fun hlife => jitteredRenewAt_le hlife draw

end Window

theorem adoptFound_timely_iff {now : Int} {found : Discovered} {facts : CertFacts}
    (hlife : facts.notBefore < facts.notAfter) :
    (adoptFound plugin now found facts).MakesIf (Drawn fraction spread) Timely ↔
      now < renewPoint facts.notBefore facts.notAfter fraction 0 ∨
        now + windowEnd spread ≤ facts.notAfter :=
  ⟨window_of_timely (fun _ _ _ h => h) (fun _ h => h) hlife,
    fun h => timely_of_window (fun _ _ h => h) fun _ => h⟩

/-- Every certificate that a pass at `now` adopts from these chains is safe from the window. -/
def WindowSafe (plugin : Plugin E) (fraction : RenewFraction) (spread : UInt64) (now : Int)
    (seen : String → Prop) : Prop :=
  ∀ chain facts, seen chain → plugin.reader.inspect chain = .ok facts →
    identityBelongsHere plugin facts.spiffeId.asStr = .ok () → facts.notBefore < facts.notAfter →
      now < renewPoint facts.notBefore facts.notAfter fraction 0 ∨
        now + windowEnd spread ≤ facts.notAfter

theorem adoptOne_timely {now : Int} {seen : String → Prop} {found : Discovered}
    (hsafe : WindowSafe plugin fraction spread now seen) :
    (adoptOne plugin now found).MakesIf (DrawnInPass fraction spread now seen) Timely := by
  refine .bind (Prog.Makes.makesIf (.of_op trivial)) fun held => ?_
  split
  · trivial
  refine Prog.makesIf_op_bind.mpr ⟨trivial, fun read hread => ?_⟩
  cases read with
  | error e => trivial
  | ok chain =>
    cases hfacts : plugin.reader.inspect chain with
    | error e =>
      simp only [hfacts]
      trivial
    | ok facts =>
      cases hhere : identityBelongsHere plugin facts.spiffeId.asStr with
      | error e =>
        simp only [hfacts, hhere]
        trivial
      | ok u =>
        simp only [hfacts, hhere]
        refine .bind (timely_of_window (fun _ _ h => h.1) ?_) fun _ => trivial
        exact hsafe chain facts hread.2 hfacts hhere

/-- The whole pass: whatever else is found beside it, a certificate is adopted with a draw of its own. -/
theorem adopt_timely_iff {now : Int} {seen : String → Prop} :
    (adopt plugin).MakesIf (DrawnInPass fraction spread now seen) Timely ↔
      WindowSafe plugin fraction spread now seen := by
  constructor
  · intro h chain facts hseen hfacts hhere hlife
    have hpass := (h.2 now ⟨trivial, rfl⟩).2 [⟨"", "", ""⟩] ⟨trivial, trivial⟩
    have hadopt : (adoptOne plugin now ⟨"", "", ""⟩).MakesIf _ _ := Prog.MakesIf.of_bind hpass
    have hone := (hadopt.2 none ⟨trivial, trivial⟩).2 (.ok chain) ⟨trivial, hseen⟩
    simp only [Prog.bind, hfacts, hhere] at hone
    have hfound : (adoptFound plugin now ⟨"", "", ""⟩ facts).MakesIf
        (DrawnInPass fraction spread now seen) Timely := Prog.MakesIf.of_bind hone
    exact window_of_timely (fun _ _ _ h => ⟨h, trivial⟩) (fun _ h => ⟨h, trivial⟩) hlife hfound
  · intro hsafe
    refine Prog.makesIf_op_bind.mpr ⟨trivial, fun clock hclock => ?_⟩
    obtain rfl : clock = now := hclock.2
    refine .bind (Prog.Makes.makesIf (.of_op trivial)) fun found => ?_
    induction found with
    | nil => trivial
    | cons first rest ih => exact .bind (adoptOne_timely hsafe) fun _ => .bind ih fun _ => trivial

/-- **Deadlines come before expiry**, when publishing, when renewing, and when adopting a certificate
    that cannot be overdue or outlasts the start-up window; and a whole pass of adoption records
    nothing late exactly if each of the certificates it may read is like that. -/
theorem deadlines_precede_expiry_iff (plugin : Plugin E) (fraction : RenewFraction)
    (spread : UInt64) :
    (∀ req, (nodePublishVolume plugin req).run.MakesIf (Drawn fraction spread) Timely) ∧
    (renewDue plugin).MakesIf (Drawn fraction spread) Timely ∧
    (∀ now seen, (adopt plugin).MakesIf (DrawnInPass fraction spread now seen) Timely ↔
      WindowSafe plugin fraction spread now seen) ∧
    ∀ now found (facts : CertFacts), facts.notBefore < facts.notAfter → now < facts.notAfter →
      ((adoptFound plugin now found facts).MakesIf (Drawn fraction spread) Timely ↔
        now < renewPoint facts.notBefore facts.notAfter fraction 0 ∨
          now + windowEnd spread ≤ facts.notAfter) :=
  ⟨publish_timely, renewDue_timely, fun _ _ => adopt_timely_iff,
    fun _ _ _ hlife _ => adoptFound_timely_iff hlife⟩

end

def defaultFraction : RenewFraction := ⟨1 / 2, 7 / 10, by norm_num, by norm_num, by norm_num⟩

/-- A pass that finds the certificate of `oneScene` ten minutes before it expires, with a window of
    ten minutes; and a window of a minute for one with less than two minutes left. -/
theorem deadlines_precede_expiry_minute :
    (adopt onePlugin).MakesIf (DrawnInPass defaultFraction 600 4800 (· = "chain")) Timely ∧
    (adoptFound onePlugin 3500 ⟨"csi-1", "/pods/1/mount", "1"⟩ ⟨oneId, 0, 3600⟩).MakesIf
      (Drawn defaultFraction 60) Timely := by
  constructor
  · refine ((deadlines_precede_expiry_iff onePlugin defaultFraction 600).2.2.1 4800 _).mpr ?_
    rintro chain facts rfl hfacts - -
    obtain rfl : (⟨oneId, 1800, 5400⟩ : CertFacts) = facts := by
      have hread : onePlugin.reader.inspect "chain" = .ok ⟨oneId, 1800, 5400⟩ := rfl
      rw [hread] at hfacts
      exact Except.ok.inj hfacts
    exact .inr (by decide)
  · exact ((deadlines_precede_expiry_iff onePlugin defaultFraction 60).2.2.2 3500 _ ⟨oneId, 0, 3600⟩
      (by decide) (by decide)).mpr (.inr (by decide))

/-- The default window, and a certificate of an hour with less than two minutes left; and a pass that
    may read the like. -/
theorem window_passes_expiry :
    ((0 : Int) < 3600 ∧ (3500 : Int) < 3600 ∧
      ¬ (adoptFound onePlugin 3500 ⟨"csi-1", "/pods/1/mount", "1"⟩ ⟨oneId, 0, 3600⟩).MakesIf
        (Drawn defaultFraction 300) Timely) ∧
    ¬ (adopt onePlugin).MakesIf (DrawnInPass defaultFraction 300 5300 (· = "chain")) Timely := by
  have hfirst : ∀ notBefore, renewPoint notBefore (notBefore + 3600) defaultFraction 0
      = notBefore + 1800 := by
    intro notBefore
    norm_num [renewPoint, defaultFraction]
  refine ⟨⟨by decide, by decide, fun h => ?_⟩, fun h => ?_⟩
  · obtain hsoon | hwindow := (adoptFound_timely_iff (by decide)).mp h
    · exact absurd (hsoon.trans_eq (hfirst 0)) (by decide)
    · exact absurd hwindow (by decide)
  · obtain hsoon | hwindow := adopt_timely_iff.mp h "chain" ⟨oneId, 1800, 5400⟩ rfl rfl rfl (by decide)
    · exact absurd (hsoon.trans_eq (hfirst 1800)) (by decide)
    · exact absurd hwindow (by decide)

end Svidlet.Node
