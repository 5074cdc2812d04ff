import Svidlet.Node.Deadlines

/-!
# Upkeep of the store

What happens to entries between calls of the kubelet. A renewal that fails is put off: after any
run of failures the next attempt is **45 to 750 seconds** away. A pass of the reaper leaves
**exactly** the entries whose target is there, and takes from the exposure farm at most what it had
for the others. A pod's directory that the kubelet has removed without an unpublish is how an
entry comes to be an orphan.
-/

namespace Svidlet.Node

open Lib Issue

/-! ## 1. Failures -/

theorem rangeI64_mem {low high : Int} (h : low ≤ high) (draw : UInt64) :
    low ≤ rangeI64 low high draw ∧ rangeI64 low high draw ≤ high := by
  unfold rangeI64
  split
  · omega
  · have hdrawn := Nat.mod_lt draw.toNat (by omega : 0 < (high - low).toNat + 1)
    omega

theorem backoffSecs_mem {failures : Nat} (h : 0 < failures) (draw : UInt64) :
    45 ≤ backoffSecs failures draw ∧ backoffSecs failures draw ≤ 750 := by
  have hpow : (2 : Int) ^ 1 ≤ 2 ^ min failures 5 := pow_le_pow_right₀ (by decide) (by omega)
  obtain ⟨capped, hcapped⟩ : ∃ capped : Int, min (30 * 2 ^ min failures 5) 600 = capped := ⟨_, rfl⟩
  have hdrawn := rangeI64_mem (by omega : capped - capped / 4 ≤ capped + capped / 4) draw
  simp only [backoffSecs, hcapped]
  omega

variable (s : Store) (target : String) (now : Int) (draw : UInt64)

/-- **Failures back off**: an entry counts all of them, and waits within bounds after the last. What
    `Store::record_failure` does is what a failed renewal does to the store of a node (`nodeWorld`), with
    whatever random word it draws. -/
theorem failures_back_off (earlier : List (Int × UInt64)) :
    (∀ n, 0 < n → 45 ≤ backoffSecs n draw ∧ backoffSecs n draw ≤ 750) ∧
      ((earlier.foldl (fun s f => s.recordFailure target f.1 f.2) s).recordFailure target now draw).get
          target =
        (s.get target).map fun e =>
          let failures := min (e.failures + earlier.length + 1) (2 ^ 32 - 1)
          { e with failures := failures, renewAt := now + backoffSecs failures draw } := by
  refine ⟨fun n hn => backoffSecs_mem hn draw, ?_⟩
  induction earlier generalizing s with
  | nil => exact s.get_recordFailure target now draw
  | cons f rest ih =>
    rw [List.foldl_cons, ih, Store.get_recordFailure, Option.map_map]
    refine Option.map_congr ?_
    intro e _
    have hcount : min (min (e.failures + 1) (2 ^ 32 - 1) + rest.length + 1) (2 ^ 32 - 1) =
        min (e.failures + (rest.length + 1) + 1) (2 ^ 32 - 1) := by omega
    simp only [Function.comp_apply, List.length_cons, hcount]

/-! ## 2. The reaper -/

variable {E : RegexEngine} (plugin : Plugin E) {s : NodeState}

/-- The target of this entry is gone. -/
def gone (volumes : String → Option VolumeState) (entry : Entry) : Bool :=
  (volumes entry.targetPath).isNone

/-- The farm has lost none but some of these names, and has gained nothing. -/
def Unexposed (names : String → Prop) (farm farm' : String → Option String) : Prop :=
  ∀ name, farm' name = farm name ∨ farm' name = none ∧ names name

/-- The farm names of the entries whose target is gone; there is a farm only with a policy group. -/
def goneNames (entries : List Entry) (volumes : String → Option VolumeState) (name : String) : Prop :=
  plugin.cfg.policyGid.isSome ∧
    ∃ entry ∈ entries, gone volumes entry ∧ name = farmName entry.volumeId

theorem unexposeVolume_spec (volumeId : String) :
    wp nodeWorld (fun _ s' => ∃ farm, s' = { s with farm := farm } ∧ Unexposed (fun name =>
      plugin.cfg.policyGid.isSome ∧ name = farmName volumeId) s.farm farm)
      (unexposeVolume plugin volumeId) s := by
  unfold unexposeVolume
  split
  case isFalse => exact ⟨s.farm, rfl, fun _ => .inl rfl⟩
  case isTrue hgid =>
    rintro ans s' (rfl | ⟨-, rfl⟩)
    · refine ⟨_, rfl, fun name => ?_⟩
      by_cases hname : name = farmName volumeId
      · subst hname
        exact .inr ⟨Function.update_self .., hgid, rfl⟩
      · exact .inl (Function.update_of_ne hname ..)
    · exact ⟨s'.farm, rfl, fun _ => .inl rfl⟩

theorem reapOne_spec (entry : Entry) :
    wp nodeWorld (fun reaped s' => reaped = gone s.volumes entry ∧ ∃ farm,
      s' = { s with
        store := if gone s.volumes entry then s.store.remove entry.targetPath else s.store
        farm := farm } ∧ Unexposed (goneNames plugin [entry] s.volumes) s.farm farm)
      (reapOne plugin entry) s := by
  rintro there s1 ⟨rfl, rfl⟩
  cases hgone : gone s1.volumes entry with
  | false =>
    have hthere : (s1.volumes entry.targetPath).isSome := by simpa [gone] using hgone
    rw [hthere]
    exact ⟨rfl, s1.farm, by simp, fun _ => .inl rfl⟩
  | true =>
    have hnone : s1.volumes entry.targetPath = none := by simpa [gone] using hgone
    rw [hnone]
    rintro found s2 ⟨-, rfl⟩
    refine wp_bind_of (p := unexposeVolume plugin _) (unexposeVolume_spec plugin _) ?_
    rintro _ s3 ⟨farm, rfl, hfarm⟩ ans s4 hun
    refine ⟨rfl, farm, ?_, ?_⟩
    · -- nothing is there to be unpublished, so a failure leaves nothing either
      rcases hun with rfl | ⟨_, v, v', hsome, _⟩
      · simp [NodeState.setVolume, ← hnone]
      · exact absurd (hnone.symm.trans hsome) (by simp)
    · intro name
      refine (hfarm name).imp_right (And.imp_right ?_)
      rintro ⟨hgid, rfl⟩
      exact ⟨hgid, entry, List.mem_singleton_self entry, hgone, rfl⟩

theorem Unexposed.trans {names : String → Prop} {a b c : String → Option String}
    (hab : Unexposed names a b) (hbc : Unexposed names b c) : Unexposed names a c := by
  intro name
  rcases hbc name with hc | hc
  · rw [hc]
    exact hab name
  · exact .inr hc

theorem Unexposed.mono {names names' : String → Prop} {a b : String → Option String}
    (hab : Unexposed names a b) (h : ∀ name, names name → names' name) : Unexposed names' a b :=
  fun name => (hab name).imp_right (And.imp_right (h name))

theorem reapEach_spec (entries : List Entry) :
    wp nodeWorld (fun n s' => n = entries.countP (gone s.volumes) ∧ ∃ farm, s' = { s with
      store := s.store.filter fun e =>
        ∀ entry ∈ entries, gone s.volumes entry → e.targetPath ≠ entry.targetPath
      farm := farm } ∧ Unexposed (goneNames plugin entries s.volumes) s.farm farm)
      (reapEach plugin entries) s := by
  induction entries generalizing s with
  | nil => exact ⟨rfl, s.farm, by simp, fun _ => .inl rfl⟩
  | cons entry rest ih =>
    unfold reapEach
    refine wp_bind_of (reapOne_spec plugin entry) ?_
    rintro reaped s1 ⟨rfl, farm1, rfl, hfarm1⟩
    refine wp_bind_of ih ?_
    rintro n s2 ⟨rfl, farm2, rfl, hfarm2⟩
    refine ⟨?_, farm2, ?_, .trans (hfarm1.mono ?_) (hfarm2.mono ?_)⟩
    · cases hgone : gone s.volumes entry with
      | false => simp [hgone]
      | true => simp [hgone]
    · cases hgone : gone s.volumes entry with
      | false => simp [hgone]
      | true => simp [hgone, Store.remove, Bool.and_comm]
    · rintro name ⟨hgid, e, he, hname⟩
      exact ⟨hgid, e, List.mem_cons.mpr (.inl (List.mem_singleton.mp he)), hname⟩
    · rintro name ⟨hgid, e, he, hname⟩
      exact ⟨hgid, e, List.mem_cons_of_mem entry he, hname⟩

/-- **A pass of the reaper leaves exactly the entries whose target is there.** Volumes and the cached
    bundle stay as they are, and from the farm nothing goes but the names of the entries dropped: a
    name whose `unexpose` fails stays, since nobody looks at the answer. -/
theorem reaper_leaves_the_present (s : NodeState) :
    wp nodeWorld (fun n s' => n = s.store.countP (gone s.volumes) ∧ ∃ farm,
      s' = { s with store := s.store.filter (fun e => !gone s.volumes e), farm := farm } ∧
        Unexposed (goneNames plugin s.store s.volumes) s.farm farm) (reapOrphans plugin) s := by
  rintro entries s1 ⟨hperm, rfl⟩
  refine wp_mono ?_ (reapEach_spec plugin entries)
  rintro n s2 ⟨rfl, farm, rfl, hfarm⟩
  have hkept : ∀ e ∈ s1.store, decide (∀ entry ∈ entries, gone s1.volumes entry →
      e.targetPath ≠ entry.targetPath) = !gone s1.volumes e := by
    intro e he
    have hmem : e ∈ entries := hperm.mem_iff.mpr he
    cases hgone : gone s1.volumes e with
    | true => simpa using ⟨e, hmem, hgone, rfl⟩
    | false =>
      simp only [Bool.not_false, decide_eq_true_eq]
      rintro entry - hentry htarget
      rw [gone, htarget] at hgone
      cases hentry.symm.trans hgone
  rw [hperm.countP_eq, List.filter_congr hkept]
  refine ⟨rfl, farm, rfl, hfarm.mono ?_⟩
  rintro name ⟨hgid, e, he, hname⟩
  exact ⟨hgid, e, hperm.mem_iff.mp he, hname⟩

end Svidlet.Node
