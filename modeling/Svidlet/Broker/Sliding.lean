import Svidlet.Broker.Limit
import Svidlet.Lib.Trail

/-!
# The window is exact

`limit.rs` calls its window "simple and exact". It keeps a queue of times for a key. A check drops from
the front what is too old, a record adds at the back, and a sweep drops whole queues; and a check answers from
the length of what is left.

> **The queue trails the log**: it is the list of all events that were ever recorded for the key, less
> some that were in front, and these are too old to count.

That is kept by every call on any key, and it is enough: where times do not decrease the log is in
order, so what a check leaves of the queue is what the log has in the window.

Everything is said about the integers that the times stand for. The arithmetic of the source wraps,
so the cut of a check, `now - window`, is what that wraps to; the theorem is about histories in which it
does not.
-/

namespace Svidlet.Broker

open Lib

/-! ## 1. Queues of integers -/

namespace Window

variable (w : Window) (key : String) (now : Int64)

/-- The recorded times, as integers. -/
def times (w : Window) (key : String) : List Int := ((w.events key).getD []).map Int64.toInt

/-- What is not after this is too old. -/
def cut (w : Window) (now : Int64) : Int := (now - w.window).toInt

@[simp] theorem check_limit : (w.check key now).2.limit = w.limit := by
  unfold check
  split
  · rfl
  · split <;> rfl

@[simp] theorem check_window : (w.check key now).2.window = w.window := by
  unfold check
  split
  · rfl
  · split <;> rfl

@[simp] theorem record_limit : (w.record key now).limit = w.limit := by
  unfold record
  split <;> rfl

@[simp] theorem record_window : (w.record key now).window = w.window := by
  unfold record
  split <;> rfl

variable {w key now}

theorem times_update {w' : Window} {q : List Int64}
    (h : w'.events = Function.update w.events key (some q)) :
    w'.times = Function.update w.times key (q.map Int64.toInt) := by
  funext key'
  by_cases hkey : key' = key
  · subst hkey
    simp [times, h]
  · simp [times, h, hkey]

theorem map_dropWhile_cut (q : List Int64) :
    (q.dropWhile fun t => decide (t ≤ now - w.window)).map Int64.toInt
      = (q.map Int64.toInt).dropWhile fun t => t ≤ w.cut now := by
  rw [List.dropWhile_map]
  refine congrArg (List.map _ ∘ (List.dropWhile · q)) (funext fun t => ?_)
  simp [cut, Int64.le_iff_toInt_le]

/-- A check answers from what it leaves of the queue. A key without a queue is as one with an empty
    queue. -/
theorem check_fst (hpos : w.limit ≠ 0) : (w.check key now).1 =
    decide (((w.times key).dropWhile fun t => t ≤ w.cut now).length % 2 ^ 32 < w.limit) := by
  unfold check times
  rw [if_neg hpos]
  cases w.events key with
  | none => simpa using Nat.pos_of_ne_zero hpos
  | some q => simp [← map_dropWhile_cut]

theorem times_check (hpos : w.limit ≠ 0) : (w.check key now).2.times =
    Function.update w.times key ((w.times key).dropWhile fun t => t ≤ w.cut now) := by
  unfold check
  rw [if_neg hpos]
  cases hq : w.events key with
  | none =>
    have hempty : w.times key = [] := by simp [times, hq]
    rw [hempty]
    exact (Function.update_eq_self_iff.mpr (by simpa using hempty.symm)).symm
  | some q =>
    have htimes : w.times key = q.map Int64.toInt := by simp [times, hq]
    rw [htimes, ← map_dropWhile_cut]
    exact times_update rfl

theorem times_record (hpos : w.limit ≠ 0) : (w.record key now).times =
    Function.update w.times key (w.times key ++ [now.toInt]) := by
  unfold record
  rw [if_neg hpos, times_update rfl, List.map_append]
  rfl

theorem times_sweep : (w.sweep now).times key =
    if (w.times key).getLast?.any (fun t => w.cut now < t) then w.times key else [] := by
  unfold sweep times
  cases hq : w.events key with
  | none => simp [hq]
  | some q =>
    have hlast : (q.map Int64.toInt).getLast?.any (fun t => w.cut now < t)
        = q.getLast?.any fun t => decide (now - w.window < t) := by
      rw [List.getLast?_map, Option.any_map]
      simp [cut, Int64.lt_iff_toInt_lt]
    simp only [hq, Option.getD_some, Option.filter_some, hlast]
    split <;> rfl

end Window

/-! ## 2. Calls and events -/

inductive WindowCall where
  | check (key : String) (now : Int64)
  | record (key : String) (now : Int64)
  | allow (key : String) (now : Int64)
  | sweep (now : Int64)

def WindowCall.now : WindowCall → Int64
  | .check _ now | .record _ now | .allow _ now | .sweep now => now

/-- Going back by a window from this time does not wrap. -/
def Reaches (window now : Int64) : Prop := (now - window).toInt = now.toInt - window.toInt

instance (window now : Int64) : Decidable (Reaches window now) := inferInstanceAs (Decidable (_ = _))

/-- No time that the call computes wraps. A record computes none. -/
def WindowCall.InRange (window : Int64) : WindowCall → Prop
  | .check _ now | .allow _ now | .sweep now => Reaches window now
  | .record _ _ => True

instance (window : Int64) (call : WindowCall) : Decidable (call.InRange window) :=
  match call with
  | .check _ now | .allow _ now | .sweep now => inferInstanceAs (Decidable (Reaches window now))
  | .record _ _ => inferInstanceAs (Decidable True)

/-- The times recorded for a key. -/
def timesOf (key : String) (log : List (String × Int64)) : List Int :=
  (log.filter fun e => e.1 = key).map fun e => e.2.toInt

@[simp] theorem timesOf_append (key : String) (log log' : List (String × Int64)) :
    timesOf key (log ++ log') = timesOf key log ++ timesOf key log' := by
  simp [timesOf]

theorem timesOf_singleton (key key' : String) (now : Int64) :
    timesOf key [(key', now)] = if key' = key then [now.toInt] else [] := by
  unfold timesOf
  by_cases hkey : key' = key
  · simp [hkey]
  · simp [hkey]

theorem timesOf_length_le (key : String) (log : List (String × Int64)) :
    (timesOf key log).length ≤ log.length := by
  rw [timesOf, List.length_map]
  exact List.length_filter_le _ _

namespace Window

/-- One call, and the events it records. -/
def serve (w : Window) : WindowCall → List (String × Int64) × Window
  | .check key now => ([], (w.check key now).2)
  | .record key now => ([(key, now)], w.record key now)
  | .allow key now =>
    let (allowed, w') := w.allow key now
    (if allowed then [(key, now)] else [], w')
  | .sweep now => ([], w.sweep now)

/-- The log, and the window, after some calls. -/
def after (w : Window) (calls : List WindowCall) : List (String × Int64) × Window :=
  calls.foldl (fun run call => (run.1 ++ (run.2.serve call).1, (run.2.serve call).2)) ([], w)

theorem after_snoc (w : Window) (calls : List WindowCall) (call : WindowCall) :
    w.after (calls ++ [call]) =
      ((w.after calls).1 ++ ((w.after calls).2.serve call).1, ((w.after calls).2.serve call).2) := by
  unfold after
  rw [List.foldl_append]
  rfl

theorem serve_limit (w : Window) (call : WindowCall) : (w.serve call).2.limit = w.limit := by
  cases call with
  | check key now => exact check_limit w key now
  | record key now => exact record_limit w key now
  | allow key now =>
    simp only [serve, allow]
    split
    · simp
    · simp
  | sweep now => rfl

theorem after_limit (w : Window) (calls : List WindowCall) : (w.after calls).2.limit = w.limit := by
  induction calls using List.reverseRecOn with
  | nil => rfl
  | append_singleton calls call ih => rw [after_snoc, serve_limit, ih]

end Window

/-! ## 3. The queue trails the log -/

structure Counted (limit : Nat) (window : Int64) (clock : Int) (log : List (String × Int64))
    (w : Window) : Prop where
  limit_eq : w.limit = limit
  window_eq : w.window = window
  sorted : ∀ key, (timesOf key log).Pairwise (· ≤ ·)
  past : ∀ key, ∀ t ∈ timesOf key log, t ≤ clock
  trails : ∀ key, Trails (clock - window.toInt) (timesOf key log) (w.times key)

section

variable {limit : Nat} {window : Int64} {clock : Int} {log : List (String × Int64)} {w : Window}
  {key : String} {now : Int64}

theorem Counted.later {clock' : Int} (h : Counted limit window clock log w) (hle : clock ≤ clock') :
    Counted limit window clock' log w :=
  ⟨h.limit_eq, h.window_eq, h.sorted, fun key t ht => Int.le_trans (h.past key t ht) hle,
    fun key => (h.trails key).mono (Int.sub_le_sub_right hle _)⟩

theorem Counted.cut_eq (h : Counted limit window clock log w) (hreach : Reaches window now) :
    w.cut now = now.toInt - window.toInt := by
  rw [Window.cut, h.window_eq]
  exact hreach

/-- **What a check leaves of a queue is what the log has in the window.** -/
theorem Counted.kept (h : Counted limit window now.toInt log w) (hreach : Reaches window now) :
    (w.times key).dropWhile (fun t => t ≤ w.cut now) =
      (timesOf key log).filter fun t => now.toInt - window.toInt < t := by
  rw [h.cut_eq hreach, (h.trails key).filter_eq (Int.le_refl _),
    filter_eq_dropWhile ((h.trails key).sorted (h.sorted key))]

theorem Counted.check (hpos : limit ≠ 0) (h : Counted limit window now.toInt log w)
    (hreach : Reaches window now) : Counted limit window now.toInt log (w.check key now).2 := by
  refine ⟨by simp [h.limit_eq], by simp [h.window_eq], h.sorted, h.past, ?_⟩
  intro key'
  rw [Window.times_check (h.limit_eq ▸ hpos)]
  by_cases hkey : key' = key
  · subst hkey
    rw [Function.update_self, h.cut_eq hreach]
    exact (h.trails _).expire
  · rw [Function.update_of_ne hkey]
    exact h.trails key'

theorem Counted.record (hpos : limit ≠ 0) (h : Counted limit window now.toInt log w) :
    Counted limit window now.toInt (log ++ [(key, now)]) (w.record key now) := by
  have hother : ∀ key', key' ≠ key → timesOf key' (log ++ [(key, now)]) = timesOf key' log := by
    intro key' hkey
    rw [timesOf_append, timesOf_singleton, if_neg (Ne.symm hkey), List.append_nil]
  have hsame : timesOf key (log ++ [(key, now)]) = timesOf key log ++ [now.toInt] := by
    rw [timesOf_append, timesOf_singleton, if_pos rfl]
  refine ⟨by simp [h.limit_eq], by simp [h.window_eq], ?_, ?_, ?_⟩
  · intro key'
    by_cases hkey : key' = key
    · rw [hkey, hsame, List.pairwise_append]
      refine ⟨h.sorted key, List.pairwise_singleton _ _, ?_⟩
      intro t ht t' ht'
      rw [List.mem_singleton.mp ht']
      exact h.past key t ht
    · rw [hother key' hkey]
      exact h.sorted key'
  · intro key' t ht
    by_cases hkey : key' = key
    · rw [hkey, hsame] at ht
      rcases List.mem_append.mp ht with ht | ht
      · exact h.past key t ht
      · exact Int.le_of_eq (List.mem_singleton.mp ht)
    · rw [hother key' hkey] at ht
      exact h.past key' t ht
  · intro key'
    rw [Window.times_record (h.limit_eq ▸ hpos)]
    by_cases hkey : key' = key
    · subst hkey
      rw [hsame, Function.update_self]
      exact (h.trails _).push _
    · rw [hother key' hkey, Function.update_of_ne hkey]
      exact h.trails key'

/-- A queue is in order, so one whose last event is old has only old ones. -/
theorem Counted.sweep (h : Counted limit window now.toInt log w) (hreach : Reaches window now) :
    Counted limit window now.toInt log (w.sweep now) := by
  refine ⟨h.limit_eq, h.window_eq, h.sorted, h.past, ?_⟩
  intro key
  rw [Window.times_sweep, h.cut_eq hreach]
  split
  · exact h.trails key
  · rename_i hlast
    rw [Bool.not_eq_true] at hlast
    exact (h.trails key).clear (le_of_getLast_any ((h.trails key).sorted (h.sorted key)) hlast)

/-- **One call.** -/
theorem Counted.serve {call : WindowCall} (hpos : limit ≠ 0)
    (h : Counted limit window call.now.toInt log w) (hreach : call.InRange window) :
    Counted limit window call.now.toInt (log ++ (w.serve call).1) (w.serve call).2 := by
  cases call with
  | check key now =>
    simp only [Window.serve, List.append_nil]
    exact h.check hpos hreach
  | record key now => exact h.record hpos
  | allow key now =>
    have hchecked : Counted limit window now.toInt log (w.check key now).2 := h.check hpos hreach
    simp only [Window.serve, Window.allow]
    by_cases hfits : (w.check key now).1 = true
    · simp only [if_pos hfits, if_true]
      exact hchecked.record hpos
    · simp only [if_neg hfits, Bool.false_eq_true, if_false, List.append_nil]
      exact hchecked
  | sweep now =>
    simp only [Window.serve, List.append_nil]
    exact h.sweep hreach

end

/-! ## 4. Histories -/

theorem after_counted {limit : Nat} {window : Int64} {calls : List WindowCall} (hpos : limit ≠ 0)
    (htimes : (calls.map fun call => call.now.toInt).Pairwise (· ≤ ·))
    (hreach : ∀ call ∈ calls, call.InRange window) :
    ∀ clock, (∀ call ∈ calls, call.now.toInt ≤ clock) →
      Counted limit window clock ((Window.new limit window).after calls).1
        ((Window.new limit window).after calls).2 := by
  induction calls using List.reverseRecOn with
  | nil =>
    intro clock _
    exact ⟨rfl, rfl, fun _ => .nil, fun _ => nofun, fun _ => Trails.refl _ _⟩
  | append_singleton calls call ih =>
    intro clock hclock
    rw [List.map_append, List.pairwise_append] at htimes
    obtain ⟨hsorted, _, hlast⟩ := htimes
    have hbefore : ∀ c ∈ calls, c.now.toInt ≤ call.now.toInt := fun c hc =>
      hlast _ (List.mem_map_of_mem hc) _ (List.mem_singleton_self _)
    have hcounted := ih hsorted (fun c hc => hreach c (List.mem_append_left _ hc)) _ hbefore
    have hstep := hcounted.serve hpos (hreach call (by simp))
    rw [Window.after_snoc]
    exact hstep.later (hclock call (by simp))

/-- **The window is exact.** After any calls on any keys, in the order of their times, a check passes
    exactly when there is no limit or fewer events than that were recorded for the key in the window. -/
theorem check_counts_the_window (limit : Nat) (window : Int64) (calls : List WindowCall) (key : String)
    (now : Int64)
    (htimes : ((calls ++ [WindowCall.check key now]).map fun call => call.now.toInt).Pairwise (· ≤ ·))
    (hreach : ∀ call ∈ calls ++ [.check key now], call.InRange window)
    (hfew : ((Window.new limit window).after calls).1.length < 2 ^ 32) :
    (((Window.new limit window).after calls).2.check key now).1 = true ↔
      limit = 0 ∨ ((timesOf key ((Window.new limit window).after calls).1).filter fun t =>
        now.toInt - window.toInt < t ∧ t ≤ now.toInt).length < limit := by
  by_cases hpos : limit = 0
  · have hlimit : ((Window.new limit window).after calls).2.limit = 0 := by
      rw [Window.after_limit]
      exact hpos
    rw [Window.check, if_pos hlimit]
    exact ⟨fun _ => .inl hpos, fun _ => rfl⟩
  rw [List.map_append, List.pairwise_append] at htimes
  obtain ⟨hsorted, _, hlast⟩ := htimes
  have hbefore : ∀ call ∈ calls, call.now.toInt ≤ now.toInt := fun call hcall =>
    hlast _ (List.mem_map_of_mem hcall) _ (List.mem_singleton_self _)
  have hcounted := after_counted hpos hsorted
    (fun call hcall => hreach call (List.mem_append_left _ hcall)) now.toInt hbefore
  -- nothing in the log is after now
  have hpast : (timesOf key ((Window.new limit window).after calls).1).filter
        (fun t => now.toInt - window.toInt < t ∧ t ≤ now.toInt) =
      (timesOf key ((Window.new limit window).after calls).1).filter
        (fun t => now.toInt - window.toInt < t) := by
    refine List.filter_congr fun t ht => ?_
    simp [hcounted.past key t ht]
  have hkept : (((Window.new limit window).after calls).2.times key).dropWhile _ = _ :=
    hcounted.kept (hreach (.check key now) (by simp))
  have hsmall : ((timesOf key ((Window.new limit window).after calls).1).filter
      fun t => now.toInt - window.toInt < t).length < 2 ^ 32 :=
    Nat.lt_of_le_of_lt (Nat.le_trans (List.length_filter_le _ _) (timesOf_length_le _ _)) hfew
  rw [Window.check_fst (by rw [hcounted.limit_eq]; exact hpos), hkept, hcounted.limit_eq,
    Nat.mod_eq_of_lt hsmall, hpast, decide_eq_true_eq]
  simp [hpos]

/-- Two events a minute. The first is too old, a sweep and another key come between, and there is room
    for one more. -/
def slidingCalls : List WindowCall :=
  [.record "k" 0, .allow "k" 30, .allow "k" 40, .allow "j" 50, .sweep 60]

theorem check_counts_the_window_sliding :
    timesOf "k" ((Window.new 2 60).after slidingCalls).1 = [0, 30] ∧
      (((Window.new 2 60).after slidingCalls).2.check "k" 60).1 = true := by
  have hlog : timesOf "k" ((Window.new 2 60).after slidingCalls).1 = [0, 30] := by decide
  refine ⟨hlog, ?_⟩
  rw [check_counts_the_window 2 60 slidingCalls "k" 60 (by decide) (by decide) (by decide), hlog]
  decide

end Svidlet.Broker
