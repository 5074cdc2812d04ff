import Mathlib

/-!
# Rate limits

`svidlet-broker/src/limit.rs`. A `Window` counts events for a key in the last seconds, a `Distinct`
the different identities a node has asked for in the current hour. Each operation holds the
limiter's mutex from start to end; `allow` of a window is two of them.

Counters are 32 bits wide and times 64, and both wrap.
-/

namespace Svidlet.Broker

/-- A sliding-window counter per key: at most `limit` events in any `window` seconds. A limit of zero
    disables it. -/
structure Window where
  limit : Nat
  window : Int64
  events : String → Option (List Int64)

namespace Window

def new (limit : Nat) (window : Int64) : Window := ⟨limit, window, fun _ => none⟩

/-- Whether an event for `key` at `now` would fit, without recording it. Drops what is too old. -/
def check (w : Window) (key : String) (now : Int64) : Bool × Window :=
  if w.limit = 0 then (true, w)
  else
    match w.events key with
    | none => (true, w)
    | some q =>
      let kept := q.dropWhile fun t => t ≤ now - w.window
      (decide (kept.length % 2 ^ 32 < w.limit),
        { w with events := Function.update w.events key (some kept) })

/-- Record an event unconditionally. -/
def record (w : Window) (key : String) (now : Int64) : Window :=
  if w.limit = 0 then w
  else { w with events := Function.update w.events key (some ((w.events key).getD [] ++ [now])) }

/-- Record an event for `key` at `now` if it fits; `false` if it does not. -/
def allow (w : Window) (key : String) (now : Int64) : Bool × Window :=
  let (fits, w') := w.check key now
  if fits then (true, w'.record key now) else (false, w')

/-- Drop keys with no events in the window. -/
def sweep (w : Window) (now : Int64) : Window :=
  { w with events := fun key =>
      (w.events key).filter fun q => q.getLast?.any fun t => decide (now - w.window < t) }

end Window

/-- How many distinct identities one node asked for in the current window. -/
structure Distinct where
  limit : Nat
  window : Int64
  seen : String → Option (Int64 × List String)

namespace Distinct

def new (limit : Nat) (window : Int64) : Distinct := ⟨limit, window, fun _ => none⟩

/-- Whether `node` may obtain `identity`. One it already obtained in this window is always
    allowed. -/
def allow (d : Distinct) (node identity : String) (now : Int64) : Bool × Distinct :=
  if d.limit = 0 then (true, d)
  else
    let (start, set) := (d.seen node).getD (now, [])
    let (start, set) := if d.window ≤ now - start then (now, []) else (start, set)
    let answer := fun set' => { d with seen := Function.update d.seen node (some (start, set')) }
    if identity ∈ set then (true, answer set)
    else if d.limit ≤ set.length % 2 ^ 32 then (false, answer set)
    else (true, answer (identity :: set))

def sweep (d : Distinct) (now : Int64) : Distinct :=
  { d with seen := fun node => (d.seen node).filter fun entry => decide (now - entry.1 < d.window) }

end Distinct

end Svidlet.Broker
