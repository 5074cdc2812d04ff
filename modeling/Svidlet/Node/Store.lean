import Svidlet.Issue.Bundle
import Svidlet.Volume.Publish

/-!
# The store of published volumes

`store.rs`: one entry per target path, behind a mutex, so every operation is one step. The map is
a list of entries whose newest entry for a path counts; `get` is what the code can see of it, and
the lemmas of section 2 say how each operation changes `get`.
-/

namespace Svidlet.Node

open Lib Issue

/-- Which pod a volume belongs to. -/
structure PodRef where
  name : String
  ns : String
  uid : String
  serviceAccount : String
  deriving DecidableEq, Repr

/-- The pod-bound token the kubelet hands over on every publish. -/
abbrev PodToken := String

structure Entry where
  volumeId : String
  targetPath : String
  spiffeId : SpiffeId
  pod : PodRef
  notBefore : Int
  notAfter : Int
  renewAt : Int
  failures : Nat
  podToken : Option PodToken
  deriving DecidableEq

def Entry.isDue (e : Entry) (now : Int) : Bool := e.renewAt ≤ now

/-- `rand::range_i64`, of a random word. -/
def rangeI64 (low high : Int) (draw : UInt64) : Int :=
  if high ≤ low then low else low + (draw.toNat % ((high - low).toNat + 1) : Nat)

/-- How long the next attempt is put off after so many failures: 30 s doubled with every failure and
    capped at 10 min, give or take a quarter. -/
def backoffSecs (failures : Nat) (draw : UInt64) : Int :=
  let capped := min (30 * 2 ^ min failures 5) 600
  let spread := capped / 4
  rangeI64 (capped - spread) (capped + spread) draw

/-- The entries, at most one for a path. -/
abbrev Store := List Entry

namespace Store

/-! ## 1. Operations -/

def get (s : Store) (target : String) : Option Entry := s.find? fun e => e.targetPath = target

def remove (s : Store) (target : String) : Store := s.filter fun e => e.targetPath ≠ target

def insert (s : Store) (e : Entry) : Store := e :: s.remove e.targetPath

/-- `if let Some(entry) = self.lock().get_mut(target)` -/
def modify (s : Store) (target : String) (f : Entry → Entry) : Store :=
  s.map fun e => if e.targetPath = target then f e else e

def setPodToken (s : Store) (target : String) (token : Option PodToken) : Store :=
  s.modify target fun e => if token.isSome then { e with podToken := token } else e

def recordRenewal (s : Store) (target : String) (notBefore notAfter renewAt : Int) : Store :=
  s.modify target fun e =>
    { e with notBefore := notBefore, notAfter := notAfter, renewAt := renewAt, failures := 0 }

/-- `draw` is the random word the backoff is drawn with; the counter saturates. -/
def recordFailure (s : Store) (target : String) (now : Int) (draw : UInt64) : Store :=
  s.modify target fun e =>
    let failures := min (e.failures + 1) (2 ^ 32 - 1)
    { e with failures := failures, renewAt := now + backoffSecs failures draw }

/-- Entries due at `now`, oldest deadline first. -/
def due (s : Store) (now : Int) : List Entry :=
  (s.filter (·.isDue now)).insertionSort fun a b => a.renewAt ≤ b.renewAt

/-! ## 2. What each operation does to the entries for a path

`get` sees the first of them, and a pass over the store sees all. -/

/-- The entries for a path. -/
def entriesAt (s : Store) (target : String) : List Entry := s.filter fun e => e.targetPath = target

theorem mem_entriesAt {s : Store} {target : String} {e : Entry} :
    e ∈ s.entriesAt target ↔ e ∈ s ∧ e.targetPath = target := by
  simp [entriesAt]

theorem get_eq_head (s : Store) (target : String) : s.get target = (s.entriesAt target).head? := by
  simp [entriesAt, get, List.head?_filter]

theorem mem_of_get {s : Store} {target : String} {e : Entry} (h : s.get target = some e) :
    e ∈ s.entriesAt target := by
  rw [get_eq_head] at h
  exact List.mem_of_mem_head? h

theorem get_eq_none {s : Store} {target : String} : s.get target = none ↔ s.entriesAt target = [] := by
  rw [get_eq_head, List.head?_eq_none_iff]

theorem get_target {s : Store} {target : String} {e : Entry} (h : s.get target = some e) :
    e.targetPath = target :=
  (mem_entriesAt.mp (mem_of_get h)).2

theorem entriesAt_remove (s : Store) (target target' : String) :
    (s.remove target).entriesAt target' = if target = target' then [] else s.entriesAt target' := by
  unfold entriesAt remove
  rw [List.filter_filter]
  split
  · rename_i h
    subst h
    simp
  · rename_i h
    congr 1
    funext e
    by_cases he : e.targetPath = target'
    · simp [he, Ne.symm h]
    · simp [he]

theorem entriesAt_insert (s : Store) (e : Entry) (target : String) :
    (s.insert e).entriesAt target = if e.targetPath = target then [e] else s.entriesAt target := by
  show List.filter _ (e :: s.remove e.targetPath) = _
  have hrest := entriesAt_remove s e.targetPath target
  unfold entriesAt at hrest ⊢
  by_cases h : e.targetPath = target
  · rw [List.filter_cons_of_pos (by simpa using h), hrest, if_pos h, if_pos h]
  · rw [List.filter_cons_of_neg (by simpa using h), hrest, if_neg h, if_neg h]

/-- An update in place changes the entries for one path, and not their path. -/
theorem entriesAt_modify (s : Store) (target target' : String) {f : Entry → Entry}
    (hf : ∀ e, (f e).targetPath = e.targetPath) :
    (s.modify target f).entriesAt target'
      = if target = target' then (s.entriesAt target').map f else s.entriesAt target' := by
  have hkey : ∀ e : Entry, (if e.targetPath = target then f e else e).targetPath = e.targetPath := by
    intro e
    split
    · exact hf e
    · rfl
  unfold entriesAt modify
  rw [List.filter_map]
  have hsame : ((fun e : Entry => decide (e.targetPath = target')) ∘
      fun e => if e.targetPath = target then f e else e) = fun e => decide (e.targetPath = target') := by
    funext e
    simp only [Function.comp_apply, hkey]
  rw [hsame]
  split
  · rename_i h
    subst h
    exact List.map_congr_left fun e he => if_pos (by simpa using (List.mem_filter.mp he).2)
  · rename_i h
    refine (List.map_congr_left ?_).trans (List.map_id _)
    intro e he
    have hpath : e.targetPath = target' := by simpa using (List.mem_filter.mp he).2
    exact if_neg fun heq => h (heq.symm.trans hpath)

theorem get_remove (s : Store) (target target' : String) :
    (s.remove target).get target' = if target = target' then none else s.get target' := by
  rw [get_eq_head, entriesAt_remove, get_eq_head]
  split <;> rfl

theorem get_insert (s : Store) (e : Entry) (target : String) :
    (s.insert e).get target = if e.targetPath = target then some e else s.get target := by
  rw [get_eq_head, entriesAt_insert, get_eq_head]
  split <;> rfl

theorem get_modify (s : Store) (target target' : String) {f : Entry → Entry}
    (hf : ∀ e, (f e).targetPath = e.targetPath) :
    (s.modify target f).get target'
      = if target = target' then (s.get target').map f else s.get target' := by
  rw [get_eq_head, entriesAt_modify s target target' hf, get_eq_head]
  split
  · exact List.head?_map
  · rfl

theorem get_setPodToken (s : Store) (target : String) (token : Option PodToken) :
    (s.setPodToken target token).get target = (s.get target).map fun e =>
      if token.isSome then { e with podToken := token } else e := by
  refine (get_modify s target target ?_).trans (if_pos rfl)
  intro e
  split <;> rfl

theorem get_recordRenewal (s : Store) (target : String) (notBefore notAfter renewAt : Int) :
    (s.recordRenewal target notBefore notAfter renewAt).get target = (s.get target).map fun e =>
      { e with notBefore := notBefore, notAfter := notAfter, renewAt := renewAt, failures := 0 } := by
  refine (get_modify s target target ?_).trans (if_pos rfl)
  exact fun _ => rfl

theorem get_recordFailure (s : Store) (target : String) (now : Int) (draw : UInt64) :
    (s.recordFailure target now draw).get target = (s.get target).map fun e =>
      let failures := min (e.failures + 1) (2 ^ 32 - 1)
      { e with failures := failures, renewAt := now + backoffSecs failures draw } := by
  refine (get_modify s target target ?_).trans (if_pos rfl)
  exact fun _ => rfl

theorem due_sorted (s : Store) (now : Int) :
    (s.due now).Pairwise fun a b => a.renewAt ≤ b.renewAt := by
  have htotal : Std.Total fun a b : Entry => a.renewAt ≤ b.renewAt :=
    ⟨fun a b => le_total a.renewAt b.renewAt⟩
  have htrans : IsTrans Entry fun a b => a.renewAt ≤ b.renewAt := ⟨fun _ _ _ => le_trans⟩
  exact List.pairwise_insertionSort _ _

end Store

end Svidlet.Node
