import Svidlet.Node.Loops
import Svidlet.Policy.Manager
import Svidlet.Volume.Swap

/-!
# The policy daemon

`svidlet-policy` is a process of its own. It learns from the farm which volumes there are and from
each volume's certificate whose it is, follows those identities, and writes to every volume the bundle
the manager has for it. Its loop is a scan and a pass; in between the stream and the registry put
bundles into the manager.

The farm is svidlet's, and what is listed there is up to it. Parsing certificates is the reader's
business, as in the plugin. Of the metrics only the two that `apply` counts are kept, since they tell
whether a write has failed.
-/

namespace Svidlet.Policy

/-- The bundle to publish for an identity: its own, or the fleet's. -/
def PolicyManager.bundle (m : PolicyManager) (id : String) : Option PolicyBundle :=
  (m.bundles id).or m.fleet

end Svidlet.Policy

namespace Svidlet.Daemon

open Lib Issue Policy Volume

/-! ## 1. What the daemon knows -/

/-- The volumes of the node by target, in the order of the targets. -/
structure VolumeMap where
  entries : List (String × SpiffeId)
  once : (entries.map Prod.fst).Nodup
  deriving DecidableEq

namespace VolumeMap

def empty : VolumeMap := ⟨[], by simp⟩

/-- `BTreeMap::insert` -/
def insert (volumes : VolumeMap) (target : String) (id : SpiffeId) : VolumeMap where
  entries := (volumes.entries.filter (·.1 ≠ target)).orderedInsert (fun a b => a.1 ≤ b.1) (target, id)
  once := by
    have hperm := (List.perm_orderedInsert (fun a b : String × SpiffeId => a.1 ≤ b.1) (target, id)
      (volumes.entries.filter (·.1 ≠ target))).map Prod.fst
    rw [hperm.nodup_iff, List.map_cons, List.nodup_cons]
    refine ⟨?_, volumes.once.sublist (List.filter_sublist.map Prod.fst)⟩
    intro hin
    obtain ⟨entry, hentry, heq⟩ := List.mem_map.mp hin
    simp [heq] at hentry

def ids (volumes : VolumeMap) : List String := volumes.entries.map (·.2.asStr)

end VolumeMap

/-- The settings. The identity policy, the names of the fleet and the reader of certificates are
    those of the plugin. -/
structure Settings (E : RegexEngine) where
  plugin : Node.Plugin E
  fileMode : Nat
  enabled : Bool

/-! ## 2. The calls -/

inductive DaemonOp where
  /-- The entries of the farm that can be listed. -/
  | readFarm
  | volume (target : String) (op : FsOp ByteArray)
  | manager (op : ManagerOp)
  | bundle (id : String)
  | volumes
  /-- Put a new map in the place of the old one. -/
  | swapVolumes (found : VolumeMap)
  | addWritten
  | addFailure

@[reducible] def DaemonOp.Ans : DaemonOp → Type
  | .readFarm => Except IoError (List String)
  | .volume _ op => op.Ans
  | .manager op => op.Ans
  | .bundle _ => Option PolicyBundle
  | .volumes => VolumeMap
  | .swapVolumes _ => VolumeMap
  | _ => Unit

@[reducible] def DaemonSig : Sig := ⟨DaemonOp, DaemonOp.Ans⟩

def ask (o : DaemonOp) : Prog DaemonSig o.Ans := @Prog.op DaemonSig o

def onVolume {α : Type} (target : String) (p : Prog (FsSig ByteArray) α) : Prog DaemonSig α :=
  p.handle fun op => ask (.volume target op)

def onManager {α : Type} (p : Prog ManagerSig α) : Prog DaemonSig α :=
  p.handle fun op => ask (.manager op)

/-! ## 3. A scan -/

/-- `discover_exposed` -/
def discoverExposed : Prog DaemonSig (List String) := do
  match ← ask .readFarm with
  | .ok names => return names.insertionSort (· ≤ ·)
  | .error _ => return []

section

variable {E : RegexEngine} (settings : Settings E)

/-- The loop of a scan. -/
def scanEach : List String → VolumeMap → Prog DaemonSig VolumeMap
  | [], found => return found
  | target :: rest, found => do
    match ← onVolume target readCertChain.run with
    | .error _ => scanEach rest found
    | .ok chain =>
      match settings.plugin.reader.inspect chain with
      | .error _ => scanEach rest found
      | .ok facts =>
        -- an identity of another fleet is left alone
        match Node.identityBelongsHere settings.plugin facts.spiffeId.asStr with
        | .error _ => scanEach rest found
        | .ok () => scanEach rest (found.insert target facts.spiffeId)

def subscribeEach : List String → Prog DaemonSig Unit
  | [] => return ()
  | id :: rest => do
    onManager (Manager.subscribe settings.enabled id)
    subscribeEach rest

def unsubscribeEach : List String → Prog DaemonSig Unit
  | [] => return ()
  | id :: rest => do
    onManager (Manager.unsubscribe settings.enabled id)
    unsubscribeEach rest

/-- `Daemon::scan`: the identities that have appeared and those that are gone. -/
def scan : Prog DaemonSig (List String × List String) := do
  let targets ← discoverExposed
  let found ← scanEach settings targets .empty
  let old ← ask (.swapVolumes found)
  let appeared := found.ids.filter (· ∉ old.ids)
  let gone := old.ids.filter (· ∉ found.ids)
  subscribeEach settings appeared
  unsubscribeEach settings gone
  return (appeared, gone)

/-! ## 4. A pass -/

/-- The body of the loop: whether the volume was rewritten. -/
def applyTo (target : String) (id : SpiffeId) : Prog DaemonSig Bool := do
  match ← ask (.bundle id.asStr) with
  | none => return false
  | some bundle =>
    let published ← onVolume target publishedRevision
    if published = some bundle.revision then return false
    else
      match ← onVolume target (publishPolicy bundle settings.fileMode).run with
      | .ok () =>
        ask .addWritten
        return true
      | .error _ =>
        ask .addFailure
        return false

def applyEach : List (String × SpiffeId) → Nat → Prog DaemonSig Nat
  | [], written => return written
  | (target, id) :: rest, written => do
    if ← applyTo settings target id then applyEach rest (written + 1)
    else applyEach rest written

/-- `Daemon::apply`: write the policy each volume should hold, skipping the ones already current. -/
def apply : Prog DaemonSig Nat := do
  let volumes ← ask .volumes
  applyEach settings volumes.entries 0

/-! ## 5. What happens to the daemon -/

/-- One step of a history. -/
inductive Task where
  | scan
  | update (received : PolicyUpdate)
  /-- A bundle of the registry, read from a version's directory. -/
  | fleet (bundle : PolicyBundle) (plain : ∀ doc ∈ bundle.documents, PlainPath doc.name)
  | apply

def Task.body : Task → Prog DaemonSig Unit
  | .scan => Daemon.scan settings >>= fun _ => pure ()
  | .update received => onManager (Grpc.apply received)
  | .fleet bundle _ => onManager (Manager.applyFleet bundle) >>= fun _ => pure ()
  | .apply => Daemon.apply settings >>= fun _ => pure ()

end

/-! ## 6. The world -/

structure DaemonState where
  stream : StreamState
  /-- The volume behind each entry of the farm. -/
  disk : String → VolTree
  known : VolumeMap

namespace DaemonState

def withDisk (s : DaemonState) (target : String) (t : VolTree) : DaemonState :=
  { s with disk := Function.update s.disk target t }

def bundle (s : DaemonState) (id : SpiffeId) : Option PolicyBundle := s.stream.manager.bundle id.asStr

variable (s : DaemonState) (target : String) (t t' : VolTree)

@[simp] theorem withDisk_disk : (s.withDisk target t).disk target = t := by simp [withDisk]

theorem withDisk_other {x : String} (h : x ≠ target) : (s.withDisk target t).disk x = s.disk x := by
  simp [withDisk, h]

@[simp] theorem withDisk_twice : (s.withDisk target t).withDisk target t' = s.withDisk target t' := by
  simp [withDisk]

@[simp] theorem withDisk_self : s.withDisk target (s.disk target) = s := by simp [withDisk]

end DaemonState

/-- A call of the daemon: on a volume what the file system does, on the manager what it answers. -/
def DaemonOp.Does (may : FsOp ByteArray → Prop) :
    (o : DaemonOp) → DaemonState → o.Ans → DaemonState → Prop
  | .readFarm, s, _, s' => s' = s
  | .volume target op, s, ans, s' =>
    ∃ t, FileTree.Faulty may op (s.disk target) ans t ∧ s' = s.withDisk target t
  -- no program of the daemon waits for the manager
  | .manager op, s, ans, s' => ∃ m, (ans, m) = op.answer s.stream ∧ s' = { s with stream := m }
  | .bundle id, s, ans, s' => ans = s.stream.manager.bundle id ∧ s' = s
  | .volumes, s, ans, s' => ans = s.known ∧ s' = s
  | .swapVolumes found, s, ans, s' => ans = s.known ∧ s' = { s with known := found }
  | .addWritten, s, _, s' => s' = s
  | .addFailure, s, _, s' => s' = s

def daemonWorld (may : FsOp ByteArray → Prop) : World DaemonSig DaemonState :=
  fun (o : DaemonOp) s ans s' => o.Does may s ans s'

/-- What a call answers when nothing fails, and the state it leaves. -/
def DaemonOp.answer (farm : List String) : (o : DaemonOp) → DaemonState → o.Ans × DaemonState
  | .readFarm, s => (.ok farm, s)
  | .volume target op, s =>
    match (s.disk target).exec op with
    | (ans, t) => (ans, s.withDisk target t)
  | .manager op, s =>
    match op.answer s.stream with
    | (ans, m) => (ans, { s with stream := m })
  | .bundle id, s => (s.stream.manager.bundle id, s)
  | .volumes, s => (s.known, s)
  | .swapVolumes found, s => (s.known, { s with known := found })
  | .addWritten, s => ((), s)
  | .addFailure, s => ((), s)

theorem DaemonOp.answer_does (farm : List String) (may : FsOp ByteArray → Prop) (o : DaemonOp)
    (s : DaemonState) : daemonWorld may o s (o.answer farm s).1 (o.answer farm s).2 := by
  cases o with
  | volume target op =>
    exact ⟨_, .inl ⟨FileTree.SameAnswer.refl op _, rfl⟩, rfl⟩
  | manager op => exact ⟨_, rfl, rfl⟩
  | bundle id => exact ⟨rfl, rfl⟩
  | volumes => exact ⟨rfl, rfl⟩
  | swapVolumes found => exact ⟨rfl, rfl⟩
  | _ => exact rfl

end Svidlet.Daemon
