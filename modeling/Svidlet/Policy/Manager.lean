import Svidlet.Lib.Pool
import Svidlet.Policy.Store

/-!
# The policy manager and the stream that feeds it

`svidlet/src/policy/mod.rs` and the part of `grpc.rs` that is not transport. The manager is a set of
wanted identities, the bundles received for them, a fleet bundle, and two `Notify`s; each section
under its lock is one call here, and everything between two locks may be interleaved.

> `subscribe`    lock { insert }                       notify
> `unsubscribe`  lock { remove, forget the bundle }    lock { dirty }    notify
> the sync task  lock { read }    send …    wait to be notified    and again

**Waiting.** `notify_waiters` wakes the `notified()` futures that exist, and stores nothing for those
to come. So a `Notify` is the number of times it has been notified, a future is the number it was
created at, and it is ready once the number is higher. `wanted_changed()` is an `async fn`: its body,
where the future is created, runs when it is first polled, which is at `changed.await`.

The sync task loops for as long as its stream lives. It is bounded here by a number of rounds, and
every statement about it holds for any number.
-/

namespace Svidlet.Policy

open Lib

/-! ## 1. Bundles from the stream -/

/-- `check_document_name` -/
def checkDocumentName (name : String) : Except String Unit :=
  if name = "" then .error "policy document has an empty name"
  else if name = "." ∨ name = ".." then
    .error ("policy document name " ++ debugStr name ++ " is not a file name")
  else if '/' ∈ name.toList ∨ '\\' ∈ name.toList ∨ '\x00' ∈ name.toList then
    .error ("policy document name " ++ debugStr name ++ " contains a path separator")
  else if startsWith name "." then
    .error ("policy document name " ++ debugStr name ++ " may not start with a dot")
  else .ok ()

namespace PolicyBundle

/-- The loop of `build`; `byName` is the map, in the order of its keys. -/
def collect : List PolicyDocument → List PolicyDocument → Except String (List PolicyDocument)
  | [], byName => .ok byName
  | doc :: rest, byName => do
    checkDocumentName doc.name
    if byName.any (·.name == doc.name) then
      .error ("bundle contains " ++ debugStr doc.name ++ " twice")
    else collect rest (byName.orderedInsert (fun a b => a.name ≤ b.name) doc)

/-- `PolicyBundle::build` -/
def build (revision : String) (documents : List PolicyDocument) : Except String PolicyBundle := do
  let byName ← collect documents []
  return ⟨revision, byName⟩

def isEmpty (bundle : PolicyBundle) : Bool := bundle.documents.isEmpty

end PolicyBundle

/-! ## 2. The calls -/

/-- What the manager keeps. The counters of the metrics are left out. -/
structure PolicyManager where
  /-- A set, in order. -/
  wanted : List String
  bundles : String → Option PolicyBundle
  fleet : Option PolicyBundle
  dirty : List String
  /-- How often each of the two has been notified. -/
  wantedChanged : Nat
  bundleChanged : Nat

namespace PolicyManager

def new : PolicyManager := ⟨[], fun _ => none, none, [], 0, 0⟩

/-- The revision held for an identity, or nothing. -/
def revisionOf (m : PolicyManager) (id : String) : String :=
  ((m.bundles id).map (·.revision)).getD ""

end PolicyManager

/-- `BTreeSet::insert`, on the elements in order. -/
def insertId (id : String) (ids : List String) : List String :=
  if id ∈ ids then ids else ids.orderedInsert (· ≤ ·) id

@[simp] theorem mem_insertId {id x : String} {ids : List String} :
    x ∈ insertId id ids ↔ x = id ∨ x ∈ ids := by
  unfold insertId
  split
  · rename_i hid
    constructor
    · exact .inr
    · rintro (rfl | hx)
      · exact hid
      · exact hx
  · exact List.mem_orderedInsert _

/-- What a node says on the stream. -/
inductive WatchAction where
  | subscribe (spiffeId knownRevision : String)
  | unsubscribe (spiffeId : String)
  deriving DecidableEq, Repr

structure WatchRequest where
  nodeName : String
  request : WatchAction
  deriving DecidableEq, Repr

/-- The calls of the manager and of those who use it. Each is one section under a lock, one
    notification, or one message. -/
inductive ManagerOp where
  | insertWanted (id : String)
  | removeWanted (id : String)
  | removeDirty (id : String)
  | notifyWanted
  | readWanted
  | insertBundle (id : String) (bundle : PolicyBundle)
  | insertDirty (id : String)
  | setFleet (bundle : PolicyBundle)
  | extendDirty (ids : List String)
  | notifyBundle
  | reject (id reason : String)
  /-- `wanted_changed.notified()` -/
  | notified
  /-- Waiting for the future created when there had been `ticket` notifications. -/
  | awaitNotified (ticket : Nat)
  | send (message : WatchRequest)
  /-- The stream ends, and with it the receiving half of the channel. -/
  | hangUp

@[reducible] def ManagerOp.Ans : ManagerOp → Type
  | .insertWanted _ => Bool
  | .removeWanted _ => Bool
  | .readWanted => List (String × String)
  | .insertBundle _ _ => Bool
  | .setFleet _ => Option (List String)
  | .notified => Nat
  | .send _ => Bool
  | _ => Unit

@[reducible] def ManagerSig : Sig := ⟨ManagerOp, ManagerOp.Ans⟩

namespace Manager

def ask (o : ManagerOp) : Prog ManagerSig o.Ans := @Prog.op ManagerSig o

/-! ## 3. The manager's functions -/

/-- `PolicyManager::subscribe`; `enabled` is the operator's setting. -/
def subscribe (enabled : Bool) (id : String) : Prog ManagerSig Unit :=
  if enabled then do
    if ← ask (.insertWanted id) then ask .notifyWanted
  else return ()

/-- `PolicyManager::unsubscribe` -/
def unsubscribe (enabled : Bool) (id : String) : Prog ManagerSig Unit :=
  if enabled then do
    let removed ← ask (.removeWanted id)
    ask (.removeDirty id)
    if removed then ask .notifyWanted
  else return ()

/-- `PolicyManager::apply` -/
def apply (id : String) (bundle : PolicyBundle) : Prog ManagerSig Bool := do
  if ← ask (.insertBundle id bundle) then
    ask (.insertDirty id)
    ask .notifyBundle
    return true
  else return false

/-- `PolicyManager::apply_fleet` -/
def applyFleet (bundle : PolicyBundle) : Prog ManagerSig Bool := do
  match ← ask (.setFleet bundle) with
  | some affected =>
    ask (.extendDirty affected)
    ask .notifyBundle
    return true
  | none => return false

end Manager

/-! ## 4. The stream -/

/-- One update of the policy backend. -/
structure PolicyUpdate where
  spiffeId : String
  revision : String
  documents : List PolicyDocument
  empty : Bool
  deriving DecidableEq, Repr

namespace Grpc

open Manager (ask)

/-- `grpc::apply` -/
def apply (update : PolicyUpdate) : Prog ManagerSig Unit :=
  if update.spiffeId = "" then ask (.reject "<unset>" "the update names no identity")
  else
    match PolicyBundle.build update.revision update.documents with
    | .ok bundle =>
      if bundle.isEmpty && !update.empty then
        ask (.reject update.spiffeId "no documents, but the update is not marked empty")
      else do
        let _ ← Manager.apply update.spiffeId bundle
    | .error reason => ask (.reject update.spiffeId reason)

variable (nodeName : String)

/-- The first loop of a round; `none` is a stream that has closed. -/
def sendNew : List (String × String) → List String → Prog ManagerSig (Option (List String))
  | [], sent => return some sent
  | (id, known) :: rest, sent =>
    if id ∈ sent then sendNew rest sent
    else do
      if ← ask (.send ⟨nodeName, .subscribe id known⟩) then sendNew rest (sent ++ [id])
      else return none

/-- `sent.retain(..)` -/
def retainWanted (wantedIds : List String) : List String → Prog ManagerSig (List String)
  | [] => return []
  | id :: rest =>
    if id ∈ wantedIds then do
      return id :: (← retainWanted wantedIds rest)
    else do
      let _ ← ask (.send ⟨nodeName, .unsubscribe id⟩)
      retainWanted wantedIds rest

/-- `sync_subscriptions`, for a number of rounds. -/
def syncSubscriptions : Nat → List String → Prog ManagerSig Unit
  | 0, _ => return ()
  | rounds + 1, sent => do
    -- `manager.wanted_changed()` is called here, and nothing of it runs
    let wanted ← ask .readWanted
    match ← sendNew nodeName wanted sent with
    | none => return ()
    | some sent =>
      let sent ← retainWanted nodeName (wanted.map Prod.fst) sent
      let ticket ← ask .notified
      ask (.awaitNotified ticket)
      syncSubscriptions rounds sent

end Grpc

/-! ## 5. The world -/

/-- The manager, and the stream as the backend sees it. -/
structure StreamState where
  manager : PolicyManager
  closed : Bool
  /-- The identities the backend has been told to follow. -/
  told : List String

namespace StreamState

/-- A stream that has just been opened. -/
def opened (m : PolicyManager) : StreamState := ⟨m, false, []⟩

def withManager (s : StreamState) (f : PolicyManager → PolicyManager) : StreamState :=
  { s with manager := f s.manager }

@[simp] theorem withManager_manager (s : StreamState) (f : PolicyManager → PolicyManager) :
    (s.withManager f).manager = f s.manager := rfl

end StreamState

/-- What the backend follows after a message. -/
def WatchAction.follow : WatchAction → List String → List String
  | .subscribe id _, told => insertId id told
  | .unsubscribe id, told => told.filter (· ≠ id)

/-- What a call answers, and the state it leaves. -/
def ManagerOp.answer : (o : ManagerOp) → StreamState → o.Ans × StreamState
  | .insertWanted id, s =>
    (!decide (id ∈ s.manager.wanted),
      s.withManager fun m => { m with wanted := insertId id m.wanted })
  | .removeWanted id, s =>
    (decide (id ∈ s.manager.wanted), s.withManager fun m =>
      { m with wanted := m.wanted.filter (· ≠ id), bundles := Function.update m.bundles id none })
  | .removeDirty id, s => ((), s.withManager fun m => { m with dirty := m.dirty.filter (· ≠ id) })
  | .notifyWanted, s => ((), s.withManager fun m => { m with wantedChanged := m.wantedChanged + 1 })
  | .readWanted, s => (s.manager.wanted.map fun id => (id, s.manager.revisionOf id), s)
  | .insertBundle id bundle, s =>
    if id ∈ s.manager.wanted ∧ s.manager.bundles id ≠ some bundle then
      (true, s.withManager fun m => { m with bundles := Function.update m.bundles id (some bundle) })
    else (false, s)
  | .insertDirty id, s => ((), s.withManager fun m => { m with dirty := insertId id m.dirty })
  | .setFleet bundle, s =>
    if s.manager.fleet = some bundle then (none, s)
    else (some (s.manager.wanted.filter fun id => (s.manager.bundles id).isNone),
      s.withManager fun m => { m with fleet := some bundle })
  | .extendDirty ids, s =>
    ((), s.withManager fun m => { m with dirty := ids.foldr insertId m.dirty })
  | .notifyBundle, s => ((), s.withManager fun m => { m with bundleChanged := m.bundleChanged + 1 })
  | .reject _ _, s => ((), s)
  | .notified, s => (s.manager.wantedChanged, s)
  | .awaitNotified _, s => ((), s)
  | .send message, s =>
    if s.closed then (false, s) else (true, { s with told := message.request.follow s.told })
  | .hangUp, s => ((), { s with closed := true })

/-- Waiting ends when there has been a notification since. -/
def ManagerOp.ready : ManagerOp → StreamState → Bool
  | .awaitNotified ticket, s => decide (ticket < s.manager.wantedChanged)
  | _, _ => true

def managerWorld : World ManagerSig StreamState := fun (o : ManagerOp) s ans s' =>
  o.ready s = true ∧ (ans, s') = o.answer s

end Svidlet.Policy
