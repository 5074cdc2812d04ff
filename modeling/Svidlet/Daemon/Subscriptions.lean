import Svidlet.Daemon.Applied

/-!
# Whom the daemon follows

A scan replaces the map of volumes and then tells the manager what has changed: it subscribes to the
identities that are new in the map and unsubscribes from those that are gone. Both lists are made from
lists in which an identity stands once for every volume that has it. Updates come in at any point.

> **After a scan** the identities the manager wants are those of the map: what it wanted was the old
> map's identities, and adding what is new and removing what is gone makes them the new map's.
>
> **At any time** a bundle is held only for an identity that is wanted: a bundle is put in under the lock
> under which the identity is looked up, and taken out with it.
>
> **Between two scans** that both find an identity its bundle stays: only an identity that is not in the
> map is unsubscribed (`ScanStep`).

The farm and the volumes are svidlet's, so here they answer anything (`looseWorld`). One scan runs at a
time, as in the daemon's loop; updates of the stream, bundles of the registry and passes run beside it, one
call at a time.
-/

namespace Svidlet.Daemon

open Lib Issue Policy Volume

/-! ## 1. The world and the steps -/

def DaemonOp.Loose : (o : DaemonOp) → DaemonState → o.Ans → DaemonState → Prop
  | .volume _ _, s, _, s' => ∃ disk, s' = { s with disk := disk }
  | o, s, ans, s' => o.Does (fun _ => True) s ans s'

/-- The world in which the volumes hold whatever they like at any time. -/
def looseWorld : World DaemonSig DaemonState := fun (o : DaemonOp) s ans s' => o.Loose s ans s'

theorem looseWorld_of_daemonWorld {may : FsOp ByteArray → Prop} {o : DaemonOp} {s s' : DaemonState}
    {ans : o.Ans} (hw : daemonWorld may o s ans s') : looseWorld o s ans s' := by
  cases o with
  | volume target op =>
    obtain ⟨t, -, rfl⟩ := hw
    exact ⟨_, rfl⟩
  | _ => exact hw

namespace DaemonState

def wanted (s : DaemonState) : List String := s.stream.manager.wanted

def held (s : DaemonState) (id : String) : Option PolicyBundle := s.stream.manager.bundles id

end DaemonState

/-- Bundles are held for wanted identities only. -/
def HeldWanted (s : DaemonState) : Prop := ∀ id, s.held id ≠ none → id ∈ s.wanted

/-- The manager wants the identities of the volumes. -/
def Synced (s : DaemonState) : Prop := ∀ id, id ∈ s.wanted ↔ id ∈ s.known.ids

/-- What the tasks beside a scan do: they put in bundles that are wanted. -/
structure Keeps (a b : DaemonState) : Prop where
  known : b.known = a.known
  wanted : b.wanted = a.wanted
  held : ∀ id, a.held id ≠ none → b.held id ≠ none
  new : ∀ id, b.held id ≠ none → a.held id ≠ none ∨ id ∈ a.wanted

/-- What a call of a scan does: it takes out no bundle of an identity in the map. -/
structure ScanStep (a b : DaemonState) : Prop where
  heldWanted : HeldWanted a → HeldWanted b
  lost : ∀ id, a.held id ≠ none → b.held id = none → id ∉ b.known.ids

theorem Keeps.refl (s : DaemonState) : Keeps s s := ⟨rfl, rfl, fun _ h => h, fun _ h => .inl h⟩

variable {a b : DaemonState}

theorem Keeps.trans {c : DaemonState} (h : Keeps a b) (h' : Keeps b c) : Keeps a c where
  known := h'.known.trans h.known
  wanted := h'.wanted.trans h.wanted
  held id hid := h'.held id (h.held id hid)
  new id hid := by
    rcases h'.new id hid with hb | hb
    · exact h.new id hb
    · exact .inr (h.wanted ▸ hb)

theorem Keeps.heldWanted (h : Keeps a b) (ha : HeldWanted a) : HeldWanted b := by
  intro id hid
  rw [h.wanted]
  rcases h.new id hid with hold | hwanted
  · exact ha id hold
  · exact hwanted

theorem Keeps.scanStep (h : Keeps a b) : ScanStep a b :=
  ⟨h.heldWanted, fun id ha hb => absurd hb (h.held id ha)⟩

/-- A call that leaves the map, the wanted identities and the bundles alone. -/
theorem Keeps.of_same (hknown : b.known = a.known) (hwanted : b.wanted = a.wanted)
    (hheld : ∀ id, b.held id = a.held id) : Keeps a b :=
  ⟨hknown, hwanted, fun id h => by rw [hheld]; exact h, fun id h => .inl (by rw [← hheld]; exact h)⟩

/-! ## 2. The tasks beside a scan -/

/-- What an update, a bundle of the registry and a pass call. -/
def BesideCall : DaemonOp → Prop
  | .manager (.insertBundle _ _) => True
  | .manager (.insertDirty _) => True
  | .manager (.setFleet _) => True
  | .manager (.extendDirty _) => True
  | .manager .notifyBundle => True
  | .manager (.reject _ _) => True
  | .manager _ => False
  | .swapVolumes _ => False
  | _ => True

theorem besideCall_keeps {op : DaemonOp} {ans : op.Ans} (hop : BesideCall op)
    (hw : looseWorld op a ans b) : Keeps a b := by
  cases op with
  | manager op =>
    obtain ⟨m, hm, rfl⟩ := hw
    have hm : m = (op.answer a.stream).2 := congrArg Prod.snd hm
    subst hm
    cases op with
    | insertBundle id bundle =>
      by_cases hin : id ∈ a.stream.manager.wanted ∧ a.stream.manager.bundles id ≠ some bundle
      · have hheld : ∀ x, DaemonState.held
            { a with stream := (ManagerOp.answer (.insertBundle id bundle) a.stream).2 } x
              = if x = id then some bundle else a.held x := by
          intro x
          simp only [DaemonState.held, ManagerOp.answer, if_pos hin, StreamState.withManager_manager,
            Function.update_apply]
        refine ⟨rfl, ?_, ?_, ?_⟩
        · simp [DaemonState.wanted, ManagerOp.answer, hin]
        · intro x hx
          rw [hheld]
          split
          · simp
          · exact hx
        intro x hx
        rw [hheld] at hx
        split at hx
        · rename_i hxid
          exact .inr (hxid ▸ hin.1)
        · exact .inl hx
      · refine .of_same rfl ?_ fun x => ?_
        · simp only [DaemonState.wanted, ManagerOp.answer, if_neg hin]
        · simp only [DaemonState.held, ManagerOp.answer, if_neg hin]
    | setFleet bundle =>
      by_cases hsame : a.stream.manager.fleet = some bundle
      · refine .of_same rfl ?_ fun x => ?_
        · simp [DaemonState.wanted, ManagerOp.answer, hsame]
        · simp [DaemonState.held, ManagerOp.answer, hsame]
      · refine .of_same rfl ?_ fun x => ?_
        · simp [DaemonState.wanted, ManagerOp.answer, hsame]
        · simp [DaemonState.held, ManagerOp.answer, hsame]
    | insertDirty id => exact .of_same rfl rfl fun _ => rfl
    | extendDirty ids => exact .of_same rfl rfl fun _ => rfl
    | notifyBundle => exact .of_same rfl rfl fun _ => rfl
    | reject id reason => exact .of_same rfl rfl fun _ => rfl
    | _ => exact hop.elim
  | volume target op =>
    obtain ⟨disk, rfl⟩ := hw
    exact .of_same rfl rfl fun _ => rfl
  | readFarm =>
    obtain rfl : b = a := hw
    exact .refl b
  | bundle id =>
    obtain rfl : b = a := hw.2
    exact .refl b
  | volumes =>
    obtain rfl : b = a := hw.2
    exact .refl b
  | swapVolumes found => exact hop.elim
  | addWritten =>
    obtain rfl : b = a := hw
    exact .refl b
  | addFailure =>
    obtain rfl : b = a := hw
    exact .refl b

section

variable {E : RegexEngine} (settings : Settings E)

theorem applyTo_beside (target : String) (id : SpiffeId) :
    (applyTo settings target id).Makes BesideCall := by
  unfold applyTo
  refine Prog.Makes.bind (Prog.Makes.of_op trivial) fun held => ?_
  cases held with
  | none => trivial
  | some bundle =>
    refine .bind (onVolume_makes (.of_all (fun _ => trivial) _)) fun published => ?_
    split
    · trivial
    refine .bind (onVolume_makes (.of_all (fun _ => trivial) _)) fun r => ?_
    cases r with
    | ok u => exact Prog.Makes.bind (Prog.Makes.of_op trivial) fun _ => trivial
    | error e => exact Prog.Makes.bind (Prog.Makes.of_op trivial) fun _ => trivial

theorem applyEach_beside (volumes : List (String × SpiffeId)) (written : Nat) :
    (applyEach settings volumes written).Makes BesideCall := by
  induction volumes generalizing written with
  | nil => trivial
  | cons volume volumes ih =>
    refine Prog.Makes.bind (applyTo_beside settings volume.1 volume.2) fun wrote => ?_
    cases wrote with
    | true => exact ih _
    | false => exact ih _

/-- Only a scan subscribes and unsubscribes. -/
theorem body_beside {task : Task} (h : task ≠ .scan) : (task.body settings).Makes BesideCall := by
  cases task with
  | scan => exact absurd rfl h
  | update received =>
    exact onManager_makes (grpcApply_makes (fun _ _ => trivial) (fun _ _ => trivial)
      (fun _ => trivial) trivial)
  | fleet bundle plain =>
    exact .bind (onManager_makes (applyFleet_makes trivial (fun _ => trivial) trivial))
      fun _ => trivial
  | apply =>
    refine Prog.Makes.bind ?_ fun _ => trivial
    exact Prog.Makes.bind (Prog.Makes.of_op trivial) fun volumes => applyEach_beside settings _ 0

end

/-! ## 3. A scan -/

/-- The map is `found`, and the wanted identities are those that `A` picks. -/
def Follows (A : String → Prop) (found : VolumeMap) (s : DaemonState) : Prop :=
  s.known = found ∧ ∀ id, id ∈ s.wanted ↔ A id

theorem Follows.stable (A : String → Prop) (found : VolumeMap) : Stable Keeps (Follows A found) := by
  intro a b hR h
  exact ⟨hR.known.trans h.1, fun id => by rw [hR.wanted]; exact h.2 id⟩

theorem Synced.stable : Stable Keeps Synced := by
  intro a b hR h id
  rw [hR.wanted, hR.known]
  exact h id

theorem Follows.congr {A B : String → Prop} {found : VolumeMap} {s : DaemonState}
    (h : Follows A found s) (hAB : ∀ id, A id ↔ B id) : Follows B found s :=
  ⟨h.1, fun id => (h.2 id).trans (hAB id)⟩

section

variable {A : String → Prop} {found : VolumeMap} {s : DaemonState} {α : Type}

theorem onManager_bind {β : Type} (p : Prog ManagerSig α) (k : α → Prog ManagerSig β) :
    onManager (p >>= k) = onManager p >>= fun a => onManager (k a) := Prog.handle_bind p k

/-- One call of the manager in a scan. -/
theorem managerCall_sat {op : ManagerOp} {B : String → Prop} (h : Follows A found s)
    (hcall : ∀ a : DaemonState, Follows A found a →
      ScanStep a { a with stream := (op.answer a.stream).2 } ∧
        Follows B found { a with stream := (op.answer a.stream).2 }) :
    Sat looseWorld Keeps ScanStep (fun _ => Follows B found) (onManager (Manager.ask op)) s := by
  refine Sat.of_op (S := DaemonSig) (o := .manager op) (Follows.stable A found)
    (fun _ => Follows.stable B found) h ?_
  intro a ans b ha hw
  obtain ⟨m, hm, rfl⟩ := hw
  have hm : m = (op.answer a.stream).2 := congrArg Prod.snd hm
  rw [hm]
  exact hcall a ha

theorem notify_sat (h : Follows A found s) (changed : Bool) :
    Sat looseWorld Keeps ScanStep (fun _ => Follows A found)
      (onManager (if changed then Manager.ask .notifyWanted else pure ())) s := by
  cases changed with
  | true =>
    refine managerCall_sat h fun a ha => ⟨Keeps.scanStep ?_, ha⟩
    exact .of_same rfl rfl fun _ => rfl
  | false => exact Sat.of_pure (A := fun _ => Follows A found) (Follows.stable A found) h

theorem subscribe_sat (h : Follows A found s) (id : String) :
    Sat looseWorld Keeps ScanStep (fun _ => Follows (fun x => A x ∨ x = id) found)
      (onManager (Manager.subscribe true id)) s := by
  unfold Manager.subscribe
  rw [if_pos rfl, onManager_bind]
  refine Sat.seq Keeps.refl (P := fun _ => Follows (fun x => A x ∨ x = id) found) ?_ ?_
  · refine managerCall_sat h fun a ha => ⟨⟨?_, ?_⟩, ha.1, ?_⟩
    · intro hheld x hx
      exact mem_insertId.mpr (.inr (hheld x hx))
    · intro x hx hnone
      exact absurd hnone hx
    intro x
    have hx := ha.2 x
    show x ∈ insertId id a.wanted ↔ _
    rw [mem_insertId, hx, or_comm]
  · exact fun added s' hs' => notify_sat hs' added

theorem unsubscribe_sat (h : Follows A found s) {id : String} (hgone : id ∉ found.ids) :
    Sat looseWorld Keeps ScanStep (fun _ => Follows (fun x => A x ∧ x ≠ id) found)
      (onManager (Manager.unsubscribe true id)) s := by
  unfold Manager.unsubscribe
  rw [if_pos rfl, onManager_bind]
  refine Sat.seq Keeps.refl (P := fun _ => Follows (fun x => A x ∧ x ≠ id) found) ?_ ?_
  · refine managerCall_sat h fun a ha => ⟨⟨?_, ?_⟩, ha.1, ?_⟩
    · intro hheld x hx
      have hne : x ≠ id := by
        rintro rfl
        simp [DaemonState.held, ManagerOp.answer] at hx
      have hx : a.held x ≠ none := by
        simpa [DaemonState.held, ManagerOp.answer, Function.update_of_ne hne] using hx
      exact List.mem_filter.mpr ⟨hheld x hx, by simpa using hne⟩
    · intro x hx hnone
      -- the only bundle that goes is the one of the identity that is gone
      have hxid : x = id := by
        by_contra hne
        simp only [DaemonState.held, ManagerOp.answer, StreamState.withManager_manager,
          Function.update_of_ne hne] at hnone
        exact hx hnone
      rw [hxid]
      show id ∉ a.known.ids
      rw [ha.1]
      exact hgone
    · intro x
      show x ∈ a.wanted.filter _ ↔ _
      rw [List.mem_filter, ha.2 x]
      simp
  · intro removed s' hs'
    rw [onManager_bind]
    refine Sat.seq Keeps.refl (P := fun _ => Follows (fun x => A x ∧ x ≠ id) found) ?_
      fun _ _ hs => notify_sat hs removed
    refine managerCall_sat hs' fun a ha => ⟨Keeps.scanStep ?_, ha⟩
    exact .of_same rfl rfl fun _ => rfl

variable {E : RegexEngine} {settings : Settings E}

theorem subscribeEach_sat (hon : settings.enabled = true) {ids : List String}
    (h : Follows A found s) :
    Sat looseWorld Keeps ScanStep (fun _ => Follows (fun x => A x ∨ x ∈ ids) found)
      (subscribeEach settings ids) s := by
  induction ids generalizing A s with
  | nil =>
    exact Sat.of_pure (A := fun _ => Follows (fun x => A x ∨ x ∈ []) found) (Follows.stable _ _)
      (h.congr fun id => by simp)
  | cons id ids ih =>
    unfold subscribeEach
    rw [hon]
    refine Sat.seq Keeps.refl (subscribe_sat h id) ?_
    intro _ s' hs'
    refine Sat.mono ?_ (ih hs')
    intro _ s'' hs''
    exact hs''.congr fun x => by simp [or_assoc]

theorem unsubscribeEach_sat (hon : settings.enabled = true) {ids : List String}
    (h : Follows A found s) (hgone : ∀ id ∈ ids, id ∉ found.ids) :
    Sat looseWorld Keeps ScanStep (fun _ => Follows (fun x => A x ∧ x ∉ ids) found)
      (unsubscribeEach settings ids) s := by
  induction ids generalizing A s with
  | nil =>
    exact Sat.of_pure (A := fun _ => Follows (fun x => A x ∧ x ∉ []) found) (Follows.stable _ _)
      (h.congr fun id => by simp)
  | cons id ids ih =>
    unfold unsubscribeEach
    rw [hon]
    refine Sat.seq Keeps.refl (unsubscribe_sat h (hgone id (.head _))) ?_
    intro _ s' hs'
    refine Sat.mono ?_ (ih hs' fun x hx => hgone x (.tail _ hx))
    intro _ s'' hs''
    exact hs''.congr fun x => by simp [and_assoc]

/-- The calls of a scan before it changes anything. -/
def LookCall : DaemonOp → Prop
  | .readFarm => True
  | .volume _ _ => True
  | _ => False

theorem look_sat {p : Prog DaemonSig α} (hp : p.Makes LookCall) (h : Synced s) :
    Sat looseWorld Keeps ScanStep (fun _ => Synced) p s := by
  refine Sat.of_makes Synced.stable ?_ hp h
  intro op a ans b hop hw ha
  have hkeeps : Keeps a b := by
    cases op with
    | readFarm => exact @besideCall_keeps a b .readFarm ans trivial hw
    | volume target op => exact @besideCall_keeps a b (.volume target op) ans trivial hw
    | _ => exact hop.elim
  exact ⟨hkeeps.scanStep, Synced.stable a b hkeeps ha⟩

/-- **A scan** that starts in step with the map ends in step with the new one. -/
theorem scan_sat (hon : settings.enabled = true) (h : Synced s) :
    Sat looseWorld Keeps ScanStep (fun _ => Synced) (Task.scan.body settings) s := by
  have hsynced : ∀ {found : VolumeMap} {s' : DaemonState}, Follows (· ∈ found.ids) found s' →
      Synced s' := by
    intro found s' hs' id
    rw [hs'.1]
    exact hs'.2 id
  show Sat _ _ _ _ (scan settings >>= fun _ => pure ()) s
  refine Sat.seq Keeps.refl (P := fun _ => Synced) ?_ fun _ _ hs' =>
    Sat.of_pure (A := fun _ => Synced) Synced.stable hs'
  unfold scan
  refine Sat.seq Keeps.refl (look_sat (discoverExposed_makes trivial) h) fun targets s1 h1 => ?_
  refine Sat.seq Keeps.refl (look_sat (scanEach_makes settings
    (fun _ _ => trivial) targets .empty) h1) fun found s2 h2 => ?_
  -- from here on the map is the new one, and the manager still wants the old one's identities
  refine Sat.seq Keeps.refl (P := fun (old : VolumeMap) => Follows (· ∈ old.ids) found) ?_ ?_
  · refine Sat.of_op (S := DaemonSig) (o := .swapVolumes found) Synced.stable
      (fun old => Follows.stable _ found) h2 ?_
    intro a old b ha hw
    obtain ⟨hold, rfl⟩ := hw
    have hold : old = a.known := hold
    refine ⟨⟨fun hheld => hheld, fun id hid hnone => absurd hnone hid⟩, rfl, fun id => ?_⟩
    rw [hold]
    exact ha id
  · intro old s3 h3
    refine Sat.seq Keeps.refl (subscribeEach_sat hon h3) fun _ s4 h4 => ?_
    refine Sat.seq Keeps.refl (unsubscribeEach_sat hon h4 ?_) fun _ s5 h5 => ?_
    · intro id hid
      exact (by simpa using hid : id ∈ old.ids ∧ id ∉ found.ids).2
    refine Sat.of_pure (A := fun _ => Synced) Synced.stable (hsynced (h5.congr ?_))
    intro id
    -- the old ones and the new ones, without those that are gone
    by_cases hold : id ∈ old.ids
    · simp [hold]
    · simp [hold]

end

/-! ## 4. Histories -/

section

variable {E : RegexEngine} (settings : Settings E)

def daemonSystem : System DaemonSig DaemonState Task Unit where
  world := looseWorld
  body := Task.body settings
  restart _ _ := False

abbrev DaemonPool := Pool DaemonSig DaemonState Task Unit

/-- A scan starts when none is running. -/
def OneScan (P : DaemonPool) : Move DaemonSig Task Unit → Prop
  | .start _ task => task = .scan → P.Idle (· = .scan)
  | _ => True

/-- A scan that swaps the map has found the identity. -/
def Finds (id : String) : Move DaemonSig Task Unit → Prop
  | .call _ (.swapVolumes found) _ => id ∈ found.ids
  | _ => True

/-- What each task relies on and promises. -/
def scanContract : Contract DaemonState Task Unit where
  rely
    | .scan => Keeps
    | _ => fun _ _ => True
  guar
    | .scan => ScanStep
    | _ => Keeps
  post
    | .scan => fun _ => Synced
    | _ => fun _ _ => True
  rely_refl task s := by
    cases task with
    | scan => exact .refl s
    | _ => trivial
  rely_trans task a b c h h' := by
    cases task with
    | scan => exact Keeps.trans h h'
    | _ => trivial

/-- The key of a scan, to say that at most one runs. -/
def scanKey : Task → Option Unit
  | .scan => some ()
  | _ => none

variable {task : Task}

theorem scanKey_eq {u : Unit} : scanKey task = some u ↔ task = .scan := by
  cases task with
  | scan => simp [scanKey]
  | _ => simp [scanKey]

structure ScanInv (P : DaemonPool) : Prop where
  one : P.Exclusive scanKey
  heldWanted : HeldWanted P.state
  idle : P.Idle (· = .scan) → Synced P.state

variable {settings}

theorem guar_heldWanted {a b : DaemonState} (h : scanContract.guar task a b) (ha : HeldWanted a) :
    HeldWanted b := by
  cases task with
  | scan => exact ScanStep.heldWanted h ha
  | _ => exact Keeps.heldWanted h ha

theorem body_sat (hon : settings.enabled = true) {s : DaemonState} (h : task = .scan → Synced s) :
    Sat looseWorld (scanContract.rely task) (scanContract.guar task) (scanContract.post task)
      (task.body settings) s := by
  have hother : task ≠ .scan → Sat looseWorld (fun _ _ => True) Keeps (fun _ _ => True)
      (task.body settings) s := by
    intro hne
    exact Sat.of_makes (I := fun _ => True) (fun _ _ _ _ => trivial)
      (fun op a ans b hop hw _ => ⟨besideCall_keeps hop hw, trivial⟩) (body_beside settings hne)
      trivial
  cases task with
  | scan => exact scan_sat hon (h rfl)
  | update received => exact hother nofun
  | fleet bundle plain => exact hother nofun
  | apply => exact hother nofun

/-- Every step keeps the invariant, and it is what the others rely on. -/
theorem scanContract_sound (hon : settings.enabled = true) :
    scanContract.Sound (daemonSystem settings) OneScan ScanInv where
  start := by
    intro P i task hI hkept hallowed hfree
    refine ⟨⟨hI.one.start ?_, hI.heldWanted, ?_⟩, body_sat hon fun hscan => hI.idle (hallowed hscan)⟩
    · intro u hu j task' p hj
      have hscan : task = .scan := scanKey_eq.mp hu
      exact fun hkey => hallowed hscan j task' p hj (scanKey_eq.mp hkey)
    intro hidle
    exact hI.idle (hidle.before (by simp [hfree]))
  call := by
    intro P i task op k ans s' hI hkept hallowed hi hw hguar
    refine ⟨⟨hI.one.call hi, guar_heldWanted hguar hI.heldWanted, ?_⟩, ?_⟩
    · intro hidle
      have hnot : task ≠ .scan := hidle i task (k ans) (Pool.setThread_same P i _)
      have hkeeps : Keeps P.state s' := by
        cases task with
        | scan => exact absurd rfl hnot
        | _ => exact hguar
      exact Synced.stable _ _ hkeeps (hI.idle (Pool.Idle.before_call hidle hi))
    · intro j task' p hji hj
      cases task' with
      | scan =>
        -- another scan is not running, so the call is of a task beside it
        cases task with
        | scan => exact absurd (hI.one j i .scan .scan _ _ () hj hi rfl rfl) hji
        | _ => exact hguar
      | _ => trivial
  finish := by
    intro P i task r hI hkept hallowed hi hpost
    refine ⟨hI.one.finish, hI.heldWanted, fun hidle => ?_⟩
    by_cases hscan : task = .scan
    · subst hscan
      exact hpost
    exact hI.idle (Pool.Idle.before hidle (by simp [hi, hscan]))
  restart := by
    intro P s' hI hallowed hrestart
    exact hrestart.elim

/-- A bundle of an identity in the map is not lost while scans find the identity. -/
theorem held_step {id : String} {P P' : DaemonPool} {m : Move DaemonSig Task Unit}
    (hkept : scanContract.Kept (daemonSystem settings) P) (hfinds : Finds id m) (hstep : (daemonSystem settings).Step P m P')
    (h : id ∈ P.state.known.ids ∧ P.state.held id ≠ none) :
    id ∈ P'.state.known.ids ∧ P'.state.held id ≠ none := by
  cases hstep with
  | start hfree => exact h
  | finish hi => exact h
  | restart hr => exact hr.elim
  | @call i task op k ans s' hi hw =>
    obtain ⟨hguar, -⟩ := hkept i task _ hi P.state (scanContract.rely_refl task P.state) ans s' hw
    have hknown : id ∈ s'.known.ids := by
      cases op with
      | swapVolumes found =>
        obtain ⟨-, rfl⟩ := hw
        exact hfinds
      | manager op =>
        obtain ⟨m, -, rfl⟩ := hw
        exact h.1
      | volume target op =>
        obtain ⟨disk, rfl⟩ := hw
        exact h.1
      | readFarm =>
        obtain rfl : s' = P.state := hw
        exact h.1
      | bundle id' =>
        obtain rfl : s' = P.state := hw.2
        exact h.1
      | volumes =>
        obtain rfl : s' = P.state := hw.2
        exact h.1
      | addWritten =>
        obtain rfl : s' = P.state := hw
        exact h.1
      | addFailure =>
        obtain rfl : s' = P.state := hw
        exact h.1
    refine ⟨hknown, fun hnone => ?_⟩
    cases task with
    | scan => exact ScanStep.lost hguar id h.2 hnone hknown
    | _ => exact absurd hnone (Keeps.held hguar id h.2)

/-- **Whom the daemon follows.** In every history in which scans do not overlap, on a manager that is
    enabled: while no scan runs, the wanted identities are those of the volumes the last one found; at all
    times bundles are held for wanted identities only; and a bundle of an identity in the map stays for as
    long as every scan that replaces the map finds the identity. -/
theorem scans_follow_volumes (hon : settings.enabled = true) {disk : String → VolTree} {P : DaemonPool}
    (hrun : (daemonSystem settings).Run OneScan (Pool.initial ⟨.opened .new, disk, .empty⟩) P) :
    (P.Idle (· = .scan) → ∀ id, id ∈ P.state.wanted ↔ id ∈ P.state.known.ids) ∧
    (∀ id, P.state.held id ≠ none → id ∈ P.state.wanted) ∧
    ∀ id, id ∈ P.state.known.ids → P.state.held id ≠ none → ∀ P',
      (daemonSystem settings).Run (fun P m => OneScan P m ∧ Finds id m) P P' →
        P'.state.held id ≠ none := by
  have hstart : ScanInv (Pool.initial ⟨.opened .new, disk, .empty⟩) := by
    refine ⟨?_, ?_, ?_⟩
    · intro i j task task' p p' k hi
      cases hi
    · intro id hid
      exact absurd rfl hid
    · intro _ id
      exact ⟨fun h => absurd h List.not_mem_nil, fun h => absurd h List.not_mem_nil⟩
  obtain ⟨hI, hkept⟩ := hrun.safe (scanContract_sound hon) hstart (by intro i task p hi; cases hi)
  refine ⟨hI.idle, hI.heldWanted, ?_⟩
  intro id hknown hheld P' hlater
  have hall : (ScanInv P' ∧ scanContract.Kept (daemonSystem settings) P') ∧
      id ∈ P'.state.known.ids ∧ P'.state.held id ≠ none := by
    induction hlater with
    | refl => exact ⟨⟨hI, hkept⟩, hknown, hheld⟩
    | tail _ hm hstep ih =>
      obtain ⟨⟨hI₁, hkept₁⟩, hid⟩ := ih
      exact ⟨(scanContract_sound hon).step hI₁ hkept₁ hm.1 hstep, held_step hkept₁ hm.2 hstep hid⟩
  exact hall.2.2

end

/-! A scan finds three volumes, two of one identity, and updates come for both identities. Then only one
volume is left. -/

theorem answer_loose (farm : List String) (o : DaemonOp) (s : DaemonState) :
    looseWorld o s (o.answer farm s).1 (o.answer farm s).2 :=
  looseWorld_of_daemonWorld (DaemonOp.answer_does farm (fun _ => True) o s)

def otherId : SpiffeId := ⟨"spiffe://example.org/cluster/c/ns/n/sa/t", by decide⟩

def pairSettings : Settings Matcher.templateEngine := { oneSettings with
  plugin := { Node.onePlugin with
    reader := { Node.onePlugin.reader with
      inspect := fun chain => if chain = "other chain" then .ok ⟨otherId, 0, 3600⟩
        else Node.onePlugin.reader.inspect chain } } }

def otherCertified : VolTree :=
  ((Publication.identity ⟨"k", "other chain", "ca"⟩ ⟨0o640, 0o644, none⟩).run.run.play
    (fun op t => t.exec op) ⟨[([], .dir 0o755)], 0⟩).2.2

def threeVolumes : DaemonPool :=
  Pool.initial ⟨.opened .new, fun target => if target = "c" then otherCertified else certified, .empty⟩

def scanThenUpdates : List (Turn Task) :=
  .start 0 .scan :: List.replicate 20 (.go 0) ++ .start 1 (sends [1]) :: List.replicate 6 (.go 1) ++
    .start 1 (.update ⟨otherId.asStr, "r1", [⟨"x", [2]⟩], false⟩) :: List.replicate 6 (.go 1)

def updated : DaemonPool :=
  (daemonSystem pairSettings).play (DaemonOp.answer ["a", "b", "c"]) threeVolumes scanThenUpdates

/-- And then a scan finds only the second volume. -/
def rescanned : DaemonPool := (daemonSystem pairSettings).play (DaemonOp.answer ["b"]) updated
  (.start 0 .scan :: List.replicate 20 (.go 0))

/-- A scan whose turn it is swaps in a map with the identity. -/
def findsAtTurn (id : String) (P : DaemonPool) : Turn Task → Bool
  | .start _ _ => true
  | .go i =>
    match P.threads i with
    | some (_, .call (.swapVolumes found) _) => decide (id ∈ found.ids)
    | _ => true

theorem grants_of_findsAtTurn {id : String} {P : DaemonPool} {turn : Turn Task}
    (h : findsAtTurn id P turn = true) : System.Grants (fun _ m => Finds id m) P turn := by
  cases turn with
  | start i task => trivial
  | go i =>
    refine ⟨fun task o k ans hi => ?_, fun _ => trivial⟩
    cases o with
    | swapVolumes found =>
      simp only [findsAtTurn, hi, decide_eq_true_eq] at h
      exact h
    | _ => trivial

def Task.scans : Task → Bool
  | .scan => true
  | _ => false

/-- One scan at a time, and each finds the identity. -/
def scansFind (id : String) (P : DaemonPool) (turn : Turn Task) : Bool :=
  P.beside [0, 1] (fun task other => !(task.scans && other.scans)) turn && findsAtTurn id P turn

theorem scan_run {id : String} {farm : List String} {P₀ P : DaemonPool} {turns : List (Turn Task)}
    (hrun : (daemonSystem pairSettings).Run (fun P m => OneScan P m ∧ Finds id m) P₀ P)
    (hP : P.OnlyIn [0, 1]) (hpass : (daemonSystem pairSettings).passes (DaemonOp.answer farm) [0, 1]
      (scansFind id) P turns = true) :
    (daemonSystem pairSettings).Run (fun P m => OneScan P m ∧ Finds id m) P₀
        ((daemonSystem pairSettings).play (DaemonOp.answer farm) P turns) ∧
      ((daemonSystem pairSettings).play (DaemonOp.answer farm) P turns).OnlyIn [0, 1] := by
  refine System.play_run (answer_loose farm) (fun P turn hP h => ?_) hrun hP hpass
  obtain ⟨hbeside, hfinds⟩ := Bool.and_eq_true_iff.mp h
  refine System.Grants.and (hP.grants hbeside ?_ (fun _ _ _ => trivial) fun _ _ => trivial)
    (grants_of_findsAtTurn hfinds)
  rintro i _ hother rfl j _ p hj rfl
  cases hother j _ p hj

theorem scans_follow_volumes_pair :
    rescanned.state.known.ids = [oneId.asStr] ∧ oneId.asStr ∈ rescanned.state.wanted ∧
      otherId.asStr ∉ rescanned.state.wanted ∧ rescanned.state.held otherId.asStr = none ∧
      rescanned.state.held oneId.asStr ≠ none := by
  have hends : (updated.state.known.ids = [oneId.asStr, oneId.asStr, otherId.asStr] ∧
      (updated.state.held oneId.asStr).isSome = true ∧ (updated.state.held otherId.asStr).isSome = true) ∧
      rescanned.state.known.ids = [oneId.asStr] := by decide +kernel
  obtain ⟨⟨hboth, hheld, -⟩, hleft⟩ := hends
  obtain ⟨hfirst, hslots⟩ : (daemonSystem pairSettings).Run (fun P m => OneScan P m ∧ Finds oneId.asStr m)
      threeVolumes updated ∧ updated.OnlyIn [0, 1] := scan_run .refl (fun _ _ => rfl) (by decide +kernel)
  have hpass : (daemonSystem pairSettings).passes (DaemonOp.answer ["b"]) [0, 1] (scansFind oneId.asStr)
      updated (.start 0 .scan :: List.replicate 20 (.go 0)) = true := by decide +kernel
  obtain ⟨hsecond, hslots'⟩ : (daemonSystem pairSettings).Run (fun P m => OneScan P m ∧ Finds oneId.asStr m)
      threeVolumes rescanned ∧ rescanned.OnlyIn [0, 1] := scan_run hfirst hslots hpass
  have hidle' : rescanned.Idle (· = .scan) := by
    intro i task p hi
    cases (hslots'.none (by decide +kernel) i).symm.trans hi
  obtain ⟨-, -, hstays⟩ := scans_follow_volumes rfl (hfirst.mono fun _ _ h => h.1)
  obtain ⟨hsame, honly, -⟩ := scans_follow_volumes rfl (hsecond.mono fun _ _ h => h.1)
  have hgone : otherId.asStr ∉ rescanned.state.wanted := by
    intro hwanted
    have hknown := (hsame hidle' _).mp hwanted
    rw [hleft] at hknown
    exact absurd (List.mem_singleton.mp hknown) (by decide)
  refine ⟨hleft, (hsame hidle' _).mpr (by simp [hleft]), hgone, ?_, ?_⟩
  · by_contra hother
    exact hgone (honly _ hother)
  · refine hstays _ (by simp [hboth]) ?_ rescanned (scan_run .refl hslots hpass).1
    intro hnone
    rw [hnone] at hheld
    cases hheld

end Svidlet.Daemon
