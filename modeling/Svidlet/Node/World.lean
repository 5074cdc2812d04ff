import Svidlet.Issue.Matcher
import Svidlet.Lib.Pool
import Svidlet.Node.Loops

/-!
# The node the plugin runs on

The state its programs share: the store and the cached trust bundle, which die with the process, and
the volumes and the exposure farm, which do not. Of a volume it matters whether the target is there,
which identity it shows and whether a policy revision has arrived.

Everything outside may fail. A mount that fails may have made the directory; a publish that fails
may have failed after its swap; an unpublish that fails may have emptied the volume. The backend
may sign anything.

**A publish of an identity is one step here, and in `volume.rs` it is many, without a lock.** Taken one
at a time they come to the same (`Volume.locked_publishes_show_one_call`); two that overlap on one
target do not (`Volume.publish_race_dangles`). So a result over runs of `nodeSystem` speaks for the code
where no two programs can be at a publish of one target at once, and the results for which that is not
given say so: `PublishesApart` is part of what they prove.
-/

namespace Svidlet.Node

open Lib Issue
open Volume (Identity Modes)

/-! ## 1. State -/

/-- A target path that is there: the identity on show, and whether a revision file is. -/
structure VolumeState where
  identity : Option Identity
  revision : Bool
  deriving DecidableEq

structure NodeState where
  store : Store
  volumes : String → Option VolumeState
  ca : String
  /-- For each target the identity published last by `issue`. No code reads this. -/
  issued : String → Option Identity
  /-- The exposure farm: for each name the target that is mounted there. -/
  farm : String → Option String := fun _ => none

namespace NodeState

def setVolume (s : NodeState) (target : String) (v : Option VolumeState) : NodeState :=
  { s with volumes := Function.update s.volumes target v }

/-- After a mount: what is there stays, a new target is empty. -/
def mount (s : NodeState) (target : String) : NodeState :=
  s.setVolume target (some ((s.volumes target).getD ⟨none, false⟩))

/-- After the swap of a publish into the volume `v`. -/
def publish (s : NodeState) (target : String) (v : VolumeState) (identity : Identity)
    (origin : Origin) : NodeState :=
  { s.setVolume target (some { v with identity := some identity }) with
    issued := if origin = .issued then Function.update s.issued target (some identity)
      else s.issued }

/-- After an `expose`: a name that is a mount point already is left as it is. -/
def expose (s : NodeState) (name target : String) : NodeState :=
  if (s.farm name).isSome then s
  else { s with farm := Function.update s.farm name (some target) }

def unexpose (s : NodeState) (name : String) : NodeState :=
  { s with farm := Function.update s.farm name none }

def revisionAt (s : NodeState) (target : String) : Bool :=
  ((s.volumes target).map (·.revision)).getD false

@[simp] theorem setVolume_same (s : NodeState) (target : String) (v : Option VolumeState) :
    (s.setVolume target v).volumes target = v := by simp [setVolume]

theorem setVolume_other (s : NodeState) {target target' : String} (v : Option VolumeState)
    (h : target' ≠ target) : (s.setVolume target v).volumes target' = s.volumes target' := by
  simp [setVolume, h]

end NodeState

/-! ## 2. Calls -/

/-- What is left when an unpublish stops part way. -/
def Remains (v v' : VolumeState) : Prop :=
  (v'.identity = v.identity ∨ v'.identity = none) ∧ (v'.revision = v.revision ∨ v'.revision = false)

def nodeWorld : World NodeSig NodeState := fun op s ans s' =>
  match op, ans with
  | .storeGet target, ans => ans = s.store.get target ∧ s' = s
  | .storeInsert entry, _ => s' = { s with store := s.store.insert entry }
  | .storeRemove target, ans =>
    ans = s.store.get target ∧ s' = { s with store := s.store.remove target }
  | .storeSetPodToken target token, _ =>
    s' = { s with store := s.store.setPodToken target token }
  | .storeAll, ans => ans.Perm s.store ∧ s' = s
  | .storeDue now, ans =>
    -- the map is iterated in any order, so entries with one deadline may come in any
    (ans.Perm (s.store.due now) ∧ ans.Pairwise fun a b => a.renewAt ≤ b.renewAt) ∧ s' = s
  | .storeRecordRenewal target notBefore notAfter renewAt, _ =>
    s' = { s with store := s.store.recordRenewal target notBefore notAfter renewAt }
  | .storeRecordFailure target now, _ =>
    ∃ draw, s' = { s with store := s.store.recordFailure target now draw }
  | .ensureTmpfs target _ _, ans =>
    s' = s.mount target ∨ (∃ e, ans = .error e) ∧ s' = s
  | .publishIdentity target identity _ origin, ans =>
    match s.volumes target with
    | none => (∃ e, ans = .error e) ∧ s' = s
    | some v => s' = s.publish target v identity origin ∨ (∃ e, ans = .error e) ∧ s' = s
  | .readIdentity target, ans =>
    s' = s ∧ ∀ identity, ans = .ok identity →
      ∃ v, s.volumes target = some v ∧ v.identity = some identity
  | .readCertChain target, ans =>
    s' = s ∧ ∀ chain, ans = .ok chain →
      ∃ v identity, s.volumes target = some v ∧ v.identity = some identity ∧
        identity.certChainPem = chain
  | .unpublish target, ans =>
    s' = s.setVolume target none ∨
      (∃ e, ans = .error e) ∧ ∃ v v', s.volumes target = some v ∧ Remains v v' ∧
        s' = s.setVolume target (some v')
  | .targetExists target, ans => ans = (s.volumes target).isSome ∧ s' = s
  | .revisionExists target, ans => ans = s.revisionAt target ∧ s' = s
  | .publishPolicy target, _ =>
    s' = s.setVolume target ((s.volumes target).map ({ · with revision := true }))
  | .cachedCa, ans => ans = s.ca ∧ s' = s
  | .swapCa fetched, ans => ans = decide (s.ca = fetched) ∧ s' = { s with ca := fetched }
  | .expose name target, ans =>
    s' = s.expose name target ∧ ans = .ok () ∨ (∃ e, ans = .error e) ∧ s' = s
  | .unexpose name, ans => s' = s.unexpose name ∨ (∃ e, ans = .error e) ∧ s' = s
  | .swapTokens _ _, _ => s' = s
  | .discover, _ => s' = s
  | .generate _, _ => s' = s
  | .backendSign _, _ => s' = s
  | .backendCaChain, _ => s' = s
  | .fetchTokens _ _, _ => s' = s
  | .unixNow, _ => s' = s
  | .deadlinePassed, _ => s' = s
  | .tokenWaitPassed, _ => s' = s
  | .jitteredRenewAt _ _, _ => s' = s
  | .startupSpread, _ => s' = s

/-- The plugin on its node. A restart loses the store and the cached bundle and keeps the volumes. -/
def nodeSystem {E : RegexEngine} (plugin : Plugin E) : System NodeSig NodeState Task TaskResult where
  world := nodeWorld
  body := body plugin
  restart s s' := s' = { s with store := [], ca := "" }

abbrev NodePool := Pool NodeSig NodeState Task TaskResult

abbrev NodeMove := Move NodeSig Task TaskResult

/-! ## 3. What one call can do

`effect` says once what a call can do to the store and the volumes. The lemmas after it are what
the arguments about the plugin use: a call leaves all targets but its own alone, an entry was there
before with the same ID unless the call inserted it, and a volume keeps what it shows unless the call
publishes into it or removes it. -/

/-- The volume `v` with at least what it had: the same identity, and its revision. -/
def Grown (v v' : VolumeState) : Prop :=
  v'.identity = v.identity ∧ (v.revision = true → v'.revision = true)

inductive Effect (op : NodeOp) (s s' : NodeState) : Prop where
  | same : s'.store = s.store → s'.volumes = s.volumes → Effect op s s'
  | insert (e : Entry) :
      op = .storeInsert e → s'.store = s.store.insert e → s'.volumes = s.volumes → Effect op s s'
  | remove (target : String) :
      op.target = some target → s'.store = s.store.remove target → s'.volumes = s.volumes →
      Effect op s s'
  | modify (target : String) (f : Entry → Entry) :
      op.target = some target → (∀ e, (f e).targetPath = e.targetPath) →
      (∀ e, (f e).spiffeId = e.spiffeId) →
      s'.store = s.store.modify target f → s'.volumes = s.volumes → Effect op s s'
  | grow (target : String) (v' : Option VolumeState) :
      op.target = some target → (∀ v, s.volumes target = some v → ∃ v₁, v' = some v₁ ∧ Grown v v₁) →
      s'.store = s.store → s'.volumes = Function.update s.volumes target v' → Effect op s s'
  | publish (target : String) (v : VolumeState) (identity : Identity) (modes : Modes)
      (origin : Origin) :
      op = .publishIdentity target identity modes origin → s.volumes target = some v →
      s'.store = s.store →
      s'.volumes = Function.update s.volumes target (some { v with identity := some identity }) →
      Effect op s s'
  | unpublish (target : String) (v' : Option VolumeState) :
      op = .unpublish target → s'.store = s.store →
      s'.volumes = Function.update s.volumes target v' → Effect op s s'

variable {s s' : NodeState} {target : String}

variable {identity : Identity} {modes : Modes} {origin : Origin}

/-- A publish happens or does not, whatever it answers; `Ok` says that it did. -/
theorem publish_cases {ans : Except IoError Unit}
    (h : nodeWorld (.publishIdentity target identity modes origin) s ans s') :
    (∃ e, ans = .error e) ∧ s' = s ∨
      ∃ v, s.volumes target = some v ∧ s' = s.publish target v identity origin := by
  unfold nodeWorld at h
  cases hv : s.volumes target with
  | none =>
    simp only [hv] at h
    exact .inl h
  | some v =>
    simp only [hv] at h
    rcases h with h | h
    · exact .inr ⟨v, rfl, h⟩
    · exact .inl h

variable {op : NodeOp} {ans : op.Ans}

theorem effect (h : nodeWorld op s ans s') : Effect op s s' := by
  cases op with
  | storeInsert entry =>
    obtain rfl := h
    exact .insert entry rfl rfl rfl
  | storeRemove t =>
    obtain ⟨_, rfl⟩ := h
    exact .remove t rfl rfl rfl
  | storeSetPodToken t token =>
    obtain rfl := h
    refine .modify t _ rfl ?_ ?_ rfl rfl
    · intro e
      split <;> rfl
    · intro e
      split <;> rfl
  | storeRecordRenewal t nb na ra =>
    obtain rfl := h
    refine .modify t _ rfl ?_ ?_ rfl rfl
    · exact fun _ => rfl
    · exact fun _ => rfl
  | storeRecordFailure t now =>
    obtain ⟨draw, rfl⟩ := h
    refine .modify t _ rfl ?_ ?_ rfl rfl
    · exact fun _ => rfl
    · exact fun _ => rfl
  | ensureTmpfs t size gid =>
    rcases h with rfl | ⟨_, rfl⟩
    · refine .grow t _ rfl ?_ rfl rfl
      intro v hv
      rw [hv]
      exact ⟨v, rfl, rfl, id⟩
    · exact .same rfl rfl
  | expose name t =>
    rcases h with ⟨rfl, _⟩ | ⟨_, rfl⟩
    · unfold NodeState.expose
      split <;> exact .same rfl rfl
    · exact .same rfl rfl
  | unexpose name =>
    rcases h with rfl | ⟨_, rfl⟩ <;> exact .same rfl rfl
  | publishIdentity t identity modes origin =>
    rcases publish_cases h with ⟨_, rfl⟩ | ⟨v, hv, rfl⟩
    · exact .same rfl rfl
    · exact .publish t v identity modes origin rfl hv rfl rfl
  | unpublish t =>
    rcases h with rfl | ⟨_, _, _, _, _, rfl⟩
    · exact .unpublish t _ rfl rfl rfl
    · exact .unpublish t _ rfl rfl rfl
  | publishPolicy t =>
    obtain rfl := h
    refine .grow t _ rfl ?_ rfl rfl
    intro v hv
    rw [hv]
    exact ⟨_, rfl, rfl, fun _ => rfl⟩
  | readIdentity t => rw [h.1]; exact .same rfl rfl
  | readCertChain t => rw [h.1]; exact .same rfl rfl
  | storeGet t => rw [h.2]; exact .same rfl rfl
  | storeAll => rw [h.2]; exact .same rfl rfl
  | storeDue now => rw [h.2]; exact .same rfl rfl
  | targetExists t => rw [h.2]; exact .same rfl rfl
  | revisionExists t => rw [h.2]; exact .same rfl rfl
  | cachedCa => rw [h.2]; exact .same rfl rfl
  | swapCa fetched => rw [h.2]; exact .same rfl rfl
  | _ =>
    obtain rfl := h
    exact .same rfl rfl

/-- What counts as issued changes with a publish by `issue`, and with nothing else. -/
theorem effect_issued (h : nodeWorld op s ans s') : (s'.issued = s.issued ∧
      ∀ target identity modes, op = .publishIdentity target identity modes .issued → s' = s) ∨
    ∃ target v identity modes, op = .publishIdentity target identity modes .issued ∧
      s.volumes target = some v ∧ s' = s.publish target v identity .issued := by
  cases op with
  | publishIdentity t identity modes origin =>
    rcases publish_cases h with ⟨_, rfl⟩ | ⟨v, hv, rfl⟩
    · exact .inl ⟨rfl, fun _ _ _ _ => rfl⟩
    · cases origin with
      | issued => exact .inr ⟨t, v, identity, modes, rfl, hv, rfl⟩
      | caOnly => exact .inl ⟨rfl, by simp⟩
  | ensureTmpfs t size gid => rcases h with rfl | ⟨_, rfl⟩ <;> exact .inl ⟨rfl, by simp⟩
  | expose name t =>
    refine .inl ⟨?_, by simp⟩
    rcases h with ⟨rfl, _⟩ | ⟨_, rfl⟩
    · unfold NodeState.expose
      split <;> rfl
    · rfl
  | unexpose name => rcases h with rfl | ⟨_, rfl⟩ <;> exact .inl ⟨rfl, by simp⟩
  | unpublish t => rcases h with rfl | ⟨_, _, _, _, _, rfl⟩ <;> exact .inl ⟨rfl, by simp⟩
  | storeRecordFailure t now => obtain ⟨_, rfl⟩ := h; exact .inl ⟨rfl, by simp⟩
  | readIdentity t => exact .inl ⟨by rw [h.1], by simp⟩
  | readCertChain t => exact .inl ⟨by rw [h.1], by simp⟩
  | storeGet t => exact .inl ⟨by rw [h.2], by simp⟩
  | storeRemove t => exact .inl ⟨by rw [h.2], by simp⟩
  | storeAll => exact .inl ⟨by rw [h.2], by simp⟩
  | storeDue now => exact .inl ⟨by rw [h.2], by simp⟩
  | targetExists t => exact .inl ⟨by rw [h.2], by simp⟩
  | revisionExists t => exact .inl ⟨by rw [h.2], by simp⟩
  | cachedCa => exact .inl ⟨by rw [h.2], by simp⟩
  | swapCa fetched => exact .inl ⟨by rw [h.2], by simp⟩
  | _ => obtain rfl := h; exact .inl ⟨rfl, by simp⟩

/-- A call leaves every target but its own alone. -/
theorem effect_other (h : Effect op s s') (ht : op.target ≠ some target) :
    s'.volumes target = s.volumes target ∧ s'.store.entriesAt target = s.store.entriesAt target := by
  cases h with
  | same hs hv => rw [hs, hv]; exact ⟨rfl, rfl⟩
  | insert e hop hs hv =>
    subst hop
    rw [hs, hv, Store.entriesAt_insert, if_neg fun h => ht (by rw [← h]; rfl)]
    exact ⟨rfl, rfl⟩
  | remove t hop hs hv =>
    rw [hs, hv, Store.entriesAt_remove, if_neg fun h => ht (by rw [hop, h])]
    exact ⟨rfl, rfl⟩
  | modify t f hop hf _ hs hv =>
    rw [hs, hv, Store.entriesAt_modify _ _ _ hf, if_neg fun h => ht (by rw [hop, h])]
    exact ⟨rfl, rfl⟩
  | grow t v' hop _ hs hv =>
    rw [hs, hv, Function.update_of_ne fun h => ht (by rw [hop, h])]
    exact ⟨rfl, rfl⟩
  | publish t v identity modes origin hop _ hs hv =>
    subst hop
    rw [hs, hv, Function.update_of_ne fun h => ht (by rw [h]; rfl)]
    exact ⟨rfl, rfl⟩
  | unpublish t v' hop hs hv =>
    subst hop
    rw [hs, hv, Function.update_of_ne fun h => ht (by rw [h]; rfl)]
    exact ⟨rfl, rfl⟩

/-- Where an entry comes from: one with the same ID was there for the same path, or this call
    inserted it. -/
theorem effect_entry (h : Effect op s s') {e' : Entry} (he : e' ∈ s'.store.entriesAt target) :
    (∃ e ∈ s.store.entriesAt target, e.spiffeId = e'.spiffeId) ∨ op = .storeInsert e' := by
  have keep : s'.store = s.store → ∃ e ∈ s.store.entriesAt target, e.spiffeId = e'.spiffeId := by
    intro hs
    rw [hs] at he
    exact ⟨e', he, rfl⟩
  cases h with
  | insert e hop hs _ =>
    rw [hs, Store.entriesAt_insert] at he
    split at he
    · obtain rfl := List.mem_singleton.mp he
      exact .inr hop
    · exact .inl ⟨e', he, rfl⟩
  | remove t _ hs _ =>
    rw [hs, Store.entriesAt_remove] at he
    split at he
    · cases he
    · exact .inl ⟨e', he, rfl⟩
  | modify t f _ hf hid hs _ =>
    rw [hs, Store.entriesAt_modify _ _ _ hf] at he
    split at he
    · obtain ⟨e, hmem, rfl⟩ := List.mem_map.mp he
      exact .inl ⟨e, hmem, (hid e).symm⟩
    · exact .inl ⟨e', he, rfl⟩
  | same hs _ => exact .inl (keep hs)
  | grow _ _ _ _ hs _ => exact .inl (keep hs)
  | publish _ _ _ _ _ _ _ hs _ => exact .inl (keep hs)
  | unpublish _ _ _ hs _ => exact .inl (keep hs)

/-- What becomes of a volume: it grows, it gets another identity, or it is unpublished. -/
theorem effect_volume (h : Effect op s s') {v : VolumeState} (hv : s.volumes target = some v) :
    (∃ v', s'.volumes target = some v' ∧ Grown v v') ∨
      (∃ identity modes origin, op = .publishIdentity target identity modes origin ∧
        s'.volumes target = some { v with identity := some identity }) ∨
      op = .unpublish target := by
  by_cases ht : op.target = some target
  · cases h with
    | same _ hvol => exact .inl ⟨v, by rw [hvol, hv], rfl, id⟩
    | insert _ _ _ hvol => exact .inl ⟨v, by rw [hvol, hv], rfl, id⟩
    | remove _ _ _ hvol => exact .inl ⟨v, by rw [hvol, hv], rfl, id⟩
    | modify _ _ _ _ _ _ hvol => exact .inl ⟨v, by rw [hvol, hv], rfl, id⟩
    | grow t v' hop hgrow _ hvol =>
      obtain rfl : t = target := Option.some.inj (hop.symm.trans ht)
      obtain ⟨v1, rfl, hg⟩ := hgrow v hv
      exact .inl ⟨v1, by rw [hvol, Function.update_self], hg⟩
    | publish t v0 identity modes origin hop hv0 _ hvol =>
      obtain rfl : t = target := by
        rw [hop] at ht
        exact Option.some.inj ht
      obtain rfl : v0 = v := Option.some.inj (hv0.symm.trans hv)
      exact .inr (.inl ⟨identity, modes, origin, hop, by rw [hvol, Function.update_self]⟩)
    | unpublish t v' hop _ _ =>
      obtain rfl : t = target := by
        rw [hop] at ht
        exact Option.some.inj ht
      exact .inr (.inr hop)
  · exact .inl ⟨v, (effect_other h ht).1.trans hv, rfl, id⟩

/-! ## 4. What a volume holds -/

/-- The leaf of this identity is for `id`. -/
def IdentityFor (reader : CertReader) (identity : Identity) (id : SpiffeId) : Prop :=
  ∃ facts, reader.inspect identity.certChainPem = .ok facts ∧ facts.spiffeId = id

/-- The target shows a complete identity whose leaf is for `id`. -/
def Holds (reader : CertReader) (s : NodeState) (target : String) (id : SpiffeId) : Prop :=
  ∃ v identity, s.volumes target = some v ∧ v.identity = some identity ∧
    IdentityFor reader identity id

/-- A leaf is for one ID only. -/
theorem IdentityFor.unique {reader : CertReader} {identity : Identity} {id id' : SpiffeId}
    (h : IdentityFor reader identity id) (h' : IdentityFor reader identity id') : id = id' := by
  obtain ⟨facts, hfacts, rfl⟩ := h
  obtain ⟨facts', hfacts', rfl⟩ := h'
  rw [hfacts] at hfacts'
  cases hfacts'
  rfl

theorem Holds.unique {reader : CertReader} {id id' : SpiffeId} (h : Holds reader s target id)
    (h' : Holds reader s target id') : id = id' := by
  obtain ⟨v, identity, hv, hid, hfor⟩ := h
  obtain ⟨v', identity', hv', hid', hfor'⟩ := h'
  obtain rfl : v = v' := Option.some.inj (hv.symm.trans hv')
  obtain rfl : identity = identity' := Option.some.inj (hid.symm.trans hid')
  exact hfor.unique hfor'

/-- The target has a policy revision. -/
def HasRevision (s : NodeState) (target : String) : Prop := s.revisionAt target = true

theorem hasRevision_iff :
    HasRevision s target ↔ ∃ v, s.volumes target = some v ∧ v.revision = true := by
  unfold HasRevision NodeState.revisionAt
  cases s.volumes target <;> simp

variable {reader : CertReader} {id : SpiffeId}

/-- A call keeps what a volume holds unless it publishes something else into it or removes it. -/
theorem effect_holds (h : Effect op s s') (hh : Holds reader s target id)
    (hpub : ∀ identity modes origin, op = .publishIdentity target identity modes origin →
      IdentityFor reader identity id) (hun : op ≠ .unpublish target) :
    Holds reader s' target id ∧ (HasRevision s target → HasRevision s' target) := by
  obtain ⟨v, identity, hv, hid, hfor⟩ := hh
  simp only [hasRevision_iff, hv]
  rcases effect_volume h hv with ⟨v', hv', hsame, hrev⟩ | ⟨identity', modes, origin, hop, hv'⟩ | hop
  · refine ⟨⟨v', identity, hv', hsame.trans hid, hfor⟩, ?_⟩
    rintro ⟨_, ⟨⟩, hr⟩
    exact ⟨v', hv', hrev hr⟩
  · refine ⟨⟨_, identity', hv', rfl, hpub identity' modes origin hop⟩, ?_⟩
    rintro ⟨_, ⟨⟩, hr⟩
    exact ⟨_, hv', hr⟩
  · exact absurd hop hun

/-- A publish that answered `Ok` shows what it published. -/
theorem publishIdentity_holds
    (h : nodeWorld (.publishIdentity target identity modes origin) s (.ok ()) s')
    (hfor : IdentityFor reader identity id) : Holds reader s' target id := by
  rcases publish_cases h with ⟨⟨e, he⟩, _⟩ | ⟨v, _, rfl⟩
  · cases he
  · exact ⟨_, identity, NodeState.setVolume_same s target _, rfl, hfor⟩

/-! ## 5. A node on which nothing fails

For runs that are played out: everything succeeds, and what comes from outside is given. -/

structure Scene where
  found : List Discovered
  generated : KeyAndCsr
  reply : SignReply
  caChain : String
  now : Int

def Scene.answer (scene : Scene) (op : NodeOp) (s : NodeState) : op.Ans × NodeState :=
  match op with
  | .storeGet target => (s.store.get target, s)
  | .storeInsert entry => ((), { s with store := s.store.insert entry })
  | .storeRemove target => (s.store.get target, { s with store := s.store.remove target })
  | .storeSetPodToken target token => ((), { s with store := s.store.setPodToken target token })
  | .storeAll => (s.store, s)
  | .storeDue now => (s.store.due now, s)
  | .storeRecordRenewal target notBefore notAfter renewAt =>
    ((), { s with store := s.store.recordRenewal target notBefore notAfter renewAt })
  | .storeRecordFailure target now => ((), { s with store := s.store.recordFailure target now 0 })
  | .ensureTmpfs target _ _ => (.ok (), s.mount target)
  | .publishIdentity target identity _ origin =>
    match s.volumes target with
    | none => (.error .notFound, s)
    | some v => (.ok (), s.publish target v identity origin)
  | .readIdentity target =>
    match (s.volumes target).bind (·.identity) with
    | none => (.error .notFound, s)
    | some identity => (.ok identity, s)
  | .readCertChain target =>
    match (s.volumes target).bind (·.identity) with
    | none => (.error .notFound, s)
    | some identity => (.ok identity.certChainPem, s)
  | .unpublish target => (.ok (), s.setVolume target none)
  | .targetExists target => ((s.volumes target).isSome, s)
  | .revisionExists target => (s.revisionAt target, s)
  | .publishPolicy target =>
    ((), s.setVolume target ((s.volumes target).map ({ · with revision := true })))
  | .cachedCa => (s.ca, s)
  | .swapCa fetched => (decide (s.ca = fetched), { s with ca := fetched })
  | .expose name target => (.ok (), s.expose name target)
  | .unexpose name => (.ok (), s.unexpose name)
  | .swapTokens _ _ => (.ok true, s)
  | .discover => (scene.found, s)
  | .generate _ => (.ok scene.generated, s)
  | .backendSign _ => (.ok scene.reply, s)
  | .backendCaChain => (.ok scene.caChain, s)
  | .fetchTokens _ _ => (.ok [], s)
  | .unixNow => (scene.now, s)
  | .deadlinePassed => (true, s)
  | .tokenWaitPassed => (true, s)
  | .jitteredRenewAt notBefore _ => (notBefore, s)
  | .startupSpread => (0, s)

theorem Scene.answer_world (scene : Scene) (op : NodeOp) (s : NodeState) :
    nodeWorld op s (scene.answer op s).1 (scene.answer op s).2 := by
  cases op with
  | publishIdentity target identity modes origin =>
    cases hv : s.volumes target with
    | none => simp [nodeWorld, Scene.answer, hv]
    | some v => simp [nodeWorld, Scene.answer, hv]
  | readIdentity target =>
    cases hv : (s.volumes target).bind (·.identity) with
    | none => simp [nodeWorld, Scene.answer, hv]
    | some identity => simp [nodeWorld, Scene.answer, hv, ← Option.bind_eq_some_iff]
  | readCertChain target =>
    cases hv : (s.volumes target).bind (·.identity) with
    | none => simp [nodeWorld, Scene.answer, hv]
    | some identity =>
      obtain ⟨v, hvol, hid⟩ := Option.bind_eq_some_iff.mp hv
      simp [nodeWorld, Scene.answer, hvol, hid]
  | ensureTmpfs target size gid => exact .inl rfl
  | unpublish target => exact .inl rfl
  | expose name target => exact .inl ⟨rfl, rfl⟩
  | unexpose name => exact .inl rfl
  | storeAll => exact ⟨.refl _, rfl⟩
  | storeDue now => exact ⟨⟨.refl _, s.store.due_sorted now⟩, rfl⟩
  | storeRecordFailure target now => exact ⟨0, rfl⟩
  | storeGet target => exact ⟨rfl, rfl⟩
  | storeRemove target => exact ⟨rfl, rfl⟩
  | targetExists target => exact ⟨rfl, rfl⟩
  | revisionExists target => exact ⟨rfl, rfl⟩
  | cachedCa => exact ⟨rfl, rfl⟩
  | swapCa fetched => exact ⟨rfl, rfl⟩
  | _ => rfl

/-! One pod, the default template, a policy required. -/

def onePlugin : Plugin Matcher.templateEngine where
  cfg :=
    { trustDomain := "example.org", cluster := "c", nodeName := "node-1",
      spiffeIdTemplate := onePolicy.template.raw, broker := none, tmpfsSize := "1m",
      policyGid := some 2000, policyRequired := true, policyInitialTimeout := 10000,
      modes := ⟨0o640, 0o644, none⟩ }
  policy := onePolicy
  reader :=
    { inspect := fun chain =>
        if chain = "old chain" then .ok ⟨oneId, 0, 3600⟩
        else if chain = "chain" then .ok ⟨oneId, 1800, 5400⟩ else .error (.certificate "not a chain")
      leafPublicKey := fun _ => .ok [1] }
  tokenIn _ _ := none

/-- What the kubelet has on record, and what the backend signs. -/
def oneScene : Scene where
  found := [⟨"csi-1", "/pods/1/mount", "1"⟩]
  generated := ⟨"key", "csr", [1]⟩
  reply := ⟨"chain", "ca"⟩
  caChain := "ca"
  now := 0

end Svidlet.Node
