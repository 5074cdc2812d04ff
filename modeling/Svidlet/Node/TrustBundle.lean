import Svidlet.Lib.Session
import Svidlet.Node.World

/-!
# What a pass of the trust-bundle refresh reaches

`Publisher::refresh_ca` fetches the trust bundle and rewrites `ca.crt` in every volume of the store,
one volume after the other; a volume it cannot read or write is left for a later pass. Whether a
later pass comes to it is decided by the cached bundle, and the cache says what was *fetched* last,
not what has been *written*:

> **a pass that finds the bundle it fetched in the cache already writes nothing.**

So a volume that failed in the pass that changed the cache, and one adopted after the cache was
primed, keep their old `ca.crt` for as long as the bundle stays the same. A pass reaches every
volume exactly when the cache held another bundle, or there was nothing to write.
-/

namespace Svidlet.Node

open Lib Issue
open Volume (Identity Modes)

variable {E : RegexEngine} {plugin : Plugin E} {s s' : NodeState} {target fetched : String}

/-! ## 1. Sequences of passes -/

/-- What touches the trust bundle: start-up, adoption, issuing, and the refresh. -/
inductive BundleCall where
  | primeCa
  | adopt
  | issue (spiffeId : SpiffeId) (target : String) (pod : PodRef) (podToken : Option PodToken)
  | refreshCa
  deriving DecidableEq

def bundleCall (plugin : Plugin E) : BundleCall → Prog NodeSig (Except Error Unit)
  | .primeCa => primeCa.run
  | .adopt => (fun _ => .ok ()) <$> adopt plugin
  | .issue spiffeId target pod podToken =>
    (·.map fun _ => ()) <$> (issue plugin spiffeId target pod podToken).run
  | .refreshCa => (·.map fun _ => ()) <$> (refreshCa plugin).run

/-- The `ca.crt` on show. -/
def caAt (s : NodeState) (target : String) : Option String :=
  ((s.volumes target).bind (·.identity)).map (·.caPem)

/-- Reading or writing a volume failed. -/
def volumeFailed : Event NodeSig → Bool
  | ⟨.readIdentity _, .error _⟩ => true
  | ⟨.publishIdentity _ _ _ _, .error _⟩ => true
  | _ => false

/-- The bundle a pass has fetched. -/
def fetchedIn (tr : List (Event NodeSig)) : Option String := tr.findSome? fun
    | ⟨.backendCaChain, .ok bundle⟩ => some bundle
    | _ => none

/-- Every volume of the store shows this bundle. -/
def EveryVolumeHas (store : Store) (s : NodeState) (bundle : String) : Prop :=
  ∀ e ∈ store, caAt s e.targetPath = some bundle

instance (store : Store) (s : NodeState) (bundle : String) :
    Decidable (EveryVolumeHas store s bundle) :=
  inferInstanceAs (Decidable (∀ e ∈ store, caAt s e.targetPath = some bundle))

theorem caAt_congr (h : s'.volumes target = s.volumes target) : caAt s' target = caAt s target := by
  unfold caAt
  rw [h]

theorem caAt_publish {v : VolumeState} {identity : Identity} {origin : Origin} :
    caAt (s.publish target v identity origin) target = some identity.caPem := by
  simp [caAt, NodeState.publish, NodeState.setVolume]

/-! ## 2. The loop -/

/-- A node on which every volume can be read and written. -/
def smoothWorld : World NodeSig NodeState :=
  fun op s ans s' => nodeWorld op s ans s' ∧ volumeFailed ⟨op, ans⟩ = false

/-- What one round leaves: its own volume has the bundle, and so has every volume that had it. -/
def Reached (fetched target : String) (s s' : NodeState) : Prop :=
  caAt s' target = some fetched ∧ ∀ t, caAt s t = some fetched → caAt s' t = some fetched

theorem publish_reached {identity : Identity} {modes : Modes} {origin : Origin}
    (h : smoothWorld (.publishIdentity target identity modes origin) s (.ok ()) s')
    (hca : identity.caPem = fetched) : Reached fetched target s s' := by
  obtain ⟨⟨e, he⟩, _⟩ | ⟨v, _, rfl⟩ := publish_cases h.1
  · cases he
  refine ⟨by rw [caAt_publish, hca], ?_⟩
  intro t ht
  by_cases heq : t = target
  · subst heq
    rw [caAt_publish, hca]
  · have hother : (s.publish target v identity origin).volumes t = s.volumes t :=
      s.setVolume_other _ heq
    rw [caAt_congr hother, ht]

theorem refreshCaOf_reaches (entry : Entry) :
    wp smoothWorld (fun _ s' => Reached fetched entry.targetPath s s')
      (refreshCaOf plugin fetched entry) s := by
  unfold refreshCaOf
  rw [wp_bind]
  intro r s1 hread
  cases r with
  | error e => exact absurd hread.2 (by simp [volumeFailed])
  | ok current =>
    obtain ⟨rfl, hshown⟩ := hread.1
    obtain ⟨v, hv, hid⟩ := hshown current rfl
    have hca : caAt s1 entry.targetPath = some current.caPem := by simp [caAt, hv, hid]
    show wp smoothWorld _ (if current.caPem = fetched then _ else _) s1
    split
    · rename_i hsame
      exact ⟨by rw [hca, hsame], fun _ h => h⟩
    rw [wp_bind]
    intro r s2 hpub
    cases r with
    | error e => exact absurd hpub.2 (by simp [volumeFailed])
    | ok u => exact publish_reached hpub rfl

/-- By induction over the list: a volume that has the bundle keeps it through the later rounds. -/
theorem refreshCaEach_reaches (entries : List Entry) :
    wp smoothWorld (fun _ s' => (∀ e ∈ entries, caAt s' e.targetPath = some fetched) ∧
        ∀ t, caAt s t = some fetched → caAt s' t = some fetched)
      (refreshCaEach plugin fetched entries) s := by
  induction entries generalizing s with
  | nil => exact ⟨fun e he => absurd he List.not_mem_nil, fun _ h => h⟩
  | cons entry rest ih =>
    unfold refreshCaEach
    refine wp_bind_of (refreshCaOf_reaches entry) ?_
    intro updated s1 hone
    refine wp_bind_of ih ?_
    intro n s2 hrest
    refine ⟨?_, fun t ht => hrest.2 t (hone.2 t ht)⟩
    intro e he
    rcases List.mem_cons.mp he with rfl | he
    · exact hrest.2 _ hone.1
    · exact hrest.1 e he

/-! ## 3. A whole pass -/

/-- What a pass that returns Ok has done: nothing, when the cache had the bundle, and otherwise its
    rounds over the whole store. -/
theorem refreshCa_exec {tr : List (Event NodeSig)} (hsmooth : ∀ ev ∈ tr, volumeFailed ev = false)
    (hfetch : fetchedIn tr = some fetched)
    (hrun : Exec nodeWorld (bundleCall plugin .refreshCa) s tr (.ok ()) s') :
    (s.ca = fetched ∧ s'.volumes = s.volumes) ∨
      (s.ca ≠ fetched ∧ EveryVolumeHas s.store s' fetched) := by
  have hrun := hrun.restrict hsmooth
  unfold bundleCall refreshCa at hrun
  rw [map_eq_pure_bind] at hrun
  obtain ⟨tr1, tr2, r, s1, rfl, hpass, hend⟩ := hrun.bind_inv
  obtain ⟨n, rfl⟩ : ∃ n, r = .ok n := by
    cases r with
    | ok n => exact ⟨n, rfl⟩
    | error e => cases hend
  cases hend
  obtain ⟨trf, trest, bundle, sf, rfl, hask, hrest⟩ := hpass.run_bind_ok
  obtain ⟨rfl, hback, _⟩ := hask.op_inv
  obtain rfl : sf = s := hback
  obtain rfl : bundle = fetched := Option.some.inj hfetch
  rw [ExceptT.run_bind_lift] at hrest
  obtain ⟨trc, trw, same, sc, rfl, hswap, hwrite⟩ := hrest.bind_inv
  obtain ⟨rfl, ⟨hsame, rfl⟩, _⟩ := hswap.op_inv
  by_cases hca : sf.ca = bundle
  · rw [hsame, decide_eq_true hca] at hwrite
    cases hwrite
    exact .inl ⟨hca, rfl⟩
  rw [hsame, decide_eq_false hca] at hwrite
  simp only [Bool.false_eq_true, if_false, ExceptT.run_bind_lift] at hwrite
  obtain ⟨tra, tre, entries, sa, rfl, hall, heach⟩ := hwrite.bind_inv
  obtain ⟨rfl, ⟨hperm, rfl⟩, _⟩ := hall.op_inv
  rw [ExceptT.run_lift, map_eq_pure_bind] at heach
  obtain ⟨_, _, _, _, rfl, hloop, hret⟩ := heach.bind_inv
  cases hret
  obtain ⟨hreached, _⟩ := hloop.post (refreshCaEach_reaches entries)
  exact .inr ⟨hca, fun e he => hreached e (hperm.mem_iff.mpr he)⟩

/-- After any sequence of passes: a refresh during which every volume can be read and written, and
    which fetches a bundle and returns Ok, leaves it in every volume that was in the store exactly
    when the cache did not hold that bundle, or every volume had it already. -/
theorem refresh_reaches_every_volume {s₀ : NodeState}
    {ds : List (Done NodeSig BundleCall (Except Error Unit))} {tr : List (Event NodeSig)}
    (hseq : Session nodeWorld (bundleCall plugin) s₀ (ds ++ [⟨.refreshCa, tr, .ok ()⟩]) s')
    (hsmooth : ∀ ev ∈ tr, volumeFailed ev = false) (hfetch : fetchedIn tr = some fetched) :
    (∃ s, Session nodeWorld (bundleCall plugin) s₀ ds s ∧
      Exec nodeWorld (bundleCall plugin .refreshCa) s tr (.ok ()) s') ∧
    ∀ s, Session nodeWorld (bundleCall plugin) s₀ ds s →
      Exec nodeWorld (bundleCall plugin .refreshCa) s tr (.ok ()) s' →
      (EveryVolumeHas s.store s' fetched ↔ s.ca ≠ fetched ∨ EveryVolumeHas s.store s fetched) := by
  refine ⟨hseq.snoc_inv, ?_⟩
  rintro s - hrun
  rcases refreshCa_exec hsmooth hfetch hrun with ⟨hcached, hvolumes⟩ | ⟨hca, hreached⟩
  · -- nothing was written, so the volumes show what they showed
    have hsame : EveryVolumeHas s.store s' fetched ↔ EveryVolumeHas s.store s fetched := by
      refine forall₂_congr ?_
      intro e _
      rw [caAt_congr (congrFun hvolumes e.targetPath)]
    rw [hsame]
    exact ⟨.inr, fun h => h.resolve_left fun hne => hne hcached⟩
  · exact ⟨fun _ => .inl hca, fun _ => hreached⟩

/-! ## 4. Passes played out -/

/-- A volume from before a restart, with the trust bundle of that time. -/
def restartedNode : NodeState where
  store := []
  volumes target :=
    if target = "/pods/1/mount" then some ⟨some ⟨"key", "chain", "old ca"⟩, true⟩ else none
  ca := ""
  issued _ := none

/-- The backend has a new bundle. -/
def rotatedScene : Scene := { oneScene with caChain := "-----BEGIN CERTIFICATE-----" }

def playBundle (calls : List BundleCall) :
    List (Done NodeSig BundleCall (Except Error Unit)) × NodeState :=
  playAll rotatedScene.answer (bundleCall onePlugin) calls restartedNode

theorem playBundle_session (calls : List BundleCall) :
    Session nodeWorld (bundleCall onePlugin) restartedNode (playBundle calls).1 (playBundle calls).2 :=
  playAll_session rotatedScene.answer_world (bundleCall onePlugin) calls restartedNode

/-- A refresh after these calls. -/
def playRefresh (calls : List BundleCall) : List (Event NodeSig) × Except Error Unit × NodeState :=
  (bundleCall onePlugin .refreshCa).play rotatedScene.answer (playBundle calls).2

theorem playRefresh_exec (calls : List BundleCall) :
    Exec nodeWorld (bundleCall onePlugin .refreshCa) (playBundle calls).2 (playRefresh calls).1
      (playRefresh calls).2.1 (playRefresh calls).2.2 :=
  Prog.play_exec rotatedScene.answer_world _ _

/-- A volume adopted before the refresh, with nothing in the cache, gets the new bundle. -/
theorem refresh_reaches_every_volume_adopted :
    (playBundle [.adopt]).2.ca ≠ rotatedScene.caChain ∧
      EveryVolumeHas (playBundle [.adopt]).2.store (playRefresh [.adopt]).2.2 rotatedScene.caChain := by
  have hok : (playRefresh [.adopt]).2.1 = .ok () := by decide
  have hexec := playRefresh_exec [.adopt]
  rw [hok] at hexec
  have hbefore := playBundle_session [.adopt]
  have hca : (playBundle [.adopt]).2.ca ≠ rotatedScene.caChain := by decide
  refine ⟨hca, ?_⟩
  exact ((refresh_reaches_every_volume (hbefore.snoc hexec) (by decide) (by decide)).2 _ hbefore
    hexec).mpr (.inl hca)

/-- Start-up primes the cache and adopts the volume; the refresh then fetches the same bundle, can
    read and write the volume, answers Ok, and leaves the old `ca.crt`. -/
theorem primed_refresh_leaves_old_ca :
    ∃ ds s tr s', Session nodeWorld (bundleCall onePlugin) restartedNode ds s ∧
      Exec nodeWorld (bundleCall onePlugin .refreshCa) s tr (.ok ()) s' ∧
      (∀ ev ∈ tr, volumeFailed ev = false) ∧ fetchedIn tr = some rotatedScene.caChain ∧
      (∀ e ∈ s.store, (caAt s e.targetPath).isSome) ∧
      ¬ EveryVolumeHas s.store s' rotatedScene.caChain := by
  have hok : (playRefresh [.primeCa, .adopt]).2.1 = .ok () := by decide
  have hexec := playRefresh_exec [.primeCa, .adopt]
  rw [hok] at hexec
  exact ⟨_, _, _, _, playBundle_session [.primeCa, .adopt], hexec, by decide,
    by decide, by decide, by decide⟩

end Svidlet.Node
