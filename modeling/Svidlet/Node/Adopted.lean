import Svidlet.Node.PublishOk
import Svidlet.Node.TrustBundle
import Svidlet.Issue.FirstReading

/-!
# Taking up one's own volumes

After a restart the plugin has no renewal list. `adopt` walks the volumes the kubelet has on record,
reads the certificate in each, and takes up those whose ID "this node would have issued": the ID is
taken apart, and the trust domain, the cluster and the node's name must be the plugin's own.

> An ID this node rendered is taken for its own exactly if the **first reading** of it is right about
> these three fields.

The reading is right whenever a character that values cannot have stands between any two
placeholders. Otherwise a volume may be left out of every pass, and "the kubelet does not re-call
`NodePublishVolume` for a volume that is still mounted, so a volume that is never adopted keeps running
until its certificate expires under it".

What the passes do is said of the calls they make, with any answers: whatever else runs meanwhile.
-/

namespace Svidlet.Node

open Lib Issue

/-! ## 1. An ID of this node -/

/-- The fields `identity_belongs_here` looks at. -/
def ownFields : List Field := [.trustDomain, .cluster, .nodeName]

section

variable {E : RegexEngine} {plugin : Plugin E}

theorem identityFrom_ok {ctx : List (String × String)} {id : SpiffeId} {pod : PodRef}
    (h : identityFrom plugin ctx = .ok (id, pod)) :
    plugin.policy.render (attributesFrom plugin ctx) = .ok id := by
  unfold identityFrom at h
  obtain ⟨_, -, h⟩ := bind_ok.mp h
  obtain ⟨_, -, h⟩ := bind_ok.mp h
  obtain ⟨_, -, h⟩ := bind_ok.mp h
  obtain ⟨_, -, h⟩ := bind_ok.mp h
  obtain ⟨id', hid, h⟩ := bind_ok.mp h
  obtain ⟨rfl, -⟩ := Prod.mk.inj (pure_ok.mp h)
  cases hr : plugin.policy.render (attributesFrom plugin ctx) with
  | error e =>
    rw [hr] at hid
    cases hid
  | ok id'' =>
    rw [hr] at hid
    exact congrArg _ (Except.ok.inj hid)

/-- What must be equal for an ID that can be read and passes the pattern. -/
theorem identityBelongsHere_ok {id : String} {back : WorkloadAttributes}
    (hcheck : plugin.policy.check id = .ok ()) (hback : plugin.policy.attributesOf id = some back) :
    identityBelongsHere plugin id = .ok () ↔
      ∀ f ∈ plugin.policy.template.requiredFields, f ∈ ownFields →
        back.get f = (attributesFrom plugin []).get f := by
  unfold identityBelongsHere
  rw [hback, hcheck]
  simp only [Except.mapError, bind_ok, refuseIf_ok, not_and, not_not, exists_const]
  constructor
  · intro h f hf hown
    obtain ⟨-, htd, hcl, hnode⟩ := h
    simp only [ownFields, List.mem_cons, List.not_mem_nil, or_false] at hown
    obtain rfl | rfl | rfl := hown
    · exact htd hf
    · exact hcl hf
    · exact hnode hf
  · intro h
    exact ⟨trivial, fun hf => h _ hf (by decide), fun hf => h _ hf (by decide),
      fun hf => h _ hf (by decide)⟩

/-- The three fields are the plugin's own, whatever the pod. -/
theorem attributesFrom_own {f : Field} (hf : f ∈ ownFields) (ctx : List (String × String)) :
    (attributesFrom plugin ctx).get f = (attributesFrom plugin []).get f := by
  simp only [ownFields, List.mem_cons, List.not_mem_nil, or_false] at hf
  obtain rfl | rfl | rfl := hf <;> rfl

theorem belongs_iff (hE : E.TakesFirst) (ht : plugin.policy.template.Compiled)
    {ctx : List (String × String)} {id : SpiffeId}
    (hid : plugin.policy.render (attributesFrom plugin ctx) = .ok id) :
    identityBelongsHere plugin id.asStr = .ok () ↔
      ¬ Misread ownFields plugin.policy.template.parts (attributesFrom plugin ctx) := by
  obtain ⟨htemplate, hcheck⟩ := IdPolicy.render_ok hid
  obtain ⟨back, hback, hread⟩ := read_back hE ht htemplate
  rw [identityBelongsHere_ok hcheck hback, hread.right_iff, ← ht.fields_eq]
  refine forall₂_congr fun f _ => forall_congr' fun hown => ?_
  rw [attributesFrom_own hown ctx]

end

/-! ## 2. What a pass takes up -/

/-- The store knew the target when the pass came to it. -/
def Known (tr : List (Event NodeSig)) (target : String) : Prop :=
  ∃ entry, ⟨.storeGet target, some entry⟩ ∈ tr

def Inserted (tr : List (Event NodeSig)) (target : String) : Prop :=
  ∃ entry : Entry, entry.targetPath = target ∧ ⟨.storeInsert entry, ()⟩ ∈ tr

/-- Whenever the certificate at the target was read, it could be, and it was this ID's. -/
def Carries (reader : CertReader) (tr : List (Event NodeSig)) (target : String) (id : SpiffeId) :
    Prop :=
  ∀ r, ⟨.readCertChain target, r⟩ ∈ tr →
    ∃ chain facts, r = .ok chain ∧ reader.inspect chain = .ok facts ∧ facts.spiffeId = id

/-- What the call inserts, if anything, is under this target. -/
def InsertsAt (target : String) (op : NodeOp) : Prop :=
  ∀ entry, op = .storeInsert entry → entry.targetPath = target

section

variable {E : RegexEngine} {plugin : Plugin E} {σ : Type} {W : World NodeSig σ} {s s' : σ}
  {tr : List (Event NodeSig)} {now : Int} {target : String} {id : SpiffeId}

theorem inserted_append {tr1 tr2 : List (Event NodeSig)} :
    Inserted (tr1 ++ tr2) target ↔ Inserted tr1 target ∨ Inserted tr2 target := by
  simp only [Inserted, List.mem_append, and_or_left, exists_or]

variable {found : Discovered}

theorem adoptFound_inserts {facts : CertFacts}
    (h : Exec W (adoptFound plugin now found facts) s tr () s') : Inserted tr found.targetPath := by
  unfold adoptFound at h
  obtain ⟨tr1, tr2, renewAt, s1, rfl, -, h⟩ := h.bind_inv
  dsimp only at h
  split at h
  · obtain ⟨tr3, tr4, at', s2, rfl, -, h⟩ := h.bind_inv
    obtain ⟨tr5, tr6, _, s3, rfl, hinsert, -⟩ := h.bind_inv
    obtain ⟨rfl, -⟩ := hinsert.op_inv
    refine ⟨_, ?_, List.mem_append_right _ (List.mem_append_right _ (.head _))⟩
    rfl
  obtain ⟨tr3, tr4, at', s2, rfl, -, h⟩ := h.bind_inv
  obtain ⟨tr5, tr6, _, s3, rfl, hinsert, -⟩ := h.bind_inv
  obtain ⟨rfl, -⟩ := hinsert.op_inv
  refine ⟨_, ?_, List.mem_append_right _ (List.mem_append_right _ (.head _))⟩
  rfl

variable {list : List Discovered}

/-- One volume: unless the store knew it, it is inserted if the ID it carries is this node's. -/
theorem adoptOne_run {adopted : Bool} (h : Exec W (adoptOne plugin now found) s tr adopted s')
    (hid : Carries plugin.reader tr target id) (hnew : ¬ Known tr target) :
    Inserted tr target ↔
      found.targetPath = target ∧ identityBelongsHere plugin id.asStr = .ok () := by
  unfold adoptOne at h
  obtain ⟨tr1, tr2, held, s1, rfl, hget, h1⟩ := h.bind_inv
  obtain ⟨rfl, -⟩ := hget.op_inv
  cases held with
  | some entry =>
    rw [Option.isSome_some, if_pos rfl] at h1
    cases h1
    have hother : found.targetPath ≠ target := by
      rintro rfl
      exact hnew ⟨entry, by simp⟩
    simp [Inserted, hother]
  | none =>
    obtain ⟨tr3, tr4, r, s2, rfl, hread, h2⟩ := h1.bind_inv
    obtain ⟨rfl, -⟩ := hread.op_inv
    -- the calls that decide are made: the rest of the run is `adopt_found`, or nothing
    have hfirst : Inserted ([⟨.storeGet found.targetPath, none⟩] ++
        ([⟨.readCertChain found.targetPath, r⟩] ++ tr4)) target ↔ Inserted tr4 target := by
      simp [Inserted]
    have hcarried : found.targetPath = target →
        ∃ chain facts, r = .ok chain ∧ plugin.reader.inspect chain = .ok facts ∧
          facts.spiffeId = id := by
      rintro rfl
      exact hid r (by simp)
    rw [hfirst]
    cases r with
    | error e =>
      cases h2
      refine ⟨fun h => by simp [Inserted] at h, fun h => ?_⟩
      obtain ⟨_, _, hr, -⟩ := hcarried h.1
      cases hr
    | ok chain =>
      dsimp only at h2
      split at h2
      · rename_i e he
        cases h2
        refine ⟨fun h => by simp [Inserted] at h, fun h => ?_⟩
        obtain ⟨_, _, hr, hfacts, -⟩ := hcarried h.1
        cases hr
        rw [he] at hfacts
        cases hfacts
      · rename_i facts hfacts
        have hsame : found.targetPath = target → facts.spiffeId = id := by
          intro htarget
          obtain ⟨_, _, hr, hfacts', hid'⟩ := hcarried htarget
          cases hr
          rw [hfacts] at hfacts'
          exact (congrArg CertFacts.spiffeId (Except.ok.inj hfacts')).trans hid'
        split at h2
        · rename_i e he
          cases h2
          refine ⟨fun h => by simp [Inserted] at h, fun h => ?_⟩
          rw [hsame h.1, h.2] at he
          cases he
        rename_i hbelongs
        obtain ⟨tr5, tr6, _, s3, rfl, hfound, h3⟩ := h2.bind_inv
        cases h3
        rw [List.append_nil]
        constructor
        · intro h
          obtain ⟨entry, htarget, hmem⟩ := h
          have hown : target = found.targetPath := by
            rw [← htarget]
            refine Exec.makes_trace (adoptFound_makes (φ := InsertsAt found.targetPath) ?_ ?_)
              hfound _ hmem entry rfl
            · intro op hop _ entry heq
              rw [heq] at hop
              cases hop
            · intro inserted hat entry heq
              cases heq
              exact hat
          exact ⟨hown.symm, by rw [← hsame hown.symm]; exact hbelongs⟩
        · intro h
          rw [← h.1]
          exact adoptFound_inserts hfound

theorem adoptEach_run {n : Nat} (h : Exec W (adoptEach plugin now list) s tr n s')
    (hid : Carries plugin.reader tr target id) (hnew : ¬ Known tr target) :
    Inserted tr target ↔ (∃ found ∈ list, found.targetPath = target) ∧
      identityBelongsHere plugin id.asStr = .ok () := by
  induction list generalizing s tr n with
  | nil =>
    cases h
    simp [Inserted]
  | cons found rest ih =>
    obtain ⟨tr1, tr2, adopted, s1, rfl, hone, h1⟩ := h.bind_inv
    obtain ⟨tr3, tr4, m, s2, rfl, hrest, h2⟩ := h1.bind_inv
    cases h2
    simp only [List.append_nil] at hid hnew ⊢
    have hone' := adoptOne_run hone (fun r hr => hid r (List.mem_append_left _ hr))
      fun h => hnew (h.imp fun _ => List.mem_append_left _)
    have hrest' := ih hrest (fun r hr => hid r (List.mem_append_right _ hr))
      fun h => hnew (h.imp fun _ => List.mem_append_right _)
    rw [inserted_append, hone', hrest', ← or_and_right]
    simp

/-- A pass: of the volumes it finds and the store does not know, those that carry an ID of this node
    are inserted. -/
theorem adopt_run {n : Nat} (h : Exec W (adopt plugin) s tr n s') (hlist : ⟨.discover, list⟩ ∈ tr)
    (hfound : found ∈ list) (hid : Carries plugin.reader tr found.targetPath id)
    (hnew : ¬ Known tr found.targetPath) :
    Inserted tr found.targetPath ↔ identityBelongsHere plugin id.asStr = .ok () := by
  obtain ⟨tr1, tr2, now, s1, rfl, hnow, h1⟩ := h.bind_inv
  obtain ⟨tr3, tr4, list', s2, rfl, hdisc, h2⟩ := h1.bind_inv
  obtain ⟨rfl, -⟩ := hnow.op_inv
  obtain ⟨rfl, -⟩ := hdisc.op_inv
  have hsame : list = list' := by
    simp only [List.cons_append, List.nil_append, List.mem_cons, Event.mk.injEq] at hlist
    obtain ⟨h, -⟩ | ⟨-, h⟩ | h := hlist
    · cases h
    · exact eq_of_heq h
    · exact absurd rfl (Exec.makes_trace (adoptEach_makes (φ := (· ≠ .discover))
        (fun _ _ hne => hne) (fun _ => by simp)) h2 _ h)
  have heach := adoptEach_run h2 (fun r hr => hid r (by simp [hr]))
    fun h => hnew (h.imp fun _ hmem => by simp [hmem])
  have hfirst : Inserted ([⟨.unixNow, now⟩] ++ ([⟨.discover, list'⟩] ++ tr4)) found.targetPath ↔
      Inserted tr4 found.targetPath := by
    simp [Inserted]
  rw [hfirst, heach, and_iff_right ⟨found, hsame ▸ hfound, rfl⟩]

end

/-! ## 3. The theorem -/

/-- **When a node takes the IDs it rendered for its own**, and what its adoption passes then do with
    the volumes that carry them. -/
theorem rendered_id_is_adopted_iff {E : RegexEngine} (hE : E.TakesFirst) {plugin : Plugin E}
    {template : String} {pattern : Option String}
    (hpolicy : IdPolicy.new template pattern = .ok plugin.policy)
    {ctx : List (String × String)} {id : SpiffeId} {pod : PodRef}
    (hid : identityFrom plugin ctx = .ok (id, pod)) :
    (identityBelongsHere plugin id.asStr = .ok () ↔
      ¬ Misread ownFields plugin.policy.template.parts (attributesFrom plugin ctx)) ∧
    (∀ (σ : Type) (W : World NodeSig σ) s tr n s', Exec W (adopt plugin) s tr n s' →
      ∀ list, ⟨.discover, list⟩ ∈ tr → ∀ found ∈ list,
        Carries plugin.reader tr found.targetPath id → ¬ Known tr found.targetPath →
          (Inserted tr found.targetPath ↔
            ¬ Misread ownFields plugin.policy.template.parts (attributesFrom plugin ctx))) ∧
    (Separated plugin.policy.template.parts →
      ¬ Misread ownFields plugin.policy.template.parts (attributesFrom plugin ctx)) := by
  have hrender := identityFrom_ok hid
  have hiff := belongs_iff hE (IdPolicy.new_compiled hpolicy) hrender
  refine ⟨hiff, ?_, fun hsep => ?_⟩
  · intro σ W s tr n s' hrun list hlist found hfound hcarries hnew
    rw [← hiff]
    exact adopt_run hrun hlist hfound hcarries hnew
  · exact not_misread_of_separated (IdPolicy.render_ok hrender).1 hsep ownFields

/-! ## 4. With slashes, and with a dash -/

open Matcher (templateEngine)

/-- An adoption pass, alone, after a restart. -/
def playAdopt (plugin : Plugin templateEngine) : List (Event NodeSig) × Nat × NodeState :=
  (adopt plugin).play oneScene.answer restartedNode

theorem playAdopt_exec (plugin : Plugin templateEngine) : Exec nodeWorld (adopt plugin) restartedNode
    (playAdopt plugin).1 (playAdopt plugin).2.1 (playAdopt plugin).2.2 :=
  Prog.play_exec oneScene.answer_world _ _

theorem separated_one : Separated onePlugin.policy.template.parts := by
  have hgaps : (gapsOf onePolicy.template.parts).dropLast =
      ["/cluster/".toList, "/ns/".toList, "/sa/".toList] := by decide
  unfold Separated
  have hslash : segmentChar '/' = false := by decide
  rw [show onePlugin.policy = onePolicy from rfl, hgaps]
  simp [hslash]

/-- The calls of the pass. -/
def adoptTrace : List (Event NodeSig) :=
  [⟨.unixNow, (0 : Int)⟩, ⟨.discover, oneScene.found⟩, ⟨.storeGet "/pods/1/mount", none⟩,
    ⟨.readCertChain "/pods/1/mount", .ok "chain"⟩, ⟨.jitteredRenewAt 1800 5400, (1800 : Int)⟩,
    ⟨.storeInsert ⟨"csi-1", "/pods/1/mount", oneId, ⟨"", "n", "1", "s"⟩, 1800, 5400, 1800, 0, none⟩, ()⟩,
    ⟨.expose (farmName "csi-1") "/pods/1/mount", .ok ()⟩]

theorem rendered_id_is_adopted_one :
    identityFrom onePlugin oneRequest.volumeContext = .ok (oneId, ⟨"p", "n", "1", "s"⟩) ∧
    identityBelongsHere onePlugin oneId.asStr = .ok () ∧
    Inserted (playAdopt onePlugin).1 "/pods/1/mount" := by
  have hpolicy : IdPolicy.new onePolicy.template.raw none = .ok onePlugin.policy := by decide
  have hid : identityFrom onePlugin oneRequest.volumeContext = .ok (oneId, ⟨"p", "n", "1", "s"⟩) := by
    decide
  obtain ⟨hiff, hadopt, hsep⟩ := rendered_id_is_adopted_iff Matcher.templateEngine_takesFirst hpolicy hid
  have hright := hsep separated_one
  have htrace : (playAdopt onePlugin).1 = adoptTrace := by rfl
  rw [htrace]
  refine ⟨hid, hiff.mpr hright, ?_⟩
  have hrun := playAdopt_exec onePlugin
  rw [htrace] at hrun
  refine (hadopt _ nodeWorld _ _ _ _ hrun oneScene.found ?_ _ (.head _) ?_ ?_).mpr hright
  · exact .tail _ (.head _)
  · intro r hr
    refine ⟨"chain", ⟨oneId, 1800, 5400⟩, ?_, rfl, rfl⟩
    simpa [adoptTrace, oneScene] using hr
  · intro hknown
    obtain ⟨entry, hentry⟩ := hknown
    simp [adoptTrace, oneScene] at hentry

/-- A plugin whose template joins the node's name and the cluster by a dash. -/
def dashTemplate : String := "spiffe://{node_name}-{cluster}/{namespace}/{service_account}"

theorem dashTemplate_accepted :
    (IdPolicy.new (E := templateEngine) dashTemplate none).toOption.isSome = true := by decide

theorem dashId_valid : checkId "spiffe://node-1-c/n/s" = .ok () := by decide

def dashId : SpiffeId := ⟨"spiffe://node-1-c/n/s", dashId_valid⟩

def dashPlugin : Plugin templateEngine := { onePlugin with
    policy := (IdPolicy.new dashTemplate none).toOption.get dashTemplate_accepted
    reader := { onePlugin.reader with inspect := fun _ => .ok ⟨dashId, 0, 3600⟩ } }

/-- Node `node-1` of cluster `c` renders an ID and has it published; after a restart the pass reads
    it as one of cluster `1-c`, and leaves the volume out. -/
theorem rendered_id_is_left_out : IdPolicy.new dashTemplate none = .ok dashPlugin.policy ∧
    identityFrom dashPlugin oneRequest.volumeContext = .ok (dashId, ⟨"p", "n", "1", "s"⟩) ∧
    identityBelongsHere dashPlugin dashId.asStr = .error "belongs to cluster \"1-c\", not \"c\"" ∧
    Exec nodeWorld (adopt dashPlugin) restartedNode (playAdopt dashPlugin).1
      (playAdopt dashPlugin).2.1 (playAdopt dashPlugin).2.2 ∧
    (playAdopt dashPlugin).2.2.store.get "/pods/1/mount" = none :=
  ⟨ok_of_isSome dashTemplate_accepted, by decide, by decide, playAdopt_exec dashPlugin, by decide⟩

end Svidlet.Node
