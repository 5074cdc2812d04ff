import Svidlet.Broker.World
import Svidlet.Issue.Rendering

/-!
# What a signed identity rests on

> **If the broker signs, the ID is rendered from attested facts only.**

The facts are answers of the API server: a review of the node's token and the pod it is bound to, a
review of the pod's token and the pod that one is bound to. `NodeAttested` and `PodAttested` say
what these answers have to be, `Admitted` is the rules I8 and I9 read as statements about the pod,
and none of the three mentions the request's own names.

The second half is about two requests. Whatever a caller writes in the hint fields, it is signed the
same ID or refused: the rendered attributes are functions of the API server's answers to two tokens.
That is a property of pairs of runs, and it follows from the first half because the answers determine
the pod (`PodAttested.unique`).
-/

namespace Svidlet.Broker

open Lib Issue

/-! ## 1. What is attested -/

/-- The node token was reviewed by `k₁` and is bound to a live pod of the DaemonSet, read from `k₂`,
    that runs on `node`. -/
def NodeAttested (cfg : Config) (k₁ k₂ : Kube) (nodeToken node : String) : Prop :=
  ∃ review pod, k₁.tokenReview nodeToken cfg.audience = .ok (some review) ∧
    k₂.pod cfg.nodeNamespace pod.name = .ok (some pod) ∧
    review.username = cfg.nodeUsername ∧
    review.podName = some pod.name ∧ review.podUid = some pod.uid ∧
    pod.ns = cfg.nodeNamespace ∧ pod.terminating = false ∧
    ("DaemonSet", cfg.nodeDaemonset) ∈ pod.owners ∧ pod.nodeName = node ∧ node ≠ ""

/-- The pod token was reviewed by `k₁` and is bound to `pod`, which was read from `k₂` and is live,
    in the namespace and under the ServiceAccount of the token's username, and on `node`. -/
def PodAttested (cfg : Config) (k₁ k₂ : Kube) (podToken node : String) (pod : Pod) : Prop :=
  ∃ review, k₁.tokenReview podToken cfg.audience = .ok (some review) ∧
    k₂.pod pod.ns pod.name = .ok (some pod) ∧
    review.serviceAccount = some (pod.ns, pod.serviceAccount) ∧
    review.username = "system:serviceaccount:" ++ pod.ns ++ ":" ++ pod.serviceAccount ∧
    review.podName = some pod.name ∧ review.podUid = some pod.uid ∧
    pod.terminating = false ∧ pod.nodeName = node

/-- The pod may have an identity, and if that identity is sensitive its images are pinned and come
    from approved registries. -/
structure Admitted (cfg : Config) (catalog : Catalog) (pod : Pod) : Prop where
  namespaceAllowed : pod.ns ∉ cfg.deniedNamespaces
  notDefault : pod.serviceAccount ≠ "default"
  listed : catalog.allowlist = true → catalog.lookup cfg.cluster pod.ns pod.serviceAccount ≠ none
  pinned : ∀ entry, catalog.lookup cfg.cluster pod.ns pod.serviceAccount = some entry →
    entry.sensitive = true → ∀ image ∈ pod.images,
      containsText image "@sha256:" = true ∧ ∃ r ∈ catalog.registries, startsWith image r = true

variable {cfg : Config} {k1 k2 : Kube} {node node' : String}

/-- The answers to a node token determine the node. -/
theorem NodeAttested.unique {nodeToken : String} (h : NodeAttested cfg k1 k2 nodeToken node)
    (h' : NodeAttested cfg k1 k2 nodeToken node') :
    node = node' := by
  obtain ⟨review, pod, hreview, hpod, _, hname, _, _, _, _, rfl, _⟩ := h
  obtain ⟨review', pod', hreview', hpod', _, hname', _, _, _, _, rfl, _⟩ := h'
  obtain rfl : review = review' := by simpa [hreview] using hreview'
  have hsame : pod.name = pod'.name := Option.some.inj (hname.symm.trans hname')
  rw [← hsame, hpod] at hpod'
  obtain rfl : pod = pod' := by simpa using hpod'
  rfl

/-- The answers to a pod token determine the pod. -/
theorem PodAttested.unique {podToken : String} {pod pod' : Pod}
    (h : PodAttested cfg k1 k2 podToken node pod) (h' : PodAttested cfg k1 k2 podToken node' pod') :
    pod = pod' := by
  obtain ⟨review, hreview, hpod, hsa, _, hname, _⟩ := h
  obtain ⟨review', hreview', hpod', hsa', _, hname', _⟩ := h'
  obtain rfl : review = review' := by simpa [hreview] using hreview'
  have hsame : pod.name = pod'.name := Option.some.inj (hname.symm.trans hname')
  have hns : pod.ns = pod'.ns := (Prod.mk.inj (Option.some.inj (hsa.symm.trans hsa'))).1
  rw [← hsame, ← hns, hpod] at hpod'
  simpa using hpod'

/-! ## 2. The pure checks -/

/-- A username that splits into a namespace and a name is made of them. -/
theorem Review.username_of_serviceAccount {review : Review} {ns sa : String}
    (h : review.serviceAccount = some (ns, sa)) :
    review.username = "system:serviceaccount:" ++ ns ++ ":" ++ sa := by
  unfold Review.serviceAccount at h
  obtain ⟨rest, hrest, h⟩ := Option.bind_eq_some_iff.mp h
  obtain ⟨⟨before, after⟩, hsplit, h⟩ := Option.bind_eq_some_iff.mp h
  dsimp only at h
  split at h
  · obtain ⟨rfl, rfl⟩ := Prod.mk.inj (Option.some.inj h)
    have hname := toList_of_stripPrefix hrest
    rw [splitOnce_eq hsplit] at hname
    apply String.toList_injective
    simp [hname]
  · cases h

namespace Signer

variable {cfg : Config} {review : Review} {podName podUid : String}

theorem checkNodeReview_ok (h : checkNodeReview cfg review = .ok (podName, podUid)) :
    review.username = cfg.nodeUsername ∧ review.podName = some podName ∧
      review.podUid = some podUid := by
  unfold checkNodeReview at h
  obtain ⟨_, huser, h⟩ := bind_ok.mp h
  rw [refuseIf_ok, not_not] at huser
  split at h
  · rename_i hname huid
    obtain ⟨rfl, rfl⟩ := Prod.mk.inj (pure_ok.mp h)
    exact ⟨huser, hname, huid⟩
  · cases h

variable {pod : Pod} {u : Unit}

theorem checkNodePod_ok (h : checkNodePod cfg review podName podUid pod = .ok u) :
    pod.uid = podUid ∧ pod.terminating = false ∧ ("DaemonSet", cfg.nodeDaemonset) ∈ pod.owners ∧
      pod.nodeName ≠ "" := by
  unfold checkNodePod at h
  obtain ⟨_, hlive, h⟩ := bind_ok.mp h
  obtain ⟨_, howner, h⟩ := bind_ok.mp h
  obtain ⟨_, hplace, _⟩ := bind_ok.mp h
  rw [refuseIf_ok] at hlive howner hplace
  simp only [not_or, not_not, Bool.not_eq_true] at hlive howner
  refine ⟨hlive.1, hlive.2, howner, ?_⟩
  intro hempty
  exact hplace (by simp [hempty])

variable {claim : PodClaim}

theorem checkPodReview_ok (h : checkPodReview review = .ok claim) :
    review.serviceAccount = some (claim.ns, claim.serviceAccount) ∧
      review.podName = some claim.podName ∧ review.podUid = some claim.podUid := by
  unfold checkPodReview at h
  split at h
  · cases h
  rename_i ns sa hsa
  split at h
  · rename_i podName podUid hname huid
    obtain rfl := Except.ok.inj h
    exact ⟨hsa, hname, huid⟩
  · cases h

variable {node : String}

theorem checkPod_ok (h : checkPod review claim node pod = .ok u) :
    pod.uid = claim.podUid ∧ pod.terminating = false ∧
      pod.serviceAccount = claim.serviceAccount ∧ pod.nodeName = node := by
  unfold checkPod at h
  obtain ⟨_, huid, h⟩ := bind_ok.mp h
  obtain ⟨_, hlive, h⟩ := bind_ok.mp h
  obtain ⟨_, hsa, h⟩ := bind_ok.mp h
  obtain ⟨_, hnode, _⟩ := bind_ok.mp h
  rw [refuseIf_ok, not_not] at huid hsa hnode
  rw [refuseIf_ok, Bool.not_eq_true] at hlive
  exact ⟨huid, hlive, hsa, hnode⟩

theorem checkImages_ok {registries images : List String}
    (h : checkImages registries images = .ok u) : ∀ image ∈ images,
      containsText image "@sha256:" = true ∧ ∃ r ∈ registries, startsWith image r = true := by
  induction images with
  | nil =>
    intro image hi
    cases hi
  | cons head rest ih =>
    unfold checkImages at h
    obtain ⟨_, hpin, h⟩ := bind_ok.mp h
    obtain ⟨_, hreg, h⟩ := bind_ok.mp h
    rw [refuseIf_ok, not_not] at hpin hreg
    intro image hi
    rcases List.mem_cons.mp hi with rfl | hi
    · exact ⟨hpin, List.any_eq_true.mp hreg⟩
    · exact ih h image hi

/-- Both halves of admission together are I8 and I9. -/
theorem admitted_of_checks {catalog : Catalog} {v : Unit} (hname : checkName cfg pod = .ok u)
    (hcat : checkCatalog cfg catalog pod = .ok v) :
    Admitted cfg catalog pod := by
  unfold checkName at hname
  obtain ⟨_, hns, hsa⟩ := bind_ok.mp hname
  rw [refuseIf_ok] at hns hsa
  unfold checkCatalog at hcat
  obtain ⟨_, hlisted, himages⟩ := bind_ok.mp hcat
  rw [refuseIf_ok] at hlisted
  refine ⟨hns, hsa, ?_, ?_⟩
  · intro hallow hnone
    exact hlisted ⟨hallow, by rw [hnone]; rfl⟩
  · intro entry hentry hsens
    rw [hentry, Option.any_some, if_pos hsens] at himages
    exact checkImages_ok himages

theorem identify_ok {E : RegexEngine} {signer : Signer E} {body : SignBody} {id : SpiffeId}
    (h : signer.identify body pod node = .ok id) :
    signer.policy.render (attributes signer.cfg pod node) = .ok id := by
  unfold identify at h
  obtain ⟨_, _, h⟩ := bind_ok.mp h
  obtain ⟨id', hrender, h⟩ := bind_ok.mp h
  obtain ⟨_, _, h⟩ := bind_ok.mp h
  obtain rfl := pure_ok.mp h
  cases hp : signer.policy.render (attributes signer.cfg pod node) with
  | error e =>
    rw [hp] at hrender
    cases hrender
  | ok id =>
    rw [hp] at hrender
    obtain rfl := Except.ok.inj hrender
    rfl

/-! ## 3. Runs

Each part of the path, when it ended well: what the answers were, and what it left of the state. The
API server was asked twice by each attestation. -/

section

variable {E : RegexEngine} {signer : Signer E} {out : Outside} {s s' : BrokerState}
  {tr : List (Event BrokerSig)}

variable {node nodeToken : String}

theorem attestNode_run (hkube : ∀ n, (out.kube n).Faithful)
    (h : Exec (brokerWorld out) (signer.attestNode nodeToken).run s tr (.ok node) s') :
    NodeAttested signer.cfg (out.kube s.asked) (out.kube (s.asked + 1)) nodeToken node ∧
      s' = { s with asked := s.asked + 2 } := by
  unfold attestNode at h
  obtain ⟨_, _, h⟩ := h.result_bind_ok
  obtain ⟨answer1, _, _, rfl, ⟨hreview, rfl⟩, h⟩ := h.op_bind_inv
  obtain ⟨review, hreviewed, h⟩ := h.result_bind_ok
  obtain ⟨⟨podName, podUid⟩, hbound, h⟩ := h.result_bind_ok
  obtain ⟨answer2, _, _, rfl, ⟨hpod, rfl⟩, h⟩ := h.op_bind_inv
  obtain ⟨pod, hfound, h⟩ := h.result_bind_ok
  obtain ⟨_, hchecked, h⟩ := h.result_bind_ok
  cases h
  rw [orRefuse_ok] at hreviewed hfound
  obtain ⟨huser, hname, huid⟩ := checkNodeReview_ok hbound
  obtain ⟨huid', hlive, howner, hplace⟩ := checkNodePod_ok hchecked
  have hread := hpod.symm.trans hfound
  obtain ⟨hns, hpodName⟩ := hkube _ _ _ _ hread
  subst hpodName huid'
  exact ⟨⟨review, pod, hreview.symm.trans hreviewed, hread, huser, hname, huid, hns, hlive, howner,
    rfl, hplace⟩, rfl⟩

variable {pod : Pod}

theorem attestPod_run (hkube : ∀ n, (out.kube n).Faithful) {podToken : String}
    (h : Exec (brokerWorld out) (signer.attestPod podToken node).run s tr (.ok pod) s') :
    PodAttested signer.cfg (out.kube s.asked) (out.kube (s.asked + 1)) podToken node pod ∧
      s' = { s with asked := s.asked + 2 } := by
  unfold attestPod at h
  obtain ⟨_, _, h⟩ := h.result_bind_ok
  obtain ⟨answer1, _, _, rfl, ⟨hreview, rfl⟩, h⟩ := h.op_bind_inv
  obtain ⟨review, hreviewed, h⟩ := h.result_bind_ok
  obtain ⟨claim, hbound, h⟩ := h.result_bind_ok
  obtain ⟨answer2, _, _, rfl, ⟨hpod, rfl⟩, h⟩ := h.op_bind_inv
  obtain ⟨found, hfound, h⟩ := h.result_bind_ok
  obtain ⟨_, hchecked, h⟩ := h.result_bind_ok
  cases h
  rw [orRefuse_ok] at hreviewed hfound
  obtain ⟨hsa, hname, huid⟩ := checkPodReview_ok hbound
  obtain ⟨huid', hlive, hsa', hnode⟩ := checkPod_ok hchecked
  have hread := hpod.symm.trans hfound
  obtain ⟨hns, hpodName⟩ := hkube _ _ _ _ hread
  rw [← hns, ← hsa'] at hsa
  rw [← hns, ← hpodName] at hread
  rw [← hpodName] at hname
  rw [← huid'] at huid
  exact ⟨⟨review, hreview.symm.trans hreviewed, hread, hsa,
    Review.username_of_serviceAccount hsa, hname, huid, hlive, hnode⟩, rfl⟩

theorem admitPod_run {u : Unit}
    (h : Exec (brokerWorld out) (signer.admitPod pod).run s tr (.ok u) s') :
    Admitted signer.cfg s.catalog.catalog pod ∧ s' = s := by
  unfold admitPod at h
  obtain ⟨_, hname, h⟩ := h.result_bind_ok
  obtain ⟨catalog, s1, _, rfl, ⟨hcatalog, hs1⟩, h⟩ := h.op_bind_inv
  rw [hcatalog, hs1] at h
  generalize hc : checkCatalog signer.cfg s.catalog.catalog pod = checked at h
  cases h
  exact ⟨admitted_of_checks hname hc, rfl⟩

/-- A run of the whole path that ended well: the pod, what was attested of it, and the order the
    issuer was given. -/
theorem sign_run (hkube : ∀ n, (out.kube n).Faithful) {body : SignBody} {now : Int64}
    {signed : Signed}
    (h : Exec (brokerWorld out) (signer.sign nodeToken body now).run s tr (.ok signed) s') :
    ∃ pod : Pod,
      NodeAttested signer.cfg (out.kube s.asked) (out.kube (s.asked + 1)) nodeToken signed.node ∧
      PodAttested signer.cfg (out.kube (s.asked + 2)) (out.kube (s.asked + 3)) body.podToken
        signed.node pod ∧
      Admitted signer.cfg s.catalog.catalog pod ∧
      signer.policy.render (attributes signer.cfg pod signed.node) = .ok signed.spiffeId ∧
      tr.getLast? = some ⟨.issuerSign ⟨signed.spiffeId, body.csr, signer.cfg.effectiveTtl,
        signed.node⟩, .ok signed.bundle⟩ := by
  unfold sign at h
  obtain ⟨_, _, node, _, rfl, hnodeRun, h⟩ := h.run_bind_ok
  obtain ⟨hnode, rfl⟩ := attestNode_run hkube hnodeRun
  obtain ⟨_, _, pod, _, rfl, hpodRun, h⟩ := h.run_bind_ok
  obtain ⟨hpod, rfl⟩ := attestPod_run hkube hpodRun
  obtain ⟨_, _, h⟩ := h.result_bind_ok
  obtain ⟨_, _, _, _, rfl, hadmitRun, h⟩ := h.run_bind_ok
  obtain ⟨hadmitted, rfl⟩ := admitPod_run hadmitRun
  obtain ⟨spiffeId, hid, h⟩ := h.result_bind_ok
  obtain ⟨_, _, _, _, rfl, _, h⟩ := h.run_bind_ok
  obtain ⟨answer, _, _, rfl, _, hend⟩ := h.op_bind_inv
  obtain ⟨bundle, hbundle, hend⟩ := hend.result_bind_ok
  cases hend
  cases answer with
  | error e => cases hbundle
  | ok bundle' =>
    obtain rfl := Except.ok.inj hbundle
    refine ⟨pod, hnode, hpod, hadmitted, identify_ok hid, ?_⟩
    simp

end

end Signer

/-! ## 4. The theorem -/

/-- The same tokens and the same certificate request; the hints may differ. -/
def SignBody.SameButHints (body body' : SignBody) : Prop :=
  body'.podToken = body.podToken ∧ body'.csr = body.csr

/-- **A signed ID is attested, and no hint can change it.** The API server's four answers are those
    from `s.asked` on. A second request that had the same four answers may come at another time, to
    a broker with another catalog and with its limits in another state. -/
theorem signed_id_is_attested {E : RegexEngine} (signer : Signer E) (out : Outside)
    (hkube : ∀ n, (out.kube n).Faithful) (nodeToken : String) (body : SignBody) (now : Int64)
    (s s' : BrokerState) (tr : List (Event BrokerSig)) (signed : Signed)
    (h : Exec (brokerWorld out) (signer.sign nodeToken body now).run s tr (.ok signed) s') :
    (∃ pod : Pod,
      NodeAttested signer.cfg (out.kube s.asked) (out.kube (s.asked + 1)) nodeToken signed.node ∧
      PodAttested signer.cfg (out.kube (s.asked + 2)) (out.kube (s.asked + 3)) body.podToken
        signed.node pod ∧
      Admitted signer.cfg s.catalog.catalog pod ∧
      signer.policy.template.render
        { trustDomain := signer.cfg.trustDomain, cluster := signer.cfg.cluster, ns := pod.ns,
          serviceAccount := pod.serviceAccount, podName := pod.name, podUid := pod.uid,
          nodeName := signed.node } = .ok signed.spiffeId ∧
      tr.getLast? = some ⟨.issuerSign ⟨signed.spiffeId, body.csr, signer.cfg.effectiveTtl,
        signed.node⟩, .ok signed.bundle⟩) ∧
    ∀ (body₂ : SignBody) (now₂ : Int64) (t t' : BrokerState) (tr₂ : List (Event BrokerSig))
      (signed₂ : Signed), body.SameButHints body₂ → t.asked = s.asked →
      Exec (brokerWorld out) (signer.sign nodeToken body₂ now₂).run t tr₂ (.ok signed₂) t' →
      signed₂.spiffeId = signed.spiffeId := by
  obtain ⟨pod, hnode, hpod, hadmitted, hrender, hlast⟩ := Signer.sign_run hkube h
  refine ⟨⟨pod, hnode, hpod, hadmitted, (IdPolicy.render_ok hrender).1, hlast⟩, ?_⟩
  intro body₂ now₂ t t' tr₂ signed₂ ⟨htoken, _⟩ hasked h₂
  obtain ⟨pod₂, hnode₂, hpod₂, _, hrender₂, _⟩ := Signer.sign_run hkube h₂
  rw [hasked] at hnode₂ hpod₂
  rw [htoken] at hpod₂
  have hsameNode := hnode.unique hnode₂
  have hsamePod := hpod.unique hpod₂
  rw [← hsameNode, ← hsamePod, hrender] at hrender₂
  exact (Except.ok.inj hrender₂).symm

def oneSigner : Signer Matcher.templateEngine where
  cfg := oneConfig
  policy := onePolicy
  csr :=
    { pem := fun pem => if pem = "csr" then .ok ("CERTIFICATE REQUEST", [0]) else .error "no block"
      der := fun _ => .ok ⟨true, ecPublicKey, some p256, [false]⟩ }

def oneIssuer : Responses where
  kube _ := oneKube
  sign _ := .ok ⟨"chain", "ca", 3600, 0⟩
  mint _ _ := .error (.transport "not asked")
  jwks := .error "not asked"
  file := .error "not asked"

/-- The node's request, without hints or with all of them. -/
def oneBody : SignBody := ⟨"pod token", "", "", "", "", "csr", ""⟩
def hintedBody : SignBody := ⟨"pod token", "n", "p", "2", "s", "csr", oneId.asStr⟩

/-- The request, played. -/
def oneSigning (body : SignBody) : List (Event BrokerSig) × Except Refusal Signed × BrokerState :=
  (oneSigner.sign "node token" body 0).run.play oneIssuer.answer (.start oneConfig oneCatalog "")

theorem oneSigning_ok {body : SignBody} (hbody : body ∈ [oneBody, hintedBody]) :
    ∃ signed, (oneSigning body).2.1 = .ok signed ∧ signed.spiffeId = oneId ∧
      signed.node = "node-1" := by
  have hall : ∀ b ∈ [oneBody, hintedBody],
      (oneSigning b).2.1.toOption.map (fun signed => (signed.spiffeId, signed.node))
        = some (oneId, "node-1") := by decide
  have h := hall body hbody
  cases hrun : (oneSigning body).2.1 with
  | error e =>
    rw [hrun] at h
    cases h
  | ok signed =>
    rw [hrun] at h
    obtain ⟨hid, hnode⟩ := Prod.mk.inj (Option.some.inj h)
    exact ⟨signed, rfl, hid, hnode⟩

theorem signed_id_is_attested_hinted : ∃ signed signed₂ pod, (oneSigning oneBody).2.1 = .ok signed ∧
      (oneSigning hintedBody).2.1 = .ok signed₂ ∧ signed.spiffeId = oneId ∧
      signed₂.spiffeId = signed.spiffeId ∧
      PodAttested oneConfig oneKube oneKube "pod token" "node-1" pod := by
  have hworld : ∀ op s, brokerWorld ⟨fun _ => oneKube, fun _ _ _ => False⟩ op s
      (oneIssuer.answer op s).1 (oneIssuer.answer op s).2 :=
    Responses.answer_world rfl (fun _ _ _ h => nomatch h)
  have hplay := fun body => Prog.play_exec hworld (oneSigner.sign "node token" body 0).run
    (.start oneConfig oneCatalog "")
  obtain ⟨signed, hsigned, hid, hnode⟩ := oneSigning_ok (.head _)
  obtain ⟨signed₂, hsigned₂, _, _⟩ := oneSigning_ok
    (List.mem_cons_of_mem oneBody (.head _))
  have hrun := hplay oneBody
  have hrun₂ := hplay hintedBody
  rw [show (Prog.play _ _ _).2.1 = _ from hsigned] at hrun
  rw [show (Prog.play _ _ _).2.1 = _ from hsigned₂] at hrun₂
  obtain ⟨⟨pod, _, hpod, _⟩, hsame⟩ := signed_id_is_attested oneSigner _ (fun _ => oneKube_faithful)
    "node token" oneBody 0 _ _ _ signed hrun
  refine ⟨signed, signed₂, pod, hsigned, hsigned₂, hid, ?_, ?_⟩
  · exact hsame hintedBody 0 _ _ _ signed₂ ⟨rfl, rfl⟩ rfl hrun₂
  · rw [← hnode]
    exact hpod

end Svidlet.Broker
