import Svidlet.Broker.Attested
import Svidlet.Issue.FirstReading

/-!
# The broker and its own certificates

On one port the broker renders an ID from what was attested and has it signed; on the other it takes
the ID of a certificate apart and serves tokens to the namespace and ServiceAccount it finds there.
`Config::id_policy` refuses a template without `{cluster}`, since with one "every token request would be
refused while certificates kept working, which is worse than refusing to start".

It is not the only such template.

> A pod's certificate is recognised exactly if the template carries `{namespace}` and
> `{service_account}`, and the **first reading** of the ID is right about the four fields that `caller`
> looks at.

The first reading is right whenever a character that values cannot have, such as a slash, stands
between any two placeholders. Behind a dot or a dash it may not be: in
`{node_name}-{cluster}` the node `node-1` of cluster `c` is read as the node `node` of cluster `1-c`.
-/

namespace Svidlet.Broker

open Lib Issue

/-! ## 1. What `caller` makes of an ID -/

/-- The fields `caller` looks at. -/
def lookedAt : List Field := [.trustDomain, .cluster, .ns, .serviceAccount]

section

variable {E : RegexEngine} {tokens : Tokens E}

theorem checkShape_ok {id : SpiffeId} {back : WorkloadAttributes}
    (hcheck : tokens.policy.check id.asStr = .ok ())
    (hback : tokens.policy.attributesOf id.asStr = some back) {attrs : WorkloadAttributes} :
    tokens.checkShape id = .ok attrs ↔ attrs = back ∧
      (back.trustDomain = tokens.cfg.trustDomain ∨ back.trustDomain = "") ∧
      back.cluster = tokens.cfg.cluster ∧ back.ns ≠ "" ∧ back.serviceAccount ≠ "" := by
  unfold Tokens.checkShape
  rw [hcheck, hback]
  simp only [bind_ok, refuseIf_ok, pure_ok, String.isEmpty_iff]
  constructor
  · intro h
    obtain ⟨_, -, _, hdomain, _, hcluster, _, hnames, rfl⟩ := h
    refine ⟨rfl, ?_, by_contra hcluster, fun h => hnames (.inl h), fun h => hnames (.inr h)⟩
    by_contra hno
    exact hdomain ⟨fun h => hno (.inl h), fun h => hno (.inr h)⟩
  · intro h
    obtain ⟨rfl, hdomain, hcluster, hns, hsa⟩ := h
    exact ⟨(), rfl, (), fun h => hdomain.elim h.1 h.2, (), fun h => h hcluster, (),
      fun h => h.elim hns hsa, rfl⟩

/-- A certificate that is no authority, is valid now and has this one URI: who is calling is what the
    ID says. -/
theorem caller_of_leaf {der : List UInt8} {leaf : Leaf} {now : Int64} {names : List GeneralName}
    {id : SpiffeId} (hleaf : tokens.leaf der = .ok leaf) (hca : leaf.isCa = false)
    (hwindow : leaf.notBefore ≤ now ∧ now < leaf.notAfter) (hsan : leaf.san = .ok (some names))
    (huri : Tokens.uris names = [id.asStr]) {caller : Caller} :
    tokens.caller der now = .ok caller ↔ ∃ attrs, tokens.checkShape id = .ok attrs ∧
      caller = ⟨id, attrs.ns, attrs.serviceAccount, leaf.notAfter, leaf.serial⟩ := by
  have hparse : SpiffeId.parse id.asStr = .ok id := by
    unfold SpiffeId.parse
    split
    · rfl
    · rename_i e he
      rw [id.valid] at he
      cases he
  unfold Tokens.caller
  rw [hleaf]
  show (Tokens.oneUri leaf now >>= fun uri => (SpiffeId.parse uri).mapError _ >>= fun spiffeId =>
    tokens.checkShape spiffeId >>= fun attrs => pure _) = _ ↔ _
  rw [Tokens.oneUri_ok hca hwindow hsan huri]
  show ((SpiffeId.parse id.asStr).mapError _ >>= fun spiffeId =>
    tokens.checkShape spiffeId >>= fun attrs => pure _) = _ ↔ _
  rw [hparse]
  show (tokens.checkShape id >>= fun attrs => pure _) = _ ↔ _
  simp only [bind_ok, pure_ok]
  constructor
  · intro h
    obtain ⟨attrs, hattrs, hcaller⟩ := h
    exact ⟨attrs, hattrs, hcaller.symm⟩
  · intro h
    obtain ⟨attrs, hattrs, hcaller⟩ := h
    exact ⟨attrs, hattrs, hcaller.symm⟩

end

/-! ## 2. What the broker rendered -/

theorem idPolicy_ok {E : RegexEngine} {cfg : Config} {policy : IdPolicy E}
    (h : cfg.idPolicy = .ok policy) :
    policy.template.Compiled ∧ Field.cluster ∈ fieldsOf policy.template.parts := by
  unfold Config.idPolicy at h
  obtain ⟨policy', hnew, h⟩ := bind_ok.mp h
  obtain ⟨_, hcluster, h⟩ := bind_ok.mp h
  obtain rfl := pure_ok.mp h
  have hcompiled : policy'.template.Compiled := by
    cases hp : IdPolicy.new (E := E) cfg.spiffeIdTemplate cfg.spiffeIdPattern with
    | error e =>
      rw [hp] at hnew
      cases hnew
    | ok p =>
      rw [hp] at hnew
      obtain rfl := Except.ok.inj hnew
      exact IdPolicy.new_compiled hp
  refine ⟨hcompiled, ?_⟩
  rw [refuseIf_ok, not_not] at hcluster
  rw [← hcompiled.fields_eq]
  exact hcluster

/-- The attributes taken from an ID against those it was rendered from. -/
theorem recognized_iff {E : RegexEngine} (hE : E.TakesFirst) {tokens : Tokens E}
    (ht : tokens.policy.template.Compiled)
    (hcluster : Field.cluster ∈ fieldsOf tokens.policy.template.parts) {attrs : WorkloadAttributes}
    (htd : attrs.trustDomain = tokens.cfg.trustDomain) (hcl : attrs.cluster = tokens.cfg.cluster)
    {id : SpiffeId} (hrender : tokens.policy.render attrs = .ok id) :
    (∃ back, tokens.checkShape id = .ok back ∧ back.ns = attrs.ns ∧
      back.serviceAccount = attrs.serviceAccount) ↔
    Field.ns ∈ fieldsOf tokens.policy.template.parts ∧
      Field.serviceAccount ∈ fieldsOf tokens.policy.template.parts ∧
      ¬ Misread lookedAt tokens.policy.template.parts attrs := by
  obtain ⟨htemplate, hcheck⟩ := IdPolicy.render_ok hrender
  obtain ⟨back, hback, hread⟩ := read_back hE ht htemplate
  constructor
  · intro h
    obtain ⟨_, hshape, hns, hsa⟩ := h
    obtain ⟨rfl, hdomain, hcluster', hnsNe, hsaNe⟩ := (checkShape_ok hcheck hback).mp hshape
    refine ⟨by_contra fun h => hnsNe (hread.absent _ h), by_contra fun h => hsaNe (hread.absent _ h),
      (hread.right_iff lookedAt).mpr ?_⟩
    intro f hf hlooked
    simp only [lookedAt, List.mem_cons, List.not_mem_nil, or_false] at hlooked
    obtain rfl | rfl | rfl | rfl := hlooked
    · obtain hdomain | hempty := hdomain
      · exact hdomain.trans htd.symm
      · exact absurd hempty (hread.present _ hf)
    · exact hcluster'.trans hcl.symm
    · exact hns
    · exact hsa
  · intro h
    obtain ⟨hnsIn, hsaIn, hright⟩ := h
    have hsame := (hread.right_iff lookedAt).mp hright
    have hdomain : back.trustDomain = tokens.cfg.trustDomain ∨ back.trustDomain = "" := by
      by_cases hin : Field.trustDomain ∈ fieldsOf tokens.policy.template.parts
      · exact .inl ((hsame _ hin (by decide)).trans htd)
      · exact .inr (hread.absent _ hin)
    refine ⟨back, (checkShape_ok hcheck hback).mpr ⟨rfl, hdomain, ?_, ?_, ?_⟩, ?_, ?_⟩
    · exact (hsame _ hcluster (by decide)).trans hcl
    · exact hread.present _ hnsIn
    · exact hread.present _ hsaIn
    · exact hsame _ hnsIn (by decide)
    · exact hsame _ hsaIn (by decide)

/-! ## 3. The theorem -/

/-- **When a broker recognises the certificate it had signed** for a pod, as that pod's. -/
theorem signed_id_is_recognized_iff {E : RegexEngine} (hE : E.TakesFirst) {signer : Signer E}
    {tokens : Tokens E} (hcfg : tokens.cfg = signer.cfg) (hpolicy : tokens.policy = signer.policy)
    (hid : signer.cfg.idPolicy = .ok signer.policy) {out : Outside}
    (hkube : ∀ n, (out.kube n).Faithful) {nodeToken : String} {body : SignBody} {now : Int64}
    {s s' : BrokerState} {tr : List (Event BrokerSig)} {signed : Signed}
    (hsign : Exec (brokerWorld out) (signer.sign nodeToken body now).run s tr (.ok signed) s')
    {der : List UInt8} {leaf : Leaf} {later : Int64} {names : List GeneralName}
    (hleaf : tokens.leaf der = .ok leaf) (hca : leaf.isCa = false)
    (hwindow : leaf.notBefore ≤ later ∧ later < leaf.notAfter)
    (hsan : leaf.san = .ok (some names)) (huri : Tokens.uris names = [signed.spiffeId.asStr]) :
    ∃ pod : Pod, PodAttested signer.cfg (out.kube (s.asked + 2)) (out.kube (s.asked + 3))
        body.podToken signed.node pod ∧
      (tokens.caller der later =
          .ok ⟨signed.spiffeId, pod.ns, pod.serviceAccount, leaf.notAfter, leaf.serial⟩ ↔
        Field.ns ∈ fieldsOf signer.policy.template.parts ∧
        Field.serviceAccount ∈ fieldsOf signer.policy.template.parts ∧
        ¬ Misread lookedAt signer.policy.template.parts
          (Signer.attributes signer.cfg pod signed.node)) ∧
      (Field.ns ∈ fieldsOf signer.policy.template.parts →
        Field.serviceAccount ∈ fieldsOf signer.policy.template.parts →
        Separated signer.policy.template.parts → tokens.caller der later =
          .ok ⟨signed.spiffeId, pod.ns, pod.serviceAccount, leaf.notAfter, leaf.serial⟩) := by
  obtain ⟨pod, -, hpod, -, hrender, -⟩ := Signer.sign_run hkube hsign
  obtain ⟨hcompiled, hcluster⟩ := idPolicy_ok hid
  have htemplate := (IdPolicy.render_ok hrender).1
  rw [← hpolicy] at hrender hcompiled hcluster
  have htd : (Signer.attributes signer.cfg pod signed.node).trustDomain = tokens.cfg.trustDomain :=
    congrArg Config.trustDomain hcfg.symm
  have hcl : (Signer.attributes signer.cfg pod signed.node).cluster = tokens.cfg.cluster :=
    congrArg Config.cluster hcfg.symm
  have hiff := recognized_iff hE hcompiled hcluster htd hcl hrender
  rw [hpolicy] at hiff
  have hcaller : tokens.caller der later =
      .ok ⟨signed.spiffeId, pod.ns, pod.serviceAccount, leaf.notAfter, leaf.serial⟩ ↔
      ∃ back, tokens.checkShape signed.spiffeId = .ok back ∧ back.ns = pod.ns ∧
        back.serviceAccount = pod.serviceAccount := by
    rw [caller_of_leaf hleaf hca hwindow hsan huri]
    constructor
    · rintro ⟨back, hshape, heq⟩
      exact ⟨back, hshape, (congrArg Caller.ns heq).symm, (congrArg Caller.serviceAccount heq).symm⟩
    · rintro ⟨back, hshape, hns, hsa⟩
      exact ⟨back, hshape, by rw [hns, hsa]⟩
  refine ⟨pod, hpod, hcaller.trans hiff, fun hns hsa hsep => ?_⟩
  exact hcaller.mpr (hiff.mpr ⟨hns, hsa, not_misread_of_separated htemplate hsep lookedAt⟩)

/-! ## 4. With slashes, and with a dash -/

open Matcher (templateEngine)

def leafFor (id : String) : Leaf := ⟨false, 0, 3600, .ok (some [.uri id]), "01"⟩

/-- The token side of a broker, shown a certificate for this ID. -/
def shown (signer : Signer templateEngine) (id : String) : Tokens templateEngine where
  cfg := signer.cfg
  policy := signer.policy
  leaf _ := .ok (leafFor id)
  jwt := podTokens.jwt

theorem oneIssuer_world : ∀ op s, brokerWorld ⟨fun _ => oneKube, fun _ _ _ => False⟩ op s
    (oneIssuer.answer op s).1 (oneIssuer.answer op s).2 :=
  Responses.answer_world rfl (fun _ _ _ h => nomatch h)

theorem signed_id_is_recognized_one : ∃ signed pod, (oneSigning oneBody).2.1 = .ok signed ∧
      PodAttested oneConfig oneKube oneKube "pod token" signed.node pod ∧
      (shown oneSigner oneId.asStr).caller [] 0 =
        .ok ⟨signed.spiffeId, pod.ns, pod.serviceAccount, 3600, "01"⟩ := by
  have hbody : oneBody ∈ [oneBody, hintedBody] := .head _
  obtain ⟨signed, hsigned, hid, -⟩ := oneSigning_ok hbody
  have hrun := Prog.play_exec oneIssuer_world (oneSigner.sign "node token" oneBody 0).run
    (.start oneConfig oneCatalog "")
  rw [show (Prog.play _ _ _).2.1 = _ from hsigned] at hrun
  have hpolicy : oneSigner.cfg.idPolicy = .ok oneSigner.policy := by decide
  have hcfg : (shown oneSigner oneId.asStr).cfg = oneSigner.cfg := rfl
  have hsame : (shown oneSigner oneId.asStr).policy = oneSigner.policy := rfl
  have hleaf : (shown oneSigner oneId.asStr).leaf [] = .ok (leafFor oneId.asStr) := rfl
  have hwindow : (leafFor oneId.asStr).notBefore ≤ (0 : Int64) ∧
      (0 : Int64) < (leafFor oneId.asStr).notAfter := by decide
  have huri : Tokens.uris [.uri oneId.asStr] = [signed.spiffeId.asStr] := by
    rw [hid]
    rfl
  obtain ⟨pod, hpod, -, hcaller⟩ := signed_id_is_recognized_iff Matcher.templateEngine_takesFirst
    hcfg hsame hpolicy (fun _ => oneKube_faithful) hrun hleaf rfl hwindow rfl huri
  have hgaps : (gapsOf onePolicy.template.parts).dropLast =
      ["/cluster/".toList, "/ns/".toList, "/sa/".toList] := by decide
  refine ⟨signed, pod, hsigned, hpod, hcaller (by decide) (by decide) ?_⟩
  unfold Separated
  have hslash : segmentChar '/' = false := by decide
  rw [show oneSigner.policy = onePolicy from rfl, hgaps]
  simp [hslash]

/-- A config whose template joins the node's name and the cluster by a dash. -/
def dashConfig : Config := { oneConfig with spiffeIdTemplate :=
      "spiffe://\x7bnode_name\x7d-\x7bcluster\x7d/\x7bnamespace\x7d/\x7bservice_account\x7d" }

theorem dash_accepted :
    (Config.idPolicy (E := templateEngine) dashConfig).toOption.isSome = true := by decide

def dashSigner : Signer templateEngine :=
  { oneSigner with cfg := dashConfig, policy := dashConfig.idPolicy.toOption.get dash_accepted }

def dashSigning : List (Event BrokerSig) × Except Refusal Signed × BrokerState :=
  (dashSigner.sign "node token" oneBody 0).run.play oneIssuer.answer
    (.start dashConfig oneCatalog "")

def dashId : SpiffeId := ⟨"spiffe://node-1-c/n/s", by decide⟩

/-- The ID of node `node-1` in cluster `c` is signed, and then refused as one of cluster `1-c`. -/
theorem signed_id_is_refused : dashConfig.idPolicy = .ok dashSigner.policy ∧
    (dashSigning.2.1.toOption.map fun signed => signed.spiffeId) = some dashId ∧
    Exec (brokerWorld ⟨fun _ => oneKube, fun _ _ _ => False⟩)
      (dashSigner.sign "node token" oneBody 0).run (.start dashConfig oneCatalog "")
      dashSigning.1 dashSigning.2.1 dashSigning.2.2 ∧
    (shown dashSigner dashId.asStr).caller [] 0 = .error (.forbidden "T2"
      "spiffe://node-1-c/n/s belongs to cluster \"1-c\", not \"c\"") := by
  refine ⟨ok_of_isSome dash_accepted, by decide, ?_, by decide⟩
  exact Prog.play_exec oneIssuer_world _ _

end Svidlet.Broker
