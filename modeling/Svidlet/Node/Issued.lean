import Svidlet.Broker.Tokens
import Svidlet.Lib.Session
import Svidlet.Node.World

/-!
# What a node accepts from the PKI backend, and what the broker demands of it

`Publisher::issue` trusts no backend to be right: the chain that comes back is inspected, its leaf
has to carry the requested ID and the key the node generated. The other end of the same certificate
is `Tokens::caller`, which takes the holder's identity from it and wants **exactly one** URI among
its alternative names.

`inspect` takes the *first* URI that starts with `spiffe://` and looks at no other. So the two ends
agree on a leaf with one URI name, and on no other leaf:

> a certificate with a second URI name is published, and every token request with it is refused.

Parsing PEM and DER is a crate of its own; here it is a parameter, and `inspect` and
`leaf_public_key` are what `bundle.rs` does with what the crate returns.
-/

namespace Svidlet.Node

open Lib Issue
open Volume (Identity Modes)
open Broker (GeneralName Leaf Tokens Refusal)

/-! ## 1. Certificates -/

/-- A parsed certificate: what the broker reads of a leaf, and its public key. -/
structure Certificate extends Leaf where
  publicKey : List UInt8

/-- The parsers: the contents of the first PEM block, and a certificate from DER. -/
structure X509 where
  parsePem : String → Except String (List UInt8)
  fromDer : List UInt8 → Except String Certificate

namespace X509

variable (x : X509)

/-- The first certificate of a chain. -/
def leaf (certChainPem : String) : Except Error Certificate := do
  let contents ← (x.parsePem certChainPem).mapError fun e =>
    Error.certificate ("not a PEM certificate: " ++ e)
  (x.fromDer contents).mapError fun e => Error.certificate ("not a DER certificate: " ++ e)

def spiffeUri : GeneralName → Option String
  | .uri uri => if startsWith uri "spiffe://" then some uri else none
  | .other => none

/-- The SPIFFE ID and the window of a certificate. -/
def factsOf (cert : Certificate) : Except Error CertFacts := do
  let san ← cert.san.mapError fun e => Error.certificate ("malformed SubjectAlternativeName: " ++ e)
  match san with
  | none => throw (.certificate "certificate has no SubjectAlternativeName")
  | some names =>
    match names.findSome? spiffeUri with
    | none => throw (.certificate "certificate has no SPIFFE URI SAN")
    | some raw =>
      let spiffeId ← SpiffeId.parse raw
      return ⟨spiffeId, cert.notBefore.toInt, cert.notAfter.toInt⟩

def inspect (certChainPem : String) : Except Error CertFacts := do
  factsOf (← x.leaf certChainPem)

def leafPublicKey (certChainPem : String) : Except Error (List UInt8) := do
  return (← x.leaf certChainPem).publicKey

def reader : CertReader := ⟨x.inspect, x.leafPublicKey⟩

end X509

/-- The URI names of a certificate. -/
def Certificate.uris (cert : Certificate) : List String :=
  match cert.san with
  | .ok (some names) => Tokens.uris names
  | _ => []

/-- The name that is found is one of the URI names. -/
theorem mem_uris_of_findSome {names : List GeneralName} {raw : String}
    (h : names.findSome? X509.spiffeUri = some raw) : raw ∈ Tokens.uris names := by
  obtain ⟨name, hmem, hname⟩ := List.exists_of_findSome?_eq_some h
  refine List.mem_filterMap.mpr ⟨name, hmem, ?_⟩
  cases name with
  | other => cases hname
  | uri u =>
    simp only [X509.spiffeUri] at hname
    split at hname
    · exact hname
    · cases hname

variable {cert : Certificate} {facts : CertFacts}

theorem factsOf_ok (h : X509.factsOf cert = .ok facts) :
    facts.spiffeId.asStr ∈ cert.uris ∧ facts.notBefore = cert.notBefore.toInt ∧
      facts.notAfter = cert.notAfter.toInt := by
  unfold X509.factsOf at h
  obtain ⟨san, hsan, h⟩ := bind_ok.mp h
  cases hcert : cert.san with
  | error e =>
    rw [hcert] at hsan
    cases hsan
  | ok found =>
    rw [hcert] at hsan
    obtain rfl : found = san := Except.ok.inj hsan
    cases found with
    | none => cases h
    | some names =>
      simp only at h
      cases hfirst : names.findSome? X509.spiffeUri with
      | none =>
        rw [hfirst] at h
        cases h
      | some raw =>
        rw [hfirst] at h
        obtain ⟨spiffeId, hparse, hret⟩ := bind_ok.mp h
        cases hret
        refine ⟨?_, rfl, rfl⟩
        rw [SpiffeId.parse_asStr hparse]
        unfold Certificate.uris
        rw [hcert]
        exact mem_uris_of_findSome hfirst

theorem inspect_ok {x : X509} {chain : String} (h : x.reader.inspect chain = .ok facts) :
    ∃ cert, x.leaf chain = .ok cert ∧ facts.spiffeId.asStr ∈ cert.uris ∧
      facts.notBefore = cert.notBefore.toInt ∧ facts.notAfter = cert.notAfter.toInt := by
  obtain ⟨cert, hleaf, hfacts⟩ := bind_ok.mp h
  exact ⟨cert, hleaf, factsOf_ok hfacts⟩

/-! ## 2. Both backends -/

/-- What Vault answers to a signing request. -/
structure SignData where
  certificate : String
  caChain : List String
  issuingCa : String

namespace SignData

def normalize (pem : String) : String :=
  let trimmed := trim pem
  if trimmed.isEmpty then "" else trimmed ++ "\n"

/-- Leaf first, then any intermediates. -/
def chainPem (data : SignData) : String :=
  data.caChain.foldl (fun out ca => if normalize ca ≠ out then out ++ normalize ca else out)
    (normalize data.certificate)

/-- Trust bundle written to `ca.crt`. -/
def caBundlePem (data : SignData) : String :=
  if data.caChain.isEmpty then normalize data.issuingCa
  else String.join (data.caChain.map normalize)

end SignData

/-- An answer of one of the two backends. The broker's has its chain put together already. -/
inductive Response where
  | vault (data : SignData)
  | broker (reply : SignReply)

def Response.reply : Response → SignReply
  | .vault data => ⟨data.chainPem, data.caBundlePem⟩
  | .broker reply => reply

/-! ## 3. What `issue` publishes -/

variable {E : RegexEngine} {plugin : Plugin E} {s s' : NodeState} {target : String} {id : SpiffeId}

variable {identity : Identity} {modes : Modes} {tr : List (Event NodeSig)}

theorem publishCall_trace {r : Except Error Unit}
    (h : Exec nodeWorld (ioCall (ask (.publishIdentity target identity modes .issued))).run s tr r s') :
    ∃ ans, tr = [⟨.publishIdentity target identity modes .issued, ans⟩] := by
  obtain ⟨_, _, ans, s1, rfl, hop, hret⟩ := Exec.bind_inv h
  obtain ⟨rfl, _⟩ := hop.op_inv
  cases hret
  exact ⟨ans, rfl⟩

/-- A run of `issue` that comes to its publish has made four calls, and the checks between them have
    passed. -/
theorem issue_run {pod : PodRef} {podToken : Option PodToken} {r : Except Error IssuedBundle}
    (h : Exec nodeWorld (issue plugin id target pod podToken).run s tr r s')
    {ans : Except IoError Unit}
    (hpub : (⟨.publishIdentity target identity modes .issued, ans⟩ : Event NodeSig) ∈ tr) :
    ∃ generated reply bundle cached ans', tr = [⟨.generate id, .ok generated⟩,
        ⟨.backendSign ⟨id, generated.csrPem, pod, podToken⟩, .ok reply⟩, ⟨.cachedCa, cached⟩,
        ⟨.publishIdentity target identity modes .issued, ans'⟩] ∧
      bundleOf plugin.reader id reply = .ok bundle ∧
      plugin.reader.leafPublicKey bundle.certChainPem = .ok generated.publicKey ∧
      identity.keyPem = generated.keyPem ∧ identity.certChainPem = bundle.certChainPem ∧
      ∀ returned, r = .ok returned → returned = bundle := by
  unfold issue at h
  rcases h.run_bind_inv with ⟨e, _, hgen⟩ | ⟨_, tr1, generated, s1, rfl, hgen, h1⟩
  · obtain ⟨rfl, _⟩ := hgen.op_inv
    simp at hpub
  obtain ⟨rfl, _⟩ := hgen.op_inv
  rcases h1.run_bind_inv with ⟨e, _, hsign⟩ | ⟨_, tr2, reply, s2, rfl, hsign, h2⟩
  · obtain ⟨rfl, _⟩ := hsign.op_inv
    simp at hpub
  obtain ⟨rfl, _⟩ := hsign.op_inv
  -- a check that fails ends the run, and nothing has been published by then
  rcases h2.result_bind_inv with ⟨_, _, _, rfl⟩ | ⟨bundle, hbundle, h3⟩
  · simp at hpub
  rcases h3.result_bind_inv with ⟨_, _, _, rfl⟩ | ⟨leafKey, hkey, h4⟩
  · simp at hpub
  rcases h4.result_bind_inv with ⟨_, _, _, rfl⟩ | ⟨_, hsame, h5⟩
  · simp at hpub
  obtain rfl : leafKey = generated.publicKey := by simpa using hsame
  obtain ⟨cached, s3, tr3, rfl, _, h6⟩ := h5.op_bind_inv
  have hlast : ∃ ans', tr3 = [⟨.publishIdentity target ⟨generated.keyPem, bundle.certChainPem,
        if cached.isEmpty then bundle.caPem else cached⟩ plugin.cfg.modes .issued, ans'⟩] ∧
      ∀ returned, r = .ok returned → returned = bundle := by
    rcases h6.run_bind_inv with ⟨e, rfl, hcall⟩ | ⟨_, _, u, s4, rfl, hcall, hret⟩
    · obtain ⟨ans', rfl⟩ := publishCall_trace hcall
      exact ⟨ans', rfl, fun _ hr => by cases hr⟩
    · obtain ⟨ans', rfl⟩ := publishCall_trace hcall
      cases hret
      exact ⟨ans', rfl, fun _ hr => (Except.ok.inj hr).symm⟩
  obtain ⟨ans', rfl, hreturned⟩ := hlast
  obtain ⟨rfl, rfl⟩ : identity = ⟨generated.keyPem, bundle.certChainPem,
      if cached.isEmpty then bundle.caPem else cached⟩ ∧ modes = plugin.cfg.modes := by
    simp at hpub
    simpa using hpub.1
  exact ⟨generated, reply, bundle, cached, ans', rfl, hbundle, hkey, rfl, rfl, hreturned⟩

/-- What is wanted of a published leaf: one URI name, the requested ID, on which the broker's rule
    for alternative names agrees; the key beside it; and the window that `issue` returns. -/
structure RightLeaf (cert : Certificate) (id : SpiffeId) (publicKey : List UInt8)
    (returned : Option IssuedBundle) : Prop where
  names : cert.uris = [id.asStr]
  accepted : ∀ now, cert.isCa = false → cert.notBefore ≤ now → now < cert.notAfter →
    Tokens.oneUri cert.toLeaf now = .ok id.asStr
  key : cert.publicKey = publicKey
  window : ∀ bundle, returned = some bundle →
    bundle.notBefore = cert.notBefore.toInt ∧ bundle.notAfter = cert.notAfter.toInt

/-- The broker's rule takes the one URI name of a leaf that is valid now. -/
theorem oneUri_of_uris {uri : String} (h : cert.uris = [uri]) {now : Int64}
    (hca : cert.isCa = false) (hstart : cert.notBefore ≤ now) (hend : now < cert.notAfter) :
    Tokens.oneUri cert.toLeaf now = .ok uri := by
  unfold Certificate.uris at h
  cases hsan : cert.san with
  | error e =>
    rw [hsan] at h
    cases h
  | ok found =>
    rw [hsan] at h
    cases found with
    | none => cases h
    | some names => exact Tokens.oneUri_ok hca ⟨hstart, hend⟩ hsan h

/-- **The two ends of a certificate agree** on what `issue` publishes exactly when the leaf of the
    backend's response has no second URI name. -/
theorem issued_leaf_is_right_iff {x : X509} {publicKeyOf : String → List UInt8}
    (hreader : plugin.reader = x.reader) {pod : PodRef} {podToken : Option PodToken}
    {tr : List (Event NodeSig)} {r : Except Error IssuedBundle}
    (hrun : Exec nodeWorld (issue plugin id target pod podToken).run s tr r s')
    (hgen : ∀ generated, (⟨.generate id, .ok generated⟩ : Event NodeSig) ∈ tr →
      generated.publicKey = publicKeyOf generated.keyPem)
    {request : SignRequest} {response : Response}
    (hreply : (⟨.backendSign request, .ok response.reply⟩ : Event NodeSig) ∈ tr)
    {identity : Identity} {modes : Modes} {ans : Except IoError Unit}
    (hpub : (⟨.publishIdentity target identity modes .issued, ans⟩ : Event NodeSig) ∈ tr) :
    identity.certChainPem = response.reply.certChain ∧
      ∃ cert, x.leaf response.reply.certChain = .ok cert ∧
        (RightLeaf cert id (publicKeyOf identity.keyPem) r.toOption ↔ cert.uris.length ≤ 1) := by
  obtain ⟨generated, reply, bundle, cached, ans', rfl, hbundle, hkey, hkeyPem, hchain, hreturned⟩ :=
    issue_run hrun hpub
  obtain rfl : response.reply = reply := by
    simp at hreply
    exact hreply.2
  obtain ⟨facts, hassert, rfl⟩ : ∃ facts, assertIdentity plugin.reader response.reply.certChain id
      = .ok facts ∧ bundle = ⟨response.reply.certChain, response.reply.ca, facts.notAfter,
        facts.notBefore⟩ := by
    obtain ⟨facts, hassert, hret⟩ := bind_ok.mp hbundle
    exact ⟨facts, hassert, (pure_ok.mp hret).symm⟩
  obtain ⟨hinspect, hid⟩ := assertIdentity_ok hassert
  rw [hreader] at hinspect hkey
  obtain ⟨cert, hleaf, hmem, hbefore, hafter⟩ := inspect_ok hinspect
  refine ⟨hchain, cert, hleaf, ?_⟩
  constructor
  · intro hright
    rw [hright.names]
    exact le_refl 1
  · intro hlen
    have hnames : cert.uris = [id.asStr] := by
      rw [hid] at hmem
      obtain ⟨uri, huri⟩ := List.length_eq_one_iff.mp (le_antisymm hlen (List.length_pos_of_mem hmem))
      rw [huri] at hmem ⊢
      rw [List.mem_singleton.mp hmem]
    refine ⟨hnames, fun now => oneUri_of_uris hnames, ?_, ?_⟩
    · have hpublic : x.leafPublicKey response.reply.certChain = .ok cert.publicKey := by
        unfold X509.leafPublicKey
        rw [hleaf]
        rfl
      have hsame : cert.publicKey = generated.publicKey := Except.ok.inj (hpublic.symm.trans hkey)
      rw [hsame, hgen generated (by simp), hkeyPem]
    · intro returned hr
      obtain rfl := hreturned returned (by cases r <;> simp_all [Except.toOption])
      exact ⟨hbefore, hafter⟩

/-! ## 4. Two responses -/

/-- A leaf for `oneId` with these URI names. -/
def leafWith (uris : List String) : Certificate where
  isCa := false
  notBefore := 0
  notAfter := 3600
  san := .ok (some (uris.map .uri))
  serial := "01"
  publicKey := [1]

/-- Two certificates there are: one with one URI name and one with two. -/
def twoCertificates : X509 where
  parsePem chain :=
    if chain = "one\n" then .ok [1] else if chain = "two\n" then .ok [2] else .error "no PEM"
  fromDer
    | [1] => .ok (leafWith [oneId.asStr])
    | [2] => .ok (leafWith [oneId.asStr, "spiffe://b/x"])
    | _ => .error "no DER"

def inspectingPlugin : Plugin Matcher.templateEngine := { onePlugin with reader := twoCertificates.reader }

def mountedNode : NodeState where
  store := []
  volumes _ := some ⟨none, false⟩
  ca := ""
  issued _ := none

/-- Vault signs with this certificate. -/
def vaultResponse (certificate : String) : Response := .vault ⟨certificate, [], "ca"⟩

def vaultScene (certificate : String) : Scene :=
  { oneScene with reply := (vaultResponse certificate).reply }

def playIssue (certificate : String) : List (Event NodeSig) × Except Error IssuedBundle × NodeState :=
  (issue inspectingPlugin oneId "/v" ⟨"p", "n", "1", "s"⟩ none).run.play
    (vaultScene certificate).answer mountedNode

theorem playIssue_exec (certificate : String) : Exec nodeWorld
    (issue inspectingPlugin oneId "/v" ⟨"p", "n", "1", "s"⟩ none).run mountedNode
      (playIssue certificate).1 (playIssue certificate).2.1 (playIssue certificate).2.2 := by
  unfold playIssue
  exact Prog.play_exec (vaultScene certificate).answer_world _ mountedNode

/-- The calls of such a run. -/
def issueCalls (certificate : String) : List (Event NodeSig) :=
  [⟨.generate oneId, .ok ⟨"key", "csr", [1]⟩⟩,
    ⟨.backendSign ⟨oneId, "csr", ⟨"p", "n", "1", "s"⟩, none⟩, .ok (vaultResponse certificate).reply⟩,
    ⟨.cachedCa, ""⟩,
    ⟨.publishIdentity "/v" ⟨"key", certificate ++ "\n", "ca\n"⟩ onePlugin.cfg.modes .issued, .ok ()⟩]

theorem playIssue_one : (playIssue "one").1 = issueCalls "one" := rfl

theorem playIssue_two : (playIssue "two").1 = issueCalls "two" ∧
    (playIssue "two").2.1 = .ok ⟨"two\n", "ca\n", 3600, 0⟩ := ⟨rfl, rfl⟩

/-- There is one key, and this is its public key. -/
def publicKeyOfOne (_keyPem : String) : List UInt8 := [1]

/-- Vault signs with one URI name. -/
theorem issued_leaf_is_right_iff_one :
    ∃ cert, twoCertificates.leaf (vaultResponse "one").reply.certChain = .ok cert ∧
      (RightLeaf cert oneId (publicKeyOfOne "key") (playIssue "one").2.1.toOption ↔ cert.uris.length ≤ 1) := by
  have hrun := playIssue_exec "one"
  rw [playIssue_one] at hrun
  have hgen : ∀ generated, (⟨.generate oneId, .ok generated⟩ : Event NodeSig) ∈ issueCalls "one" →
      generated.publicKey = publicKeyOfOne generated.keyPem := by
    intro generated hmem
    simp [issueCalls] at hmem
    rw [hmem]
    rfl
  exact (issued_leaf_is_right_iff (x := twoCertificates) rfl hrun hgen (.tail _ (.head _))
    (.tail _ (.tail _ (.tail _ (.head _))))).2

/-- Vault signs with a second URI name: `issue` publishes and answers Ok, and the broker's rule
    refuses the leaf at any time. -/
theorem second_uri_name_is_published : ∃ tr bundle s s' identity modes cert,
      Exec nodeWorld (issue inspectingPlugin oneId "/v" ⟨"p", "n", "1", "s"⟩ none).run s tr
        (.ok bundle) s' ∧
      (⟨.publishIdentity "/v" identity modes .issued, .ok ()⟩ : Event NodeSig) ∈ tr ∧
      twoCertificates.leaf identity.certChainPem = .ok cert ∧
      cert.uris = [oneId.asStr, "spiffe://b/x"] ∧
      ∀ now, ∃ refusal, Tokens.oneUri cert.toLeaf now = .error refusal := by
  have hrun := playIssue_exec "two"
  rw [playIssue_two.1, playIssue_two.2] at hrun
  refine ⟨_, _, _, _, _, _, leafWith [oneId.asStr, "spiffe://b/x"], hrun,
    .tail _ (.tail _ (.tail _ (.head _))), rfl, rfl, ?_⟩
  intro now
  cases h : Tokens.oneUri (leafWith [oneId.asStr, "spiffe://b/x"]).toLeaf now with
  | error refusal => exact ⟨refusal, rfl⟩
  | ok uri =>
    unfold Tokens.oneUri at h
    obtain ⟨_, _, h⟩ := bind_ok.mp h
    obtain ⟨_, _, h⟩ := bind_ok.mp h
    cases h

end Svidlet.Node
