import Svidlet.Issue.Template
import Svidlet.Lib.Result

/-!
# What comes back from the PKI backend

`svidlet-issue/src/bundle.rs` and the end of both `Issuer::sign` implementations: whatever the
backend returned, the chain is inspected and must carry the identity that was asked for, and the
validity window is the one in the certificate.

Parsing X.509 is a crate of its own and is a parameter.
-/

namespace Svidlet.Issue

open Lib

/-- PEM-encoded material written into the pod's volume. -/
structure IssuedBundle where
  certChainPem : String
  caPem : String
  notAfter : Int
  notBefore : Int

/-- What a leaf certificate on disk says about itself. -/
structure CertFacts where
  spiffeId : SpiffeId
  notBefore : Int
  notAfter : Int
  deriving DecidableEq

/-- What the code reads out of a PEM chain: the facts of the leaf, and its public key. -/
structure CertReader where
  inspect : String → Except Error CertFacts
  leafPublicKey : String → Except Error (List UInt8)

/-- Confirm the backend signed the identity that was asked for. -/
def assertIdentity (reader : CertReader) (certChainPem : String) (expected : SpiffeId) :
    Except Error CertFacts := do
  let facts ← reader.inspect certChainPem
  refuseIf (facts.spiffeId ≠ expected) (.certificate ("backend signed " ++ facts.spiffeId.asStr
    ++ " but " ++ expected.asStr ++ " was requested"))
  return facts

/-- A chain that passed carries the identity. -/
theorem assertIdentity_ok {reader : CertReader} {chain : String} {expected : SpiffeId}
    {facts : CertFacts} (h : assertIdentity reader chain expected = .ok facts) :
    reader.inspect chain = .ok facts ∧ facts.spiffeId = expected := by
  unfold assertIdentity at h
  simp only [bind_ok, refuseIf_ok, pure_ok, ne_eq, not_not] at h
  obtain ⟨facts', hi, _, hid, rfl⟩ := h
  exact ⟨hi, hid⟩

/-- What a backend answers to a signing request, before it is checked. -/
structure SignReply where
  certChain : String
  ca : String

/-- The common end of `Issuer::sign`. -/
def bundleOf (reader : CertReader) (spiffeId : SpiffeId) (reply : SignReply) :
    Except Error IssuedBundle := do
  let facts ← assertIdentity reader reply.certChain spiffeId
  return ⟨reply.certChain, reply.ca, facts.notAfter, facts.notBefore⟩

/-- A bundle that is handed on carries the identity it was asked for, and its window is that of
    the leaf. -/
theorem bundleOf_ok {reader : CertReader} {id : SpiffeId} {reply : SignReply}
    {bundle : IssuedBundle} (h : bundleOf reader id reply = .ok bundle) :
    ∃ facts, reader.inspect bundle.certChainPem = .ok facts ∧ facts.spiffeId = id ∧
      facts.notAfter = bundle.notAfter := by
  unfold bundleOf at h
  simp only [bind_ok, pure_ok] at h
  obtain ⟨facts, hfacts, rfl⟩ := h
  obtain ⟨hi, hid⟩ := assertIdentity_ok hfacts
  exact ⟨facts, hi, hid, rfl⟩

end Svidlet.Issue
