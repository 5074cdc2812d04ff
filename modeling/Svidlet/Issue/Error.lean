import Svidlet.Lib.Fs

/-!
# How issuance fails

`svidlet-issue/src/error.rs`: the error type shared by the node plugin and the broker, the stable
code of each variant, and the two questions callers ask of an error.
-/

namespace Svidlet.Issue

open Lib

inductive ErrorCode where
  | config | identity | policy | crypto | transport | backendStatus | protocol | certificate
  | auth | io
  deriving DecidableEq, Repr

inductive Error where
  | config (text : String)
  | identity (text : String)
  | policy (text : String)
  | crypto (text : String)
  | transport (text : String)
  | backend (status : Nat) (body : String)
  | protocol (text : String)
  | certificate (text : String)
  | auth (text : String)
  | io (e : IoError)
  deriving DecidableEq, Repr

namespace Error

def code : Error → ErrorCode
  | .config _ => .config
  | .identity _ => .identity
  | .policy _ => .policy
  | .crypto _ => .crypto
  | .transport _ => .transport
  | .backend _ _ => .backendStatus
  | .protocol _ => .protocol
  | .certificate _ => .certificate
  | .auth _ => .auth
  | .io _ => .io

def isRetryable : Error → Bool
  | .transport _ | .io _ => true
  | .backend status _ => status = 429 || 500 ≤ status
  | .auth _ => true
  | .config _ | .identity _ | .policy _ | .crypto _ | .protocol _ | .certificate _ => false

/-- `Display` -/
def text : Error → String
  | .config m => "configuration is invalid: " ++ m
  | .identity m => "invalid workload identity: " ++ m
  | .policy m => "SPIFFE ID rejected by policy: " ++ m
  | .crypto m => "key or CSR generation failed: " ++ m
  | .transport m => "PKI backend unreachable: " ++ m
  | .backend status body => "PKI backend returned HTTP " ++ toString status ++ ": " ++ body
  | .protocol m => "unexpected PKI backend response: " ++ m
  | .certificate m => "certificate error: " ++ m
  | .auth m => "PKI backend authentication failed: " ++ m
  | .io e => "io error: " ++ ioText e

end Error

end Svidlet.Issue
