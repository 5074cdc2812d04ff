import Svidlet.Issue.Error
import Svidlet.Lib.Result
import Svidlet.Lib.Text

/-!
# Reading tokens and key sets

`svidlet-issue/src/jwt.rs`: what a JWT-SVID says, without verifying it, and which keys a JWKS holds.
Base64 and JSON are read by crates and are parameters; what is done with what they return is here.

Times are 64-bit and wrap, as they do in a release build. `past_half_life` is written with three
operations that can, and still says what it is meant to (`more_than_half_left`).
-/

namespace Svidlet.Issue

open Lib

structure JwtHeader where
  alg : String
  kid : String
  deriving DecidableEq

/-- The registered claims of a JWT-SVID. -/
structure Claims where
  sub : String
  aud : List String
  iss : String
  exp : Int64
  iat : Int64
  jti : String
  deriving DecidableEq

/-- `aud` is a string, an array of strings, or missing. -/
inductive RawAudience where
  | one (aud : String)
  | many (auds : List String)
  | missing
  deriving DecidableEq

def RawAudience.toList : RawAudience → List String
  | .one a => [a]
  | .many a => a
  | .missing => []

structure RawClaims where
  sub : String
  aud : RawAudience
  iss : String
  exp : Int64
  iat : Int64
  jti : String
  deriving DecidableEq

structure RawJwk where
  kid : String
  kty : String
  crv : String
  x : String
  y : String
  n : String
  e : String
  deriving DecidableEq

/-- What the base64 and JSON crates answer. -/
structure JwtReader where
  b64 : String → Except String (List UInt8)
  header : List UInt8 → Except String JwtHeader
  claims : List UInt8 → Except String RawClaims
  jwks : String → Except String (List RawJwk)

/-- A token whose header and claims have been read but not verified. -/
structure Unverified where
  header : JwtHeader
  claims : Claims
  deriving DecidableEq

/-! ## 1. Lifetimes -/

namespace Unverified

def lifetime (t : Unverified) : Int64 := max (t.claims.exp - t.claims.iat) 0

def pastHalfLife (t : Unverified) (now : Int64) : Bool :=
  let half := t.claims.iat + t.lifetime / 2
  half ≤ now

theorem toInt_max (a b : Int64) : (max a b).toInt = max a.toInt b.toInt := by
  show (if a ≤ b then b else a).toInt = _
  split
  · rename_i h
    rw [Int64.le_iff_toInt_le] at h
    omega
  · rename_i h
    rw [Int64.le_iff_toInt_le] at h
    omega

theorem bmod_of_fits {x : Int} (hlo : -2 ^ 63 ≤ x) (hhi : x < 2 ^ 63) : x.bmod (2 ^ 64) = x :=
  Int.bmod_eq_of_le (by omega) (by omega)

/-- The lifetime is the difference, or nothing where the difference does not fit. -/
theorem lifetime_toInt {t : Unverified} (hiat : t.claims.iat ≤ t.claims.exp) :
    t.lifetime.toInt = if t.claims.exp.toInt - t.claims.iat.toInt < 2 ^ 63
      then t.claims.exp.toInt - t.claims.iat.toInt else 0 := by
  rw [Int64.le_iff_toInt_le] at hiat
  have hexp := t.claims.exp.toInt_lt
  have hlo := t.claims.iat.le_toInt
  have hzero : (0 : Int64).toInt = 0 := rfl
  rw [lifetime, toInt_max, Int64.toInt_sub, hzero]
  split
  · rename_i hfits
    rw [bmod_of_fits (by omega) hfits]
    omega
  rename_i hlong
  have hwrap : (t.claims.exp.toInt - t.claims.iat.toInt).bmod (2 ^ 64)
      = t.claims.exp.toInt - t.claims.iat.toInt - (2 ^ 64 : Nat) := by
    rw [← Int.sub_bmod_right]
    exact bmod_of_fits (by omega) (by omega)
  rw [hwrap]
  omega

/-- A token that is not past its half-life has more than half of its lifetime left, even where the
    arithmetic wraps. -/
theorem more_than_half_left {t : Unverified} {now : Int64} (h : t.pastHalfLife now = false)
    (hiat : t.claims.iat ≤ t.claims.exp) :
    t.claims.exp.toInt - t.claims.iat.toInt < 2 * (t.claims.exp.toInt - now.toInt) := by
  have hlt : now < t.claims.iat + t.lifetime / 2 := by
    simpa [pastHalfLife, Int64.not_le] using h
  have hhalf : (t.lifetime / 2).toInt = t.lifetime.toInt.tdiv 2 :=
    Int64.toInt_div_of_ne_right _ _ (by decide)
  rw [Int64.lt_iff_toInt_lt, Int64.toInt_add, hhalf, lifetime_toInt hiat] at hlt
  rw [Int64.le_iff_toInt_le] at hiat
  have hexp := t.claims.exp.toInt_lt
  have hlo := t.claims.iat.le_toInt
  have hhi := t.claims.iat.toInt_lt
  split at hlt
  · rw [Int.tdiv_eq_ediv_of_nonneg (by omega), bmod_of_fits (by omega) (by omega)] at hlt
    omega
  · rw [Int.zero_tdiv, Int.add_zero, bmod_of_fits hlo hhi] at hlt
    omega

end Unverified

/-! ## 2. Reading -/

def decodeB64 (reader : JwtReader) (part what : String) : Except Error (List UInt8) :=
  let trimmed := String.ofList (part.toList.reverse.dropWhile (· = '=')).reverse
  (reader.b64 trimmed).mapError fun e => .protocol ("JWT " ++ what ++ " is not base64url: " ++ e)

def toAsciiLower (s : String) : String := String.ofList (s.toList.map fun c =>
    if 'A'.toNat ≤ c.toNat ∧ c.toNat ≤ 'Z'.toNat then Char.ofNat (c.toNat + 32) else c)

/-- Split and decode a compact JWS without checking its signature. -/
def decodeUnverified (reader : JwtReader) (token : String) : Except Error Unverified :=
  match splitChar '.' token.toList with
  | [h, c, sig] => do
    refuseIf (sig = []) (.protocol "the JWT is unsigned")
    let headerBytes ← decodeB64 reader (String.ofList h) "header"
    let header ← (reader.header headerBytes).mapError fun e =>
      Error.protocol ("JWT header is not JSON: " ++ e)
    refuseIf (toAsciiLower header.alg = "none") (.protocol "the JWT uses alg=none")
    let claimBytes ← decodeB64 reader (String.ofList c) "claims"
    let raw ← (reader.claims claimBytes).mapError fun e =>
      Error.protocol ("JWT claims are not JSON: " ++ e)
    return ⟨header, ⟨raw.sub, raw.aud.toList, raw.iss, raw.exp, raw.iat, raw.jti⟩⟩
  | _ => .error (.protocol "a JWT has exactly three parts")

/-- The key IDs of a key set. -/
abbrev Jwks := List String

namespace Jwks

def checkKey (reader : JwtReader) (key : RawJwk) : Except Error Unit := do
  refuseIf (key.kid.isEmpty) (.protocol "a JWKS key has no kid")
  match key.kty with
  | "EC" =>
    refuseIf (key.crv ∉ ["P-256", "P-384", "P-521"])
      (.protocol ("key " ++ key.kid ++ " has unsupported curve " ++ debugStr key.crv))
    let _ ← decodeB64 reader key.x "JWK x"
    let _ ← decodeB64 reader key.y "JWK y"
    return ()
  | "RSA" =>
    let n ← decodeB64 reader key.n "JWK n"
    refuseIf (n.length < 256)
      (.protocol ("key " ++ key.kid ++ " is an RSA key shorter than 2048 bits"))
    let _ ← decodeB64 reader key.e "JWK e"
    return ()
  | other =>
    throw (.protocol ("key " ++ key.kid ++ " has unsupported type " ++ debugStr other))

def collect (reader : JwtReader) : List RawJwk → Jwks → Except Error Jwks
  | [], kids => .ok kids
  | key :: rest, kids => do
    checkKey reader key
    refuseIf (key.kid ∈ kids) (.protocol ("kid " ++ key.kid ++ " appears twice"))
    collect reader rest (key.kid :: kids)

/-- Parse a JWKS and check every key in it. -/
def parse (reader : JwtReader) (json : String) : Except Error Jwks := do
  let raw ← (reader.jwks json).mapError fun e => Error.protocol ("JWKS is not JSON: " ++ e)
  collect reader raw []

end Jwks

end Svidlet.Issue
