import Hanko.Framework.Base64
import Hanko.Framework.Json.Number

/-!
# A relying party

A service that is shown a cap token, and knows of the broker only the key set it
publishes: it takes the key with the id that the header of the token names, checks
the signature over header and payload with it, and reads the claims. The client that
was given the token reads the response it came in (`receipt`).
-/

namespace Hanko.RelyingParty

open Bytes

/-- The claims of a token. -/
structure Claims where
  iss : Bytes
  sub : Bytes
  scope : Bytes
  jti : Bytes
  iat : Int
  nbf : Int
  exp : Int
deriving DecidableEq

/-- A part of a token. -/
def decode (part : Bytes) : Option Bytes := (rawURLDecode part).toOption

def claims (v : Json) : Option Claims := do
  let iss ← v.getString "iss"
  let sub ← v.getString "sub"
  let scope ← v.getString "scope"
  let jti ← v.getString "jti"
  let iat ← v.getInt "iat"
  let nbf ← v.getInt "nbf"
  let exp ← v.getInt "exp"
  return ⟨iss, sub, scope, jti, iat, nbf, exp⟩

/-- The Ed25519 key of a key set that has the id `kid`. -/
def key (jwks kid : Bytes) : Option Bytes := do
  let doc ← Json.unmarshalAny jwks
  let k ← (doc.getArray "keys").find? fun k => k.getString "kid" = some kid
  if k.getString "kty" = some (lit "OKP") ∧ k.getString "crv" = some (lit "Ed25519") then
    (k.getString "x").bind decode
  else none

/-- The id of the key that signed a token, from its header. -/
def keyID (header : Bytes) : Option Bytes := do
  let h ← (decode header).bind Json.unmarshalAny
  if h.getString "alg" = some (lit "EdDSA") then h.getString "kid" else none

/-- The claims of a token, read without checking it. -/
def payload (token : Bytes) : Option Claims :=
  match token.splitOn 46 with
  | [_, payload, _] => ((decode payload).bind Json.unmarshalAny).bind claims
  | _ => none

/-- The claims of a token that is accepted at the time `now`. -/
def verify (ed25519Verify : Bytes → Bytes → Bytes → Bool) (jwks token : Bytes) (now : Int) : Option Claims :=
  match token.splitOn 46 with
  | [header, payload, signature] => do
    let kid ← keyID header
    let pub ← key jwks kid
    let sig ← decode signature
    let c ← ((decode payload).bind Json.unmarshalAny).bind claims
    if ed25519Verify pub (header ++ 46 :: payload) sig ∧ c.nbf ≤ now ∧ now < c.exp then some c else none
  | _ => none

/-- The answer to a bootstrap request. -/
structure Receipt where
  capToken : Bytes
  expiresAt : Bytes
  grantedScope : Bytes
  grantedSigil : Bytes
deriving DecidableEq

def receipt (body : Bytes) : Option Receipt := do
  let v ← Json.unmarshalAny body
  let capToken ← v.getString "cap_token"
  let expiresAt ← v.getString "expires_at"
  let grantedScope ← v.getString "granted_scope"
  let grantedSigil ← v.getString "granted_sigil"
  return ⟨capToken, expiresAt, grantedScope, grantedSigil⟩

end Hanko.RelyingParty
