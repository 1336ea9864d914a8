import Hanko.Impl.Time

/-!
# The wire types (`protocol/types.go`)

The types of the protocol and their JSON: `toJson` is how `encoding/json`
writes a value, `decode` how it fills a variable. A Go string is its bytes; a
`nil` slice is `none`.
-/

namespace Hanko

open Bytes

/-- `protocol.Version`. -/
def version : Bytes := lit "hanko/v0.1"

structure Sigil where
  id : Bytes
  subject : Bytes
  publicKey : Option Bytes
  createdAt : Time
  expiresAt : Option Time
  metadata : List (Bytes × Bytes)
deriving DecidableEq

structure CapabilityToken where
  id : Bytes
  sigilID : Bytes
  scope : Bytes
  issuedAt : Time
  expiresAt : Time
  nonce : Option Bytes
deriving DecidableEq

structure AttestationEnvelope where
  version : Bytes
  sigilID : Bytes
  caps : Option (List CapabilityToken)
  issuer : Bytes
  issuedAt : Time
  expiresAt : Time
  signature : Option Bytes
deriving DecidableEq

/-- The caps a `range` over `env.Caps` goes through. -/
def AttestationEnvelope.capList (env : AttestationEnvelope) : List CapabilityToken := env.caps.getD []

structure RevocationEntry where
  id : Bytes
  targetType : Bytes
  reason : Bytes
  revokedAt : Time
  revokedBy : Bytes
deriving DecidableEq

/-! ## Errors -/

/-- A structured denial. -/
structure VerifyError where
  code : Bytes
  message : Bytes
deriving DecidableEq

def errSignatureInvalid : VerifyError :=
  ⟨lit "signature_invalid", lit "attestation signature does not match canonical JSON body"⟩

def errSigilRevoked : VerifyError := ⟨lit "sigil_revoked", lit "sigil has been revoked"⟩

def errCapRevoked : VerifyError := ⟨lit "cap_revoked", lit "capability token has been revoked"⟩

def errCapExpired : VerifyError := ⟨lit "capability_expired", lit "capability token is expired"⟩

def errReplayAttack : VerifyError :=
  ⟨lit "replay_attack", lit "nonce already consumed — concurrent or replayed attestation rejected"⟩

def errScopeMismatch : VerifyError :=
  ⟨lit "scope_mismatch", lit "capability token scope does not cover the requested action"⟩

/-- A Go `error`: one of the sentinels above, or any other, by its text. -/
inductive GoError where
  | verify (e : VerifyError)
  | text (msg : Bytes)
deriving DecidableEq

/-- `err.Error()`. -/
def GoError.error : GoError → Bytes
  | .verify e => e.code ++ (lit ": " ++ e.message)
  | .text msg => msg

/-- `fmt.Errorf("context: %w", err)`. -/
def GoError.wrap (context : String) (e : GoError) : GoError := .text (lit context ++ (lit ": " ++ e.error))

/-! ## Writing -/

/-- A `[]byte` in JSON: base64 with padding. -/
def bytesJson : Option Bytes → Json
  | none => .null
  | some b => .str (stdEncode b)

def CapabilityToken.toJson (c : CapabilityToken) : Except Bytes Json := do
  let issuedAt ← c.issuedAt.marshalJSON
  let expiresAt ← c.expiresAt.marshalJSON
  return .obj [(lit "id", .str c.id), (lit "sigil_id", .str c.sigilID), (lit "scope", .str c.scope),
    (lit "issued_at", .str issuedAt), (lit "expires_at", .str expiresAt), (lit "nonce", bytesJson c.nonce)]

def capsJson : Option (List CapabilityToken) → Except Bytes Json
  | none => .ok .null
  | some cs => Json.arr <$> cs.mapM CapabilityToken.toJson

def AttestationEnvelope.toJson (env : AttestationEnvelope) : Except Bytes Json := do
  let caps ← capsJson env.caps
  let issuedAt ← env.issuedAt.marshalJSON
  let expiresAt ← env.expiresAt.marshalJSON
  return .obj [(lit "version", .str env.version), (lit "sigil_id", .str env.sigilID), (lit "caps", caps),
    (lit "issuer", .str env.issuer), (lit "issued_at", .str issuedAt), (lit "expires_at", .str expiresAt),
    (lit "signature", bytesJson env.signature)]

/-- `json.Marshal`, or `json.MarshalIndent` in the layout of the CLI. -/
def AttestationEnvelope.marshal (L : Json.Layout) (env : AttestationEnvelope) : Except Bytes Bytes :=
  env.toJson.map fun v => Json.print L 0 (v.mapStr Json.quote)

/-! ## Reading -/

open Json.Decode (Slice field string bytes slice object)

/-- A `[]byte` or other slice, as the value a variable holds. -/
def sliceValue {α : Type} (s : Option (Slice α)) : Option (List α) := s.map Slice.elems

/-- A variable of type `CapabilityToken` while it is filled. -/
structure CapVar where
  id : Bytes
  sigilID : Bytes
  scope : Bytes
  issuedAt : Time
  expiresAt : Time
  nonce : Option (Slice UInt8)

def CapVar.zero : CapVar := ⟨[], [], [], .zero, .zero, none⟩

def CapVar.value (c : CapVar) : CapabilityToken :=
  ⟨c.id, c.sigilID, c.scope, c.issuedAt, c.expiresAt, sliceValue c.nonce⟩

def capFields : List (Bytes × Json.Decoder CapVar) :=
  [field (lit "id") string CapVar.id fun c x => { c with id := x },
    field (lit "sigil_id") string CapVar.sigilID fun c x => { c with sigilID := x },
    field (lit "scope") string CapVar.scope fun c x => { c with scope := x },
    field (lit "issued_at") Time.unmarshalJSON CapVar.issuedAt fun c x => { c with issuedAt := x },
    field (lit "expires_at") Time.unmarshalJSON CapVar.expiresAt fun c x => { c with expiresAt := x },
    field (lit "nonce") bytes CapVar.nonce fun c x => { c with nonce := x }]

/-- A variable of type `AttestationEnvelope` while it is filled. -/
structure EnvVar where
  version : Bytes
  sigilID : Bytes
  caps : Option (Slice CapVar)
  issuer : Bytes
  issuedAt : Time
  expiresAt : Time
  signature : Option (Slice UInt8)

def EnvVar.zero : EnvVar := ⟨[], [], none, [], .zero, .zero, none⟩

def EnvVar.value (e : EnvVar) : AttestationEnvelope :=
  ⟨e.version, e.sigilID, (sliceValue e.caps).map (List.map CapVar.value), e.issuer, e.issuedAt,
    e.expiresAt, sliceValue e.signature⟩

def envFields : List (Bytes × Json.Decoder EnvVar) :=
  [field (lit "version") string EnvVar.version fun e x => { e with version := x },
    field (lit "sigil_id") string EnvVar.sigilID fun e x => { e with sigilID := x },
    field (lit "caps") (slice (object false capFields) .zero) EnvVar.caps fun e x => { e with caps := x },
    field (lit "issuer") string EnvVar.issuer fun e x => { e with issuer := x },
    field (lit "issued_at") Time.unmarshalJSON EnvVar.issuedAt fun e x => { e with issuedAt := x },
    field (lit "expires_at") Time.unmarshalJSON EnvVar.expiresAt fun e x => { e with expiresAt := x },
    field (lit "signature") bytes EnvVar.signature fun e x => { e with signature := x }]

/-- `json.Unmarshal(input, &env)`, as `runVerify` reads an envelope. -/
def unmarshalEnvelope (input : Bytes) : Option AttestationEnvelope := do
  let t ← Json.parse input
  let e ← object false envFields .zero t
  return e.value

end Hanko
