import Hanko.Impl.Crypto
import Hanko.Impl.Store

/-!
# The broker (`broker/broker.go`)

Each operation of the broker is a program over the store and over its
surroundings (`HostOp`): the clock, the random sources, the signing key, the
counters and the publisher of lifecycle events. A question to the store is
one atomic step of the store.
-/

namespace Hanko

open Bytes Interact

/-! ## Lifecycle events (`internal/observability`) -/

/-- `NATSSubject`. -/
structure NATSSubject where
  workspaceID : Bytes
  domain : Bytes
  subDomain : Bytes
  entity : Bytes
  action : Bytes
  corrID : Bytes
deriving DecidableEq

/-- The subjects of the broker's events. -/
def brokerSubject (entity : String) (workspaceID : Bytes) (action : String) (corrID : Bytes) : NATSSubject :=
  ⟨workspaceID, lit "broker", lit "hanko", lit entity, lit action, corrID⟩

def sigilSubject : Bytes → String → Bytes → NATSSubject := brokerSubject "sigil"

def oidcSubject : Bytes → String → Bytes → NATSSubject := brokerSubject "oidc"

structure OIDCEvent where
  ts : Bytes
  corrID : Bytes
  workspaceID : Bytes
  clientID : Bytes := []
  subjectID : Bytes := []
  scopes : List Bytes := []
  endpoint : Bytes
  durationMS : Int := 0
  outcome : Bytes
  failureReason : Bytes := []

structure SigilIssuedEvent where
  ts : Bytes
  corrID : Bytes
  workspaceID : Bytes
  subjectID : Bytes
  expiresAt : Option Time
  outcome : Bytes

structure SigilRevokedEvent where
  ts : Bytes
  corrID : Bytes
  workspaceID : Bytes
  subjectID : Bytes
  reason : Bytes
  outcome : Bytes

/-- What is published. -/
inductive Payload where
  | oidc (e : OIDCEvent)
  | sigilIssued (e : SigilIssuedEvent)
  | sigilRevoked (e : SigilRevokedEvent)

/-! ## The surroundings of the broker -/

/-- What the broker asks of its surroundings. -/
inductive HostOp where
  | timeNow
  /-- `cfg.Now()` of the OIDC handler. -/
  | cfgNow
  | newUUID
  | generateNonce
  /-- `ed25519.Sign` with the broker's key. -/
  | sign (message : Bytes)
  /-- Validation of a token of an identity provider: the subject. -/
  | verifyJWT (tok jwksURL issuer audience : Bytes)
  | publish (subject : NATSSubject) (payload : Payload)
  /-- A line appended to the audit file. -/
  | auditAppend (line : Bytes)
  /-- `bruteForce.RecordFailure`. -/
  | recordFailure (clientID : Bytes)
  | incSigilIssued (capabilitySet clientID : Bytes)
  | addRevocationAllowed
  | addRevocationDenied

abbrev HostOp.Ans : HostOp → Type
  | .timeNow => Time
  | .cfgNow => Time
  | .newUUID => Bytes
  | .generateNonce => Except GoError Bytes
  | .sign _ => Bytes
  | .verifyJWT .. => Except GoError Bytes
  | .publish .. => Unit
  | .auditAppend _ => Unit
  | .recordFailure _ => Unit
  | .incSigilIssued .. => Unit
  | .addRevocationAllowed => Unit
  | .addRevocationDenied => Unit

abbrev HostSig : Sig := ⟨HostOp, HostOp.Ans⟩

abbrev BrokerSig : Sig := StoreSig.sum HostSig

/-- A method of the store. -/
def askStore (o : StoreOp) : Prog BrokerSig o.Ans := .call (S := BrokerSig) (.inl o)

/-- A question to the surroundings. -/
def askHost (o : HostOp) : Prog BrokerSig o.Ans := .call (S := BrokerSig) (.inr o)

@[simp] theorem askStore_eq (o : StoreOp) : askStore o = .ask (S := BrokerSig) (.inl o) .ret := rfl

@[simp] theorem askHost_eq (o : HostOp) : askHost o = .ask (S := BrokerSig) (.inr o) .ret := rfl

/-- `Broker`. The private key is behind `HostOp.sign`; `ed25519Verify message
sig` is `ed25519.Verify` with the public key. -/
structure Broker where
  signerPub : Bytes
  ed25519Verify : Bytes → Bytes → Bool
  sha256 : Bytes → Bytes
  workspaceID : Bytes
  /-- Whether a Prometheus surface is attached. -/
  metrics : Bool

/-- `IssuerName`. -/
def issuerName : Bytes := lit "hanko-broker@obyw.one"

namespace Broker

/-! ## Issuing -/

/-- `m[k]` of a `map[string]string`. -/
def mapGet (m : List (Bytes × Bytes)) (k : Bytes) : Bytes := (m.lookup k).getD []

def capabilitySetHash (b : Broker) (metadata : List (Bytes × Bytes)) : Bytes :=
  let scopes := mapGet metadata (lit "scopes")
  if scopes = [] then lit "none" else hexEncode ((b.sha256 scopes).take 8)

def issueSigil (b : Broker) (subject : Bytes) (pubKey : Option Bytes) (expiresAt : Option Time)
    (metadata : Option (List (Bytes × Bytes))) : Prog BrokerSig (Except GoError Sigil) := do
  let metadata := metadata.getD []
  let id ← askHost .newUUID
  let createdAt ← askHost .timeNow
  let s : Sigil := ⟨id, subject, pubKey, createdAt.utc, expiresAt, metadata⟩
  match ← askStore (.saveSigil s) with
  | .error e => return .error (e.wrap "broker.IssueSigil")
  | .ok _ =>
    let corrID ← askHost .newUUID
    let ts ← askHost .timeNow
    askHost (.publish (sigilSubject b.workspaceID "issued" corrID) (.sigilIssued
      ⟨ts.utc.format, corrID, b.workspaceID, subject, expiresAt, lit "success"⟩))
    if b.metrics then
      askHost (.incSigilIssued (b.capabilitySetHash metadata) (mapGet metadata (lit "client_id")))
    return .ok s

def issueCap (sigilID scope : Bytes) (expiresAt : Time) : Prog BrokerSig (Except GoError CapabilityToken) := do
  match ← askStore (.getSigil sigilID) with
  | .error e => return .error (e.wrap "broker.IssueCap: sigil not found")
  | .ok _ =>
    match ← askHost .generateNonce with
    | .error e => return .error e
    | .ok nonce =>
      let id ← askHost .newUUID
      let issuedAt ← askHost .timeNow
      let c : CapabilityToken := ⟨id, sigilID, scope, issuedAt.utc, expiresAt, some nonce⟩
      match ← askStore (.saveCap c) with
      | .error e => return .error (e.wrap "broker.IssueCap")
      | .ok _ => return .ok c

/-- `hcrypto.Sign`. -/
def sign (body : Json) : Prog BrokerSig (Except GoError Bytes) :=
  match canonicalJSON body with
  | .error e => return .error (e.wrap "hanko/crypto: canonical JSON failed")
  | .ok canonical => do
    let sig ← askHost (.sign canonical)
    return .ok sig

def issueAttestation (sigilID : Bytes) (caps : Option (List CapabilityToken)) (expiresAt : Time) :
    Prog BrokerSig (Except GoError AttestationEnvelope) := do
  let issuedAt ← askHost .timeNow
  let env : AttestationEnvelope := ⟨version, sigilID, caps, issuerName, issuedAt.utc, expiresAt, none⟩
  match envelopeBody env with
  | .error e => return .error (e.wrap "broker.IssueAttestation")
  | .ok body =>
    match ← sign body with
    | .error e => return .error (e.wrap "broker.IssueAttestation")
    | .ok sig => return .ok { env with signature := some sig }

/-! ## Verifying -/

/-- `hcrypto.Verify`. -/
def verify (b : Broker) (body : Json) (sig : Option Bytes) : Except GoError Unit :=
  match canonicalJSON body with
  | .error e => .error (e.wrap "hanko/crypto: canonical JSON failed")
  | .ok canonical =>
    if b.ed25519Verify canonical (sig.getD []) then .ok ()
    else .error (.text (lit "hanko/crypto: signature verification failed"))

/-- The loop over the caps of an envelope. -/
def verifyCaps : List CapabilityToken → Prog BrokerSig (Option GoError)
  | [] => do
    askHost .addRevocationAllowed
    return none
  | c :: cs => do
    if ← askStore (.isRevoked c.id) then
      askHost .addRevocationDenied
      return some (.verify errCapRevoked)
    else
      let now ← askHost .timeNow
      if now.after c.expiresAt then return some (.verify errCapExpired)
      else
        let first ← askStore (.tryRecordNonce c.nonce)
        if first then verifyCaps cs else return some (.verify errReplayAttack)

/-- `VerifyAttestation` after the signature check. -/
def verifySigned (env : AttestationEnvelope) : Prog BrokerSig (Option GoError) := do
  if ← askStore (.isRevoked env.sigilID) then
    askHost .addRevocationDenied
    return some (.verify errSigilRevoked)
  else
    let now ← askHost .timeNow
    if now.after env.expiresAt then return some (.verify errCapExpired)
    else verifyCaps env.capList

def verifyAttestation (b : Broker) (env : AttestationEnvelope) : Prog BrokerSig (Option GoError) :=
  match envelopeBody env with
  | .error e => return some (e.wrap "broker.VerifyAttestation")
  | .ok body =>
    match b.verify body env.signature with
    | .error _ => return some (.verify errSignatureInvalid)
    | .ok _ => verifySigned env

/-- `VerifyCapScope`. -/
def verifyCapScope (cap : CapabilityToken) (requestedAction : Bytes) : Option GoError :=
  if cap.scope ≠ requestedAction then some (.verify errScopeMismatch) else none

/-! ## Revoking -/

def revokeSigil (b : Broker) (sigilID reason revokedBy : Bytes) : Prog BrokerSig (Option GoError) := do
  let revokedAt ← askHost .timeNow
  match ← askStore (.revoke ⟨sigilID, lit "sigil", reason, revokedAt.utc, revokedBy⟩) with
  | .error e => return some e
  | .ok _ =>
    let corrID ← askHost .newUUID
    let ts ← askHost .timeNow
    askHost (.publish (sigilSubject b.workspaceID "revoked" corrID) (.sigilRevoked
      ⟨ts.utc.format, corrID, b.workspaceID, sigilID, reason, lit "success"⟩))
    return none

def revokeCap (capID reason revokedBy : Bytes) : Prog BrokerSig (Option GoError) := do
  let revokedAt ← askHost .timeNow
  match ← askStore (.revoke ⟨capID, lit "cap", reason, revokedAt.utc, revokedBy⟩) with
  | .error e => return some e
  | .ok _ => return none

end Broker

end Hanko
