import Hanko.Impl.ConfigReload
import Hanko.Impl.Nats

/-!
# Subjects (`internal/observability/subject.go`)

The constants of the subject grammar, and the one subscription of the broker
(`config_reload.go`): a reload is requested under a subject whose last token is
any correlation id. What the callback prints about a bad payload is left out.
-/

namespace Hanko

open Bytes Interact

/-! ## The grammar -/

/-- The `Entity` constants. -/
inductive Entity where
  | oidc
  | sigil
  | jwks
  | security
  | cdc
  | config
  | scope
deriving DecidableEq

def Entity.text : Entity → String
  | .oidc => "oidc"
  | .sigil => "sigil"
  | .jwks => "jwks"
  | .security => "security"
  | .cdc => "cdc"
  | .config => "config"
  | .scope => "scope"

/-- The `Action` constants. -/
inductive Action where
  | authRequest
  | codeIssued
  | tokenIssued
  | userInfoServed
  | sessionRevoked
  | failed
  | tokenFailed
  | userInfoFailed
  | sigilIssued
  | sigilRevoked
  | jwksRotated
  | bruteForceDetected
  | auditRowInserted
  | auditRowUpdated
  | auditRowDeleted
  | configReloadRequested
  | configReloaded
  | configReloadFailed
  | unknownScopeRejected
deriving DecidableEq

def Action.text : Action → String
  | .authRequest => "auth_request"
  | .codeIssued => "code_issued"
  | .tokenIssued => "token_issued"
  | .userInfoServed => "userinfo_served"
  | .sessionRevoked => "session_revoked"
  | .failed => "failed"
  | .tokenFailed => "token_failed"
  | .userInfoFailed => "userinfo_failed"
  | .sigilIssued => "issued"
  | .sigilRevoked => "revoked"
  | .jwksRotated => "rotated"
  | .bruteForceDetected => "brute_force_detected"
  | .auditRowInserted => "audit_row_inserted"
  | .auditRowUpdated => "audit_row_updated"
  | .auditRowDeleted => "audit_row_deleted"
  | .configReloadRequested => "reload_requested"
  | .configReloaded => "reloaded"
  | .configReloadFailed => "reload_failed"
  | .unknownScopeRejected => "unknown_scope_rejected"

/-- The loop of `lastToken`, with the first `i` bytes still to be looked at. -/
def lastTokenFrom (subject : Bytes) : Nat → Bytes
  | 0 => subject
  | i + 1 => if subject[i]? = some 46 then subject.drop (i + 1) else lastTokenFrom subject i

def lastToken (subject : Bytes) : Bytes := lastTokenFrom subject subject.length

/-! ## Subscriptions -/

/-- Whether a token of a subscription takes a token of a subject. -/
def tokenMatches (pattern token : Bytes) : Bool := pattern = lit "*" || pattern = token

/-- Whether a subscription takes a subject: token by token. -/
def subscriptionMatches (pattern subject : Bytes) : Bool :=
  let ps := pattern.splitOn 46
  let ts := subject.splitOn 46
  ps.length = ts.length && (ps.zip ts).all fun p => tokenMatches p.1 p.2

open Json.Decode (field string) in
def reloadFields : List (Bytes × Json.Decoder ReloadRequest) :=
  [field (lit "corr_id") string ReloadRequest.corrID fun r x => { r with corrID := x },
    field (lit "requested_by_subject_id") string ReloadRequest.requestedBySubjectID fun r x =>
      { r with requestedBySubjectID := x },
    field (lit "toml_payload") string ReloadRequest.tomlPayload fun r x => { r with tomlPayload := x }]

/-- `json.Unmarshal` into a `ReloadRequest`. -/
def decodeReloadRequest (data : Bytes) : Option ReloadRequest := do
  let v ← Json.parse data
  Json.Decode.object false reloadFields ⟨[], [], []⟩ v

namespace ConfigReloader

/-- The subject that `Subscribe` subscribes to. -/
def subscription (r : ConfigReloader) : Bytes := (configSubject r.workspaceID "reload_requested" (lit "*")).string

/-- The callback of `Subscribe`. -/
def onMessage (r : ConfigReloader) (subject data : Bytes) : Prog ReloadSig Unit :=
  match decodeReloadRequest data with
  | none => return ()
  | some req => do
    let req := if req.corrID = [] then { req with corrID := lastToken subject } else req
    let _ ← r.applyReload req
    return ()

end ConfigReloader

end Hanko
