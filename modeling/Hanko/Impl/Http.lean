import Hanko.Impl.Broker
import Hanko.Impl.Strings

/-!
# The HTTP surface (`broker/oidc.go`, `broker/http_admin.go`)

`OIDCBootstrap.handle` exchanges a token of an identity provider for a cap
token; `HTTPServer.handleAdminRevoke` revokes a sigil. The validation of the
provider's token is `HostOp.verifyJWT`.
-/

namespace Hanko

open Bytes Interact

/-! ## Requests and responses -/

/-- What the handlers read of a request. A header that is absent reads as
empty. -/
structure Request where
  method : Bytes
  /-- `X-Shikki-Corr-Id`. -/
  corrID : Bytes
  /-- `X-Forwarded-For`. -/
  forwardedFor : Bytes
  /-- `X-Admin-Secret`. -/
  adminSecret : Bytes
  remoteAddr : Bytes
  body : Bytes

structure Response where
  status : Nat
  headers : List (Bytes × Bytes)
  body : Bytes
deriving DecidableEq

/-- `http.Error`. -/
def httpError (headers : List (Bytes × Bytes)) (msg : String) (status : Nat) : Response :=
  ⟨status, headers ++ [(lit "Content-Type", lit "text/plain; charset=utf-8"),
    (lit "X-Content-Type-Options", lit "nosniff")], lit msg ++ [10]⟩

def methodNotAllowed : Response := httpError [(lit "Allow", lit "POST")] "method not allowed" 405

/-- `json.NewEncoder(w).Encode` of a struct. -/
def encodeJson (v : Json) : Bytes := Json.print Json.compact 0 (v.mapStr Json.quote) ++ [10]

/-- `strings.Join(parts, " ")`. -/
def joinSpace (parts : List Bytes) : Bytes := [32].intercalate parts

/-- `%v` of a `[]string`. -/
def formatStrings (xs : List Bytes) : Bytes := 91 :: (joinSpace xs ++ [93])

/-! ## The source of a request -/

/-- `s[i:]`; `none` is the panic of an index out of range. -/
def sliceFrom (s : Bytes) (i : Nat) : Option Bytes := if i ≤ s.length then some (s.drop i) else none

/-- `splitHostPort`: an error, host and port, or (`none`) a panic. -/
def splitHostPort (hostport : Bytes) : Option (Except GoError (Bytes × Bytes)) :=
  if 58 ∉ hostport then some (.ok (hostport, []))
  else if hostport.head? = some 91 then
    if 93 ∉ hostport then some (.error (.text (lit "missing ] in address")))
    else
      let last := hostport.findIdx (· = 93)
      (sliceFrom hostport (last + 2)).map fun port => .ok ((hostport.take last).drop 1, port)
  else
    let port := (hostport.reverse.takeWhile (· ≠ 58)).reverse
    some (.ok (hostport.take (hostport.length - port.length - 1), port))

/-- `clientIP`. -/
def clientIP (r : Request) : Option Bytes :=
  let ip := trimSpace (r.forwardedFor.takeWhile (· ≠ 44))
  if r.forwardedFor ≠ [] ∧ ip ≠ [] then some ip
  else (splitHostPort r.remoteAddr).map fun
    | .ok (host, _) => host
    | .error _ => r.remoteAddr

/-! ## Configuration of the OIDC handler -/

structure OIDCPolicyRow where
  issuer : Bytes
  sub : Bytes
  mappedSigil : Bytes
  allowedScopes : List Bytes
  maxTTLSec : Int
  enabled : Bool
deriving DecidableEq

def policyKey (issuer sub : Bytes) : Bytes := issuer ++ 124 :: sub

/-- `OIDCPolicy`. -/
structure OIDCPolicy where
  rows : Bytes → Option OIDCPolicyRow

/-- The index `LoadOIDCPolicy` builds. -/
def OIDCPolicy.ofRows (rows : List OIDCPolicyRow) : OIDCPolicy :=
  ⟨rows.foldl (fun idx r => Function.update idx (policyKey r.issuer r.sub) (some r)) fun _ => none⟩

/-- What `os.ReadFile` returns. -/
inductive FileRead where
  | bytes (raw : Bytes)
  /-- An error that is `os.ErrNotExist`. -/
  | notExist
  | failed (e : GoError)

/-- `LoadOIDCPolicy`, with what `os.ReadFile(path)` returns. `unmarshal` is
`json.Unmarshal` into a `[]OIDCPolicyRow`. -/
def loadOIDCPolicy (unmarshal : Bytes → Except GoError (List OIDCPolicyRow)) (path : Bytes) (file : FileRead) :
    Except GoError OIDCPolicy :=
  if path = [] then .ok (.ofRows [])
  else
    match file with
    | .notExist => .ok (.ofRows [])
    | .failed e => .error (e.wrap "oidc policy")
    | .bytes raw =>
      match unmarshal raw with
      | .error e => .error (e.wrap "oidc policy: parse")
      | .ok rows => .ok (.ofRows rows)

/-- `Lookup`. -/
def OIDCPolicy.lookup (p : OIDCPolicy) (issuer sub : Bytes) : Option OIDCPolicyRow :=
  p.rows (policyKey issuer sub)

/-- `OIDCConfig`, as far as the handler reads it itself. -/
structure OIDCConfig where
  policy : Option OIDCPolicy
  issuerJWKSURLs : List (Bytes × Bytes)
  audience : Bytes
  auditPath : Bytes
  workspaceID : Bytes

/-- `OIDCBootstrap`: a broker and a configuration that was accepted. -/
structure OIDCBootstrap where
  broker : Broker
  policy : OIDCPolicy
  issuerJWKSURLs : List (Bytes × Bytes)
  audience : Bytes
  auditPath : Bytes
  workspaceID : Bytes
  issuers_ne : issuerJWKSURLs ≠ []
  audience_ne : audience ≠ []

/-- `NewOIDCBootstrap`. -/
def newOIDCBootstrap (b : Option Broker) (cfg : OIDCConfig) : Except GoError OIDCBootstrap :=
  match b with
  | none => .error (.text (lit "oidc: NewOIDCBootstrap: broker must not be nil"))
  | some b =>
    match cfg.policy with
    | none => .error (.text (lit "oidc: NewOIDCBootstrap: policy must not be nil"))
    | some policy =>
      if hi : cfg.issuerJWKSURLs = [] then
        .error (.text (lit "oidc: NewOIDCBootstrap: at least one issuer JWKS URL required"))
      else if ha : cfg.audience = [] then
        .error (.text (lit
          "oidc: NewOIDCBootstrap: HANKO_OIDC_AUDIENCE is required — empty audience bypasses audience verification"))
      else .ok ⟨b, policy, cfg.issuerJWKSURLs, cfg.audience, cfg.auditPath, cfg.workspaceID, hi, ha⟩

structure BootstrapRequest where
  oidcToken : Bytes
  oidcIssuer : Bytes
  audience : Bytes
  requestedScope : Bytes
  requestedScopes : Option (Json.Decode.Slice Bytes)
  requestedTTL : Int

open Json.Decode (field string int slice object) in
def bootstrapFields : List (Bytes × Json.Decoder BootstrapRequest) :=
  [field (lit "oidc_token") string BootstrapRequest.oidcToken fun r x => { r with oidcToken := x },
    field (lit "oidc_issuer") string BootstrapRequest.oidcIssuer fun r x => { r with oidcIssuer := x },
    field (lit "audience") string BootstrapRequest.audience fun r x => { r with audience := x },
    field (lit "requested_scope") string BootstrapRequest.requestedScope fun r x => { r with requestedScope := x },
    field (lit "requested_scopes") (slice string []) BootstrapRequest.requestedScopes
      fun r x => { r with requestedScopes := x },
    field (lit "requested_ttl_sec") int BootstrapRequest.requestedTTL fun r x => { r with requestedTTL := x }]

/-- The first JSON value of the first 64 KiB of a body, unknown fields refused. -/
def decodeBootstrapRequest (body : Bytes) : Option BootstrapRequest := do
  let (v, _) ← Json.parseFirst (body.take 65536)
  Json.Decode.object true bootstrapFields ⟨[], [], [], [], none, 0⟩ v

/-- All the scopes a request asks for, in the order in which they are joined. -/
def BootstrapRequest.scopes (req : BootstrapRequest) : List Bytes :=
  (req.requestedScopes.elim [] fun s => s.elems) ++
    (if req.requestedScope ≠ [] then [req.requestedScope] else [])

/-- `scopesSubset`. -/
def scopesSubset (requested allowed : List Bytes) : Bool := requested.all fun s => s ∈ allowed

/-! ## Bootstrap -/

/-- An `int64` that overflowed. -/
def wrap64 (n : Int) : Int := n.bmod (2 ^ 64)

def second : Duration := 1000000000

/-- `MaxOIDCTTL`. -/
def maxOIDCTTL : Duration := 300 * second

/-- `DefaultOIDCTTL`. -/
def defaultOIDCTTL : Duration := 30 * second

/-- The lifetime of a minted cap. -/
def grantedTTL (row : OIDCPolicyRow) (requestedTTL : Int) : Duration :=
  let ttl := if 0 < row.maxTTLSec then wrap64 (row.maxTTLSec * second) else defaultOIDCTTL
  let asked := wrap64 (requestedTTL * second)
  let ttl := if 0 < requestedTTL ∧ asked < ttl then asked else ttl
  if maxOIDCTTL < ttl then maxOIDCTTL else ttl

/-- `brokerKid`. -/
def brokerKid (b : Broker) : Bytes := rawURLEncode (b.sha256 b.signerPub)

/-- The claims of a minted JWT. -/
def capClaims (sub scope jti : Bytes) (now exp : Int) : Json :=
  .obj [(lit "iss", .str issuerName), (lit "sub", .str sub), (lit "scope", .str scope), (lit "jti", .str jti),
    (lit "iat", .num (Time.appendInt now 0)), (lit "nbf", .num (Time.appendInt now 0)),
    (lit "exp", .num (Time.appendInt exp 0))]

/-- What `SignedString` of golang-jwt signs. The library is not part of the repository: this
form is assumed of it, the JSON of the header and that of the claims, each in base64url without
padding, and a period between them. -/
def signingString (kid : Bytes) (claims : Json) : Bytes :=
  rawURLEncode (Json.marshal (.obj [(lit "typ", .str (lit "JWT")), (lit "alg", .str (lit "EdDSA")),
    (lit "kid", .str kid)])) ++ 46 :: rawURLEncode (Json.marshal claims)

namespace OIDCBootstrap

def endpoint : Bytes := lit "/api/v1/sigils/bootstrap-oidc"

/-- `signCapJWT`. -/
def signCapJWT (h : OIDCBootstrap) (cap : CapabilityToken) (row : OIDCPolicyRow) (scope : Bytes)
    (expiresAt : Time) : Prog BrokerSig Bytes := do
  let now ← askHost .cfgNow
  let input := signingString (brokerKid h.broker)
    (capClaims row.mappedSigil scope cap.id now.sec expiresAt.sec)
  let sig ← askHost (.sign input)
  return input ++ 46 :: rawURLEncode sig

/-- `audit`. -/
def audit (h : OIDCBootstrap) (req : BootstrapRequest) (sub : Bytes) (outcome : String)
    (grantedScope : Bytes) : Prog BrokerSig Unit := do
  if h.auditPath ≠ [] then
    let ts ← askHost .cfgNow
    askHost (.auditAppend (Json.marshal (.obj [(lit "ts", .str ts.utc.format),
      (lit "issuer", .str req.oidcIssuer), (lit "sub", .str sub), (lit "outcome", .str (lit outcome)),
      (lit "granted_scope", .str grantedScope)]) ++ [10]))

/-- The headers of every response after the method check. -/
def headers (corrID : Bytes) : List (Bytes × Bytes) :=
  [(lit "Content-Type", lit "application/json; charset=utf-8"), (lit "X-Shikki-Corr-Id", corrID)]

/-- `writeOIDCErr`. -/
def writeOIDCErr (corrID : Bytes) (status : Nat) (code : String) (reason : Bytes) : Response :=
  ⟨status, headers corrID, encodeJson (.obj ((lit "error", .str (lit code)) ::
    (if reason ≠ [] then [(lit "reason", .str reason)] else [])))⟩

/-- `publishFail`. -/
def publishFail (h : OIDCBootstrap) (start : Time) (corrID clientID : Bytes) (reason : String) :
    Prog BrokerSig Unit := do
  let ts ← askHost .timeNow
  let now ← askHost .timeNow
  askHost (.publish (oidcSubject h.workspaceID "failed" corrID) (.oidc
    { ts := ts.utc.format, corrID := corrID, workspaceID := h.workspaceID, clientID := clientID,
      endpoint := endpoint, durationMS := now.sinceMilliseconds start, outcome := lit "failure",
      failureReason := lit reason }))

/-- A refusal: the event and the response. -/
def deny (h : OIDCBootstrap) (start : Time) (corrID clientID : Bytes) (failure : String) (status : Nat)
    (code : String) (reason : Bytes) : Prog BrokerSig (Option Response) := do
  h.publishFail start corrID clientID failure
  return some (writeOIDCErr corrID status code reason)

/-- The events of a success. -/
def publishSuccess (h : OIDCBootstrap) (start : Time) (corrID : Bytes) (row : OIDCPolicyRow) (sub : Bytes)
    (scopes : List Bytes) (action : String) : Prog BrokerSig Unit := do
  let ts ← askHost .timeNow
  let now ← askHost .timeNow
  askHost (.publish (oidcSubject h.workspaceID action corrID) (.oidc
    { ts := ts.utc.format, corrID := corrID, workspaceID := h.workspaceID, clientID := row.mappedSigil,
      subjectID := sub, scopes := scopes, endpoint := endpoint,
      durationMS := now.sinceMilliseconds start, outcome := lit "success" }))

/-- The body of a `BootstrapResponse`; nothing is written if the expiry has no
JSON text. -/
def responseBody (capToken : Bytes) (expiresAt : Time) (grantedScope grantedSigil : Bytes) : Bytes :=
  match expiresAt.marshalJSON with
  | .ok text => encodeJson (.obj [(lit "cap_token", .str capToken), (lit "expires_at", .str text),
      (lit "granted_scope", .str grantedScope), (lit "granted_sigil", .str grantedSigil)])
  | .error _ => []

/-- `Handle`, once the policy has granted the scopes. -/
def mint (h : OIDCBootstrap) (start : Time) (corrID : Bytes) (req : BootstrapRequest) (sub : Bytes)
    (row : OIDCPolicyRow) : Prog BrokerSig (Option Response) := do
  let scopeJoined := joinSpace req.scopes
  let now ← askHost .cfgNow
  let expiresAt := now.add (grantedTTL row req.requestedTTL)
  match ← Broker.issueCap row.mappedSigil scopeJoined expiresAt with
  | .error _ => h.deny start corrID row.mappedSigil "mint_failed" 500 "mint_failed" (lit "internal error")
  | .ok capTok =>
    h.publishSuccess start corrID row sub req.scopes "token_issued"
    let jws ← h.signCapJWT capTok row scopeJoined expiresAt
    h.audit req sub "granted" scopeJoined
    h.publishSuccess start corrID row sub req.scopes "code_issued"
    return some ⟨200, headers corrID, responseBody jws expiresAt scopeJoined row.mappedSigil⟩

/-- `Handle`, once the token of the provider is validated. -/
def authorize (h : OIDCBootstrap) (start : Time) (corrID : Bytes) (req : BootstrapRequest) (sub : Bytes) :
    Prog BrokerSig (Option Response) := do
  let found := h.policy.lookup req.oidcIssuer sub
  match found.filter OIDCPolicyRow.enabled with
  | none =>
    h.audit req sub "no_policy" []
    h.deny start corrID ((found.map OIDCPolicyRow.mappedSigil).getD []) "no_policy" 403 "no_policy"
      (lit "no enabled policy for sub=" ++ (sub ++ (lit " on issuer=" ++ req.oidcIssuer)))
  | some row =>
    if scopesSubset req.scopes row.allowedScopes then h.mint start corrID req sub row
    else
      h.audit req sub "policy_denied" (joinSpace req.scopes)
      h.deny start corrID row.mappedSigil "policy_denied" 403 "policy_denied"
        (lit "requested scopes exceed policy: requested=" ++ (formatStrings req.scopes ++
          (lit " allowed=" ++ formatStrings row.allowedScopes)))

/-- `Handle`, on a request that was decoded. -/
def exchange (h : OIDCBootstrap) (r : Request) (start : Time) (corrID : Bytes) (req : BootstrapRequest) :
    Prog BrokerSig (Option Response) :=
  if req.oidcToken = [] ∨ req.oidcIssuer = [] ∨ req.audience = [] then
    h.deny start corrID [] "missing_required_fields" 400 "invalid_request"
      (lit "oidc_token, oidc_issuer, audience required")
  else if req.audience ≠ h.audience then
    h.deny start corrID [] "audience_mismatch" 401 "audience_mismatch" (lit "configured audience mismatch")
  else if req.scopes = [] then
    h.deny start corrID [] "no_scopes_requested" 400 "invalid_request"
      (lit "requested_scope or requested_scopes required")
  else
    match h.issuerJWKSURLs.lookup req.oidcIssuer with
    | none => h.deny start corrID [] "unknown_issuer" 401 "unknown_issuer" (lit "issuer not configured")
    | some jwksURL => do
      match ← askHost (.verifyJWT req.oidcToken jwksURL req.oidcIssuer req.audience) with
      | .ok sub => h.authorize start corrID req sub
      | .error _ =>
        h.publishFail start corrID [] "invalid_token"
        match clientIP r with
        | none => return none
        | some ip =>
          askHost (.recordFailure ip)
          return some (writeOIDCErr corrID 401 "invalid_token" (lit "token validation failed"))

/-- `Handle`: the response, or `none` if the handler panics. -/
def handle (h : OIDCBootstrap) (r : Request) : Prog BrokerSig (Option Response) := do
  let start ← askHost .timeNow
  if r.method ≠ lit "POST" then return some methodNotAllowed
  else
    let corrID ← if r.corrID = [] then askHost .newUUID else pure r.corrID
    let ts ← askHost .timeNow
    askHost (.publish (oidcSubject h.workspaceID "auth_request" corrID) (.oidc
      { ts := ts.utc.format, corrID := corrID, workspaceID := h.workspaceID, endpoint := endpoint,
        outcome := lit "pending" }))
    match decodeBootstrapRequest r.body with
    | none =>
      h.deny start corrID [] "invalid_request" 400 "invalid_request" (lit "request body could not be decoded")
    | some req => h.exchange r start corrID req

end OIDCBootstrap

/-! ## Administration -/

structure RevokeRequest where
  sigilID : Bytes
  reason : Bytes
  revokedBy : Bytes

open Json.Decode (field string object) in
def revokeFields : List (Bytes × Json.Decoder RevokeRequest) :=
  [field (lit "sigil_id") string RevokeRequest.sigilID fun r x => { r with sigilID := x },
    field (lit "reason") string RevokeRequest.reason fun r x => { r with reason := x },
    field (lit "revoked_by") string RevokeRequest.revokedBy fun r x => { r with revokedBy := x }]

def decodeRevokeRequest (body : Bytes) : Option RevokeRequest := do
  let (v, _) ← Json.parseFirst body
  Json.Decode.object false revokeFields ⟨[], [], []⟩ v

/-- `HTTPServer`. -/
structure HTTPServer where
  broker : Broker
  adminSecret : Bytes

namespace HTTPServer

/-- `requireAdminSecret`: without a configured secret nothing passes. -/
def requireAdminSecret (s : HTTPServer) (next : Request → Prog BrokerSig Response) (r : Request) :
    Prog BrokerSig Response :=
  if s.adminSecret = [] ∨ r.adminSecret ≠ s.adminSecret then return httpError [] "unauthorized" 401
  else next r

def handleAdminRevoke (s : HTTPServer) (r : Request) : Prog BrokerSig Response :=
  if r.method ≠ lit "POST" then return methodNotAllowed
  else
    match decodeRevokeRequest r.body with
    | none => return httpError [] "malformed json body" 400
    | some req =>
      if req.sigilID = [] then return httpError [] "sigil_id is required" 400
      else if req.revokedBy = [] then return httpError [] "revoked_by is required" 400
      else do
        match ← s.broker.revokeSigil req.sigilID req.reason req.revokedBy with
        | some _ => return httpError [] "internal server error" 500
        | none => return ⟨204, [], []⟩

/-- `POST /admin/revoke` as it is routed. -/
def adminRevoke (s : HTTPServer) : Request → Prog BrokerSig Response := s.requireAdminSecret s.handleAdminRevoke

end HTTPServer

end Hanko
