import Hanko.Impl.Process

/-!
# The `serve` command (`cmd/hanko-broker/serve.go`)

`runServe` up to the point where it listens: the flags, the store, the broker
and its HTTP server, and the OIDC handler if issuers are configured. The
publisher of events, the metrics, the subscription to reloads and the
replication are started beside that, and are not part of the result.
-/

namespace Hanko

open Bytes Interact

/-! ## The policy file -/

/-- A variable of type `OIDCPolicyRow` while it is filled. -/
structure PolicyVar where
  issuer : Bytes
  sub : Bytes
  mappedSigil : Bytes
  allowedScopes : Option (Json.Decode.Slice Bytes)
  maxTTLSec : Int
  enabled : Bool

def PolicyVar.zero : PolicyVar := ⟨[], [], [], none, 0, false⟩

def PolicyVar.value (v : PolicyVar) : OIDCPolicyRow :=
  ⟨v.issuer, v.sub, v.mappedSigil, v.allowedScopes.elim [] fun s => s.elems, v.maxTTLSec, v.enabled⟩

/-- A `bool`. -/
def decodeBool : Json.Decoder Bool
  | b, .null => some b
  | _, .bool b => some b
  | _, _ => none

open Json.Decode (field string int slice) in
def policyFields : List (Bytes × Json.Decoder PolicyVar) :=
  [field (lit "issuer") string PolicyVar.issuer fun v x => { v with issuer := x },
    field (lit "sub") string PolicyVar.sub fun v x => { v with sub := x },
    field (lit "mapped_sigil") string PolicyVar.mappedSigil fun v x => { v with mappedSigil := x },
    field (lit "allowed_scopes") (slice string []) PolicyVar.allowedScopes fun v x => { v with allowedScopes := x },
    field (lit "max_ttl_sec") int PolicyVar.maxTTLSec fun v x => { v with maxTTLSec := x },
    field (lit "enabled") decodeBool PolicyVar.enabled fun v x => { v with enabled := x }]

/-- `json.Unmarshal` into a `[]OIDCPolicyRow`. -/
def unmarshalPolicy (raw : Bytes) : Except GoError (List OIDCPolicyRow) :=
  match (Json.parse raw).bind (Json.Decode.slice (Json.Decode.object false policyFields) .zero none) with
  | some rows => .ok ((sliceValue rows).getD [] |>.map PolicyVar.value)
  | none => .error unmarshalError

/-! ## Issuers -/

/-- `m[k] = v`. -/
def mapSet (m : List (Bytes × Bytes)) (k v : Bytes) : List (Bytes × Bytes) := (k, v) :: m.filter fun kv => kv.1 ≠ k

namespace Cli

variable (c : Cli)

/-- One pair of `parseIssuerMap`. -/
def parseIssuerPair (out : List (Bytes × Bytes)) (part : Bytes) : Except GoError (List (Bytes × Bytes)) :=
  let pair := trimSpace part
  if pair = [] then .ok out
  else if 61 ∉ pair then
    .error (.text (lit "issuer pair " ++ (c.quoted pair ++ lit ": expected issuer=url")))
  else .ok (mapSet out (trimSpace (pair.takeWhile (· ≠ 61))) (trimSpace (pair.dropWhile (· ≠ 61)).tail))

def parseIssuerMap (raw : Bytes) : Except GoError (List (Bytes × Bytes)) := do
  let out ← (raw.splitOn 44).foldlM c.parseIssuerPair []
  if out = [] then .error (.text (lit "no valid issuer=url pairs")) else .ok out

/-! ## Starting -/

structure ServeFlags where
  addr : Bytes
  oidcPolicy : Bytes
  oidcAudit : Bytes
  oidcAudience : Bytes
  oidcIssuers : Bytes

/-- The flags of `serve`. -/
def serveFlag (flag : Bytes) : Option (Bytes → ServeFlags → Except Output ServeFlags) :=
  if flag = lit "--addr" then some fun v f => .ok { f with addr := v }
  else if flag = lit "--oidc-policy" then some fun v f => .ok { f with oidcPolicy := v }
  else if flag = lit "--oidc-audit" then some fun v f => .ok { f with oidcAudit := v }
  else if flag = lit "--oidc-audience" then some fun v f => .ok { f with oidcAudience := v }
  else if flag = lit "--oidc-issuers" then some fun v f => .ok { f with oidcIssuers := v }
  else none

/-- A server that listens. -/
structure Serving where
  addr : Bytes
  store : Backend
  priv : Bytes
  server : HTTPServer
  oidc : Option OIDCBootstrap
  oidc_broker : ∀ h ∈ oidc, h.broker = server.broker

/-- `LoadOIDCPolicy`, with the file it reads. -/
def loadPolicy (path : Bytes) : Cmd (Except GoError OIDCPolicy) :=
  if path = [] then return loadOIDCPolicy unmarshalPolicy path .notExist
  else do
    let file ← sys (.readFile path)
    return loadOIDCPolicy unmarshalPolicy path file

/-- The OIDC handler of a server whose issuers are configured. -/
def attachOIDC (b : Broker) (f : ServeFlags) (workspaceID : Bytes) :
    Cmd { h : OIDCBootstrap // h.broker = b } := do
  match c.parseIssuerMap f.oidcIssuers with
  | .error e => throw (die (lit "serve: --oidc-issuers: " ++ e.error))
  | .ok issuerMap =>
    match ← loadPolicy f.oidcPolicy with
    | .error e => throw (die (lit "serve: load policy: " ++ e.error))
    | .ok policy =>
      match hb : newOIDCBootstrap (some b) ⟨some policy, issuerMap, f.oidcAudience, f.oidcAudit, workspaceID⟩ with
      | .error e => throw (die (lit "serve: oidc bootstrap: " ++ e.error))
      | .ok oidc => return ⟨oidc, by
          simp only [newOIDCBootstrap] at hb
          split at hb <;> [cases hb; split at hb] <;> [cases hb; skip]
          exact (Except.ok.inj hb) ▸ rfl⟩

def runServe (args : List Bytes) (storeFlag : Bytes) : Cmd Serving := do
  let oidcPolicy ← sys (.getenv (lit "HANKO_OIDC_POLICY_PATH"))
  let oidcAudit ← sys (.getenv (lit "HANKO_OIDC_AUDIT_PATH"))
  let oidcAudience ← sys (.getenv (lit "HANKO_OIDC_AUDIENCE"))
  let oidcIssuers ← sys (.getenv (lit "HANKO_OIDC_ISSUERS"))
  let workspaceID ← sys (.getenv (lit "SHIKKI_WORKSPACE_ID"))
  let unknown := fun arg => Except.error (die (lit "serve: unknown flag " ++ c.quoted arg))
  let f ← ExceptT.mk (Prog.ret (parseFlags serveFlag unknown args
    ⟨lit "127.0.0.1:8788", oidcPolicy, oidcAudit, oidcAudience, oidcIssuers⟩))
  let store ← c.openStore storeFlag
  let priv ← loadBrokerKey
  let b : Broker := { c.newBroker priv with workspaceID := workspaceID, metrics := true }
  let adminSecret ← sys (.getenv (lit "HANKO_ADMIN_SECRET"))
  match hs : newHTTPServer (some b) adminSecret with
  | .error e => throw (die (lit "serve: " ++ e.error))
  | .ok server =>
    have hserver : server.broker = b := by
      simp only [newHTTPServer] at hs
      split at hs
      · cases hs
      · exact (Except.ok.inj hs) ▸ rfl
    if f.oidcIssuers = [] then return ⟨f.addr, store, priv, server, none, by simp⟩
    else
      let oidc ← c.attachOIDC b f workspaceID
      return ⟨f.addr, store, priv, server, some oidc.1, by
        rintro h ⟨⟩
        exact oidc.2.trans hserver.symm⟩

end Cli

end Hanko
