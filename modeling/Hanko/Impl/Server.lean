import Hanko.Impl.System

/-!
# The HTTP server (`broker/http.go`)

The handler tree of the broker: liveness, the key set, revocation and the
exchange of OIDC tokens, behind the request multiplexer of `net/http`.
-/

namespace Hanko

open Bytes Interact

/-! ## The multiplexer

`http.ServeMux`, for patterns that are paths: no methods, hosts, wildcards or
trailing slashes. -/

/-- A request as it arrives. -/
structure Inbound extends Request where
  requestURI : Bytes
  /-- `r.URL.EscapedPath()`. -/
  escapedPath : Bytes
  /-- `r.ProtoAtLeast(1, 1)`. -/
  http11 : Bool

/-- A path element, after those on the stack. -/
def cleanElement (stack : List Bytes) (seg : Bytes) : List Bytes :=
  if seg = [] ∨ seg = lit "." then stack else if seg = lit ".." then stack.tail else seg :: stack

/-- `path.Clean` of a path that starts with a slash. -/
def pathClean (p : Bytes) : Bytes :=
  47 :: [47].intercalate ((p.splitOn 47).foldl cleanElement []).reverse

/-- `cleanPath`: a final slash is kept. -/
def cleanPath (p : Bytes) : Bytes :=
  let p := if p.head? = some 47 then p else 47 :: p
  let np := pathClean p
  if p.getLast? = some 47 ∧ np ≠ [47] then np ++ [47] else np

/-- `url.PathUnescape`; `none` is an invalid escape. -/
def unescapePath : Bytes → Option Bytes
  | [] => some []
  | b :: bs =>
    if b = 37 then
      match bs with
      | h :: l :: bs => do
        let h ← hexValue h
        let l ← hexValue l
        return UInt8.ofNat (16 * h + l) :: (← unescapePath bs)
      | _ => none
    else (unescapePath bs).map (b :: ·)

/-- `pathUnescape`. -/
def pathUnescape (p : Bytes) : Bytes := (unescapePath p).getD p

/-- `firstSegment`. -/
def firstSegment (path : Bytes) : Bytes × Bytes :=
  if path = [47] then ([47], [])
  else
    let path := path.drop 1
    (pathUnescape (path.takeWhile (· ≠ 47)), path.dropWhile (· ≠ 47))

/-- The segments of a path, at most `n`. -/
def segmentsUpTo : Nat → Bytes → List Bytes
  | 0, _ => []
  | _ + 1, [] => []
  | n + 1, b :: bs => (firstSegment (b :: bs)).1 :: segmentsUpTo n (firstSegment (b :: bs)).2

/-- The segments that are matched against a pattern. -/
def segments (path : Bytes) : List Bytes := segmentsUpTo path.length path

/-- What becomes of a request. -/
inductive Served where
  /-- The response of a handler, or `none` if it panics. -/
  | response (r : Option Response)
  /-- A redirect to a path. -/
  | redirect (path : Bytes)

/-- A request was answered with a status. -/
def Served.Status (status : Nat) : Served → Prop
  | .response r => r.map Response.status = some status
  | .redirect _ => False

/-- Patterns and their handlers. -/
abbrev ServeMux := List (Bytes × (Request → Prog BrokerSig (Option Response)))

namespace ServeMux

/-- The handler of a path. -/
def match? (mux : ServeMux) (path : Bytes) : Option (Request → Prog BrokerSig (Option Response)) :=
  (mux.find? fun route => segments route.1 = segments path).map Prod.snd

/-- `http.NotFoundHandler`. -/
def notFound : Response := httpError [] "404 page not found" 404

/-- `ServeHTTP`. The path of a `CONNECT` request is taken as it is. -/
def serveHTTP (mux : ServeMux) (r : Inbound) : Prog BrokerSig Served :=
  if r.requestURI = lit "*" then
    return .response (some ⟨400, if r.http11 then [(lit "Connection", lit "close")] else [], []⟩)
  else if r.method ≠ lit "CONNECT" ∧ cleanPath r.escapedPath ≠ r.escapedPath then
    return .redirect (cleanPath r.escapedPath)
  else
    match mux.match? r.escapedPath with
    | none => return .response (some notFound)
    | some handler => Served.response <$> handler r.toRequest

end ServeMux

/-! ## The handlers -/

/-- `jwksDocument`. -/
def jwksDocument (b : Broker) : Bytes :=
  let kid := brokerKid b
  Json.print Json.compact 0 (Json.mapStr Json.quote (.obj [(lit "keys", .arr [.obj
    ([(lit "kty", .str (lit "OKP")), (lit "crv", .str (lit "Ed25519")), (lit "alg", .str (lit "EdDSA"))] ++
      (if kid = [] then [] else [(lit "kid", .str kid)]) ++
      [(lit "x", .str (rawURLEncode b.signerPub)), (lit "use", .str (lit "sig"))])])]))

/-- `NewHTTPServer`, with the value of `HANKO_ADMIN_SECRET`. -/
def newHTTPServer (b : Option Broker) (adminSecret : Bytes) : Except GoError HTTPServer :=
  match b with
  | none => .error (.text (lit "hanko: NewHTTPServer: broker must not be nil"))
  | some b =>
    if b.signerPub.length ≠ 32 then
      .error (.text (lit "hanko: NewHTTPServer: broker signer public key is " ++
        (Time.appendInt b.signerPub.length 0 ++ lit " bytes; expected 32")))
    else .ok ⟨b, adminSecret⟩

namespace HTTPServer

/-- A handler that only answers `GET`. -/
def onGet (r : Request) (resp : Response) : Response :=
  if r.method ≠ lit "GET" then httpError [(lit "Allow", lit "GET")] "method not allowed" 405 else resp

def handleHealthz (r : Request) : Response :=
  onGet r ⟨200, [(lit "Content-Type", lit "text/plain; charset=utf-8")], lit "ok\n"⟩

def handleJWKS (s : HTTPServer) (r : Request) : Response :=
  onGet r ⟨200, [(lit "Content-Type", lit "application/jwk-set+json; charset=utf-8"),
    (lit "Cache-Control", lit "public, max-age=3600"), (lit "X-Hanko-Kid", brokerKid s.broker)],
    jwksDocument s.broker⟩

/-- The handler tree, with the handler of `AttachOIDC`. -/
def mux (s : HTTPServer) (oidc : OIDCBootstrap) : ServeMux :=
  [(lit "/healthz", fun r => return some (handleHealthz r)),
    (lit "/api/v1/jwks", fun r => return some (s.handleJWKS r)),
    (lit "/.well-known/jwks.json", fun r => return some (s.handleJWKS r)),
    (lit "/admin/revoke", fun r => some <$> s.adminRevoke r),
    (lit "/api/v1/sigils/bootstrap-oidc", oidc.handle)]

end HTTPServer

/-- The HTTP surface of a service. -/
def Service.serve (S : Service) (r : Inbound) : Prog BrokerSig Served :=
  (S.server.mux S.oidc).serveHTTP r

end Hanko
