import Hanko.Impl.Http

/-!
# Keys of the identity providers (`broker/oidc.go`)

The cache of the key sets of identity providers. `keyByKid` is a program over
the clock and the HTTP client (`IdpOp`); it holds `c.mu` to its end, so calls
run one after the other. A dereference of a nil entry is the result `none`.

The cache takes the time from `time.Now`, of which the monotonic reading counts.
-/

namespace Hanko

open Bytes Interact

/-! ## Keys -/

structure RSAPublicKey where
  n : Nat
  e : Int
deriving DecidableEq

structure IdpJWKSKey where
  kty : Bytes
  kid : Bytes
  alg : Bytes
  use : Bytes
  n : Bytes
  e : Bytes
deriving DecidableEq

/-- `new(big.Int).SetBytes(bs)`. -/
def setBytes (bs : Bytes) : Nat := bs.foldl (fun n b => 256 * n + b.toNat) 0

/-- The loop over the bytes of an exponent, in an `int`. -/
def exponent (bs : Bytes) : BitVec 64 := bs.foldl (fun e b => (e <<< 8) ||| b.toBitVec.setWidth 64) 0

/-- `base64.CorruptInputError`. -/
def corruptInput (offset : Nat) : GoError :=
  .text (lit "illegal base64 data at input byte " ++ Time.appendInt offset 0)

def rsaFromJWK (k : IdpJWKSKey) : Except GoError RSAPublicKey :=
  match rawURLDecode k.n with
  | .error i => .error ((corruptInput i).wrap "oidc: rsa n")
  | .ok nBytes =>
    match rawURLDecode k.e with
    | .error i => .error ((corruptInput i).wrap "oidc: rsa e")
    | .ok eBytes => .ok ⟨setBytes nBytes, (exponent eBytes).toInt⟩

/-! ## Documents -/

structure IdpJWKS where
  keys : Option (Json.Decode.Slice IdpJWKSKey)

/-- The keys that a `range` over `doc.Keys` goes through. -/
def IdpJWKS.list (doc : IdpJWKS) : List IdpJWKSKey := doc.keys.elim [] fun s => s.elems

open Json.Decode (field string) in
def jwksKeyFields : List (Bytes × Json.Decoder IdpJWKSKey) :=
  [field (lit "kty") string IdpJWKSKey.kty fun k x => { k with kty := x },
    field (lit "kid") string IdpJWKSKey.kid fun k x => { k with kid := x },
    field (lit "alg") string IdpJWKSKey.alg fun k x => { k with alg := x },
    field (lit "use") string IdpJWKSKey.use fun k x => { k with use := x },
    field (lit "n") string IdpJWKSKey.n fun k x => { k with n := x },
    field (lit "e") string IdpJWKSKey.e fun k x => { k with e := x }]

open Json.Decode (field slice object) in
def jwksFields : List (Bytes × Json.Decoder IdpJWKS) :=
  [field (lit "keys") (slice (object false jwksKeyFields) ⟨[], [], [], [], [], []⟩) IdpJWKS.keys
    fun doc x => { doc with keys := x }]

/-- `json.Unmarshal` into an `idpJWKS`. -/
def decodeIdpJWKS (body : Bytes) : Option IdpJWKS := do
  let v ← Json.parse body
  Json.Decode.object false jwksFields ⟨none⟩ v

/-- A response, with the bytes its body delivers and the error that ends them,
if any. -/
structure HTTPResponse where
  statusCode : Int
  body : Bytes
  readErr : Option GoError

/-- `io.ReadAll(io.LimitReader(resp.Body, limit))`. -/
def HTTPResponse.readAll (resp : HTTPResponse) (limit : Nat) : Except GoError Bytes :=
  match resp.readErr with
  | some err => if resp.body.length < limit then .error err else .ok (resp.body.take limit)
  | none => .ok (resp.body.take limit)

/-- What `fetch` makes of the answer to its request. -/
def fetchResult : Except GoError HTTPResponse → Except GoError IdpJWKS
  | .error err => .error err
  | .ok resp =>
    if resp.statusCode ≠ 200 then .error (.text (lit "status " ++ Time.appendInt resp.statusCode 0))
    else
      match resp.readAll 1048576 with
      | .error err => .error err
      | .ok body =>
        match decodeIdpJWKS body with
        | some doc => .ok doc
        | none => .error (unmarshalError.wrap "parse")

/-! ## The cache -/

/-- A monotonic reading of the clock, in nanoseconds. -/
structure Reading where
  ns : Int
  nonneg : 0 ≤ ns
  lt : ns < 2 ^ 63

/-- `t.Sub(u)` of times with a monotonic reading. -/
def Reading.sub (t u : Reading) : Duration :=
  let d := wrap64 (t.ns - u.ns)
  if d < 0 ∧ u.ns < t.ns then 2 ^ 63 - 1
  else if 0 < d ∧ t.ns < u.ns then -2 ^ 63
  else d

inductive IdpOp where
  | now
  /-- `http.NewRequestWithContext` and `c.httpc.Do`. -/
  | get (url : Bytes)

abbrev IdpOp.Ans : IdpOp → Type
  | .now => Reading
  | .get _ => Except GoError HTTPResponse

abbrev IdpSig : Sig := ⟨IdpOp, IdpOp.Ans⟩

def askIdp (o : IdpOp) : Prog IdpSig o.Ans := .call (S := IdpSig) o

@[simp] theorem askIdp_eq (o : IdpOp) : askIdp o = .ask (S := IdpSig) o .ret := rfl

structure IdpJWKSEntry where
  doc : IdpJWKS
  fetched : Reading

/-- `idpJWKSCache`. -/
structure IdpJWKSCache where
  cached : Bytes → Option IdpJWKSEntry
  ttl : Duration
  /-- `strconv.IsPrint`. -/
  isPrint : Char → Bool

def newIDPJWKSCache (ttl : Duration) (isPrint : Char → Bool) : IdpJWKSCache := ⟨fun _ => none, ttl, isPrint⟩

namespace IdpJWKSCache

def fetch (url : Bytes) : Prog IdpSig (Except GoError IdpJWKS) := do
  let resp ← askIdp (.get url)
  return fetchResult resp

/-- The first part of `keyByKid`: the entry that is searched and the cache, or
the error that is returned. -/
def refresh (c : IdpJWKSCache) (issuerJWKSURL : Bytes) (now : Reading) :
    Prog IdpSig (Except GoError (Option IdpJWKSEntry × IdpJWKSCache)) :=
  let e := c.cached issuerJWKSURL
  if e.all fun e => c.ttl < now.sub e.fetched then do
    match ← fetch issuerJWKSURL with
    | .error err =>
      match e with
      | none => return .error (.text (lit "oidc: fetch " ++ (issuerJWKSURL ++ (lit ": " ++ err.error))))
      | some e => return .ok (some e, c)
    | .ok fresh =>
      let c := { c with cached := Function.update c.cached issuerJWKSURL (some ⟨fresh, now⟩) }
      return .ok (c.cached issuerJWKSURL, c)
  else return .ok (e, c)

/-- The loop over the keys of a document. -/
def searchKeys (c : IdpJWKSCache) (issuerJWKSURL kid : Bytes) : List IdpJWKSKey → Except GoError RSAPublicKey
  | [] => .error (.text (lit "oidc: no key with kid=" ++ (kid ++ (lit " at " ++ issuerJWKSURL))))
  | k :: ks =>
    if k.kid ≠ kid then c.searchKeys issuerJWKSURL kid ks
    else if k.kty ≠ lit "RSA" then
      .error (.text (lit "oidc: unsupported kty=" ++ (strconvQuote c.isPrint k.kty ++ (lit " for kid=" ++ kid))))
    else rsaFromJWK k

def keyByKid (c : IdpJWKSCache) (issuerJWKSURL kid : Bytes) :
    Prog IdpSig (Option (Except GoError RSAPublicKey) × IdpJWKSCache) := do
  let now ← askIdp .now
  match ← c.refresh issuerJWKSURL now with
  | .error err => return (some (.error err), c)
  | .ok (none, c) => return (none, c)
  | .ok (some e, c) => return (some (c.searchKeys issuerJWKSURL kid e.doc.list), c)

end IdpJWKSCache

end Hanko
