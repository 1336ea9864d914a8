import Hanko.Impl.IdpKeys

/-!
# Tokens of the identity providers (`verifyJWT` in `broker/oidc.go`)

`verifyJWT` gives a token to the parser of golang-jwt, with a function that looks up
its key in the cache. The library is a parameter (`JwtLib`); what is assumed of
`ParseWithClaims` is what its documentation says (`JwtLib.Documented`).
-/

namespace Hanko

open Bytes Interact

/-- `jwt.RegisteredClaims`, as far as they are looked at. -/
structure RegisteredClaims where
  issuer : Bytes
  subject : Bytes
  audience : List Bytes
  expiresAt : Option Time
  notBefore : Option Time

/-- `jwt.Token`, as it is given to a key function. -/
structure JwtToken where
  alg : Bytes
  /-- `t.Header["kid"].(string)`: empty if there is none. -/
  kid : Bytes
  claims : RegisteredClaims

/-- The clock of the configuration. -/
abbrev ClockSig : Sig := ⟨Unit, fun _ => Time⟩

abbrev JwtSig : Sig := IdpSig.sum ClockSig

/-- A reading of the clock. -/
def clockRead (now : Time) : Event JwtSig := ⟨.inr (), now⟩

/-- The options of a parser: `WithValidMethods`, `WithIssuer` and `WithAudience`.
`WithTimeFunc` is the clock. -/
structure ParserOptions where
  validMethods : List Bytes
  issuer : Bytes
  audience : Bytes

/-- A function that looks up the key of a token with the cache. The result `none` is a panic. -/
abbrev Keyfunc := JwtToken → IdpJWKSCache → Prog JwtSig (Option (Except GoError RSAPublicKey) × IdpJWKSCache)

/-- What `verifyJWT` uses of golang-jwt. -/
structure JwtLib where
  /-- `Parser.ParseWithClaims`: the claims or an error, and the cache. -/
  parseWithClaims : ParserOptions → Bytes → Keyfunc → IdpJWKSCache →
    Prog JwtSig (Option (Except GoError RegisteredClaims) × IdpJWKSCache)
  /-- The token in a text. -/
  token : Bytes → Option JwtToken
  /-- The signature in a text is valid under a key, by the signing method of its token. -/
  Signed : Bytes → RSAPublicKey → Prop

namespace JwtLib

/-- A text that a parser with the options accepts, with a key and at a time. -/
structure Valid (lib : JwtLib) (opts : ParserOptions) (tok : Bytes) (t : JwtToken) (key : RSAPublicKey) (now : Time) :
    Prop where
  parsed : lib.token tok = some t
  method : t.alg ∈ opts.validMethods
  signed : lib.Signed tok key
  issuer : opts.issuer ≠ [] → t.claims.issuer = opts.issuer
  audience : opts.audience ≠ [] → opts.audience ∈ t.claims.audience
  unexpired : ∀ exp ∈ t.claims.expiresAt, now.before exp = true
  started : ∀ nbf ∈ t.claims.notBefore, now.before nbf = false

/-- What the documentation of `ParseWithClaims` promises. -/
structure Documented (lib : JwtLib) : Prop where
  /-- The key function is called once with the token of the text, or not at all. -/
  calls : ∀ opts tok keyfunc c es a c', (lib.parseWithClaims opts tok keyfunc c).Ends es (a, c') →
    c' = c ∨ ∃ t es' res, lib.token tok = some t ∧ (keyfunc t c).Ends es' (res, c') ∧ es' ⊆ es
  /-- Claims are returned only if the text is valid with the key that the function found, at the
  time of the clock. -/
  accepts : ∀ opts tok keyfunc c es claims c',
    (lib.parseWithClaims opts tok keyfunc c).Ends es (some (.ok claims), c') →
    ∃ t es' key now, (keyfunc t c).Ends es' (some (.ok key), c') ∧ es' ⊆ es ∧ clockRead now ∈ es ∧
      lib.Valid opts tok t key now ∧ claims = t.claims

/-- The function that is given to the parser. -/
def keyfunc (jwksURL : Bytes) : Keyfunc := fun t c =>
  if t.kid = [] then return (some (.error (.text (lit "missing kid"))), c)
  else (c.keyByKid jwksURL t.kid).inl ClockSig

/-- The options of the parser. -/
def parserOptions (expectIssuer expectAudience : Bytes) : ParserOptions :=
  ⟨[lit "RS256", lit "RS384", lit "RS512"], expectIssuer, expectAudience⟩

/-- The claims of the token or an error, and the cache; `none` is a panic. -/
def verifyJWT (lib : JwtLib) (c : IdpJWKSCache) (tok jwksURL expectIssuer expectAudience : Bytes) :
    Prog JwtSig (Option (Except GoError RegisteredClaims) × IdpJWKSCache) :=
  lib.parseWithClaims (parserOptions expectIssuer expectAudience) tok (keyfunc jwksURL) c

end JwtLib

/-- The cache of a running broker, and what has been asked over the network and of the
clock for it. -/
structure Providers where
  cache : IdpJWKSCache
  net : List (Event JwtSig)

/-- Tokens are validated with the cache; `keyByKid` holds the lock of the cache to its
end, so a validation is one step for the others. Whatever else the calls ask may be
answered with anything. -/
def ProviderHandler (lib : JwtLib) : Handler BrokerSig Providers
  | .inr (.verifyJWT tok jwksURL issuer audience), s, a, s' =>
    ∃ es res, (lib.verifyJWT s.cache tok jwksURL issuer audience).Ends es (some res, s'.cache) ∧
      a = res.map RegisteredClaims.subject ∧ s'.net = s.net ++ es
  | _, s, _, s' => s' = s

end Hanko
