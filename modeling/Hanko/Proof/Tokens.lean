import Hanko.Impl.Http
import Hanko.Proof.Wire
import Hanko.Spec.RelyingParty

/-!
# What a response says

The answer to a granted request is read by the client: the token, the expiry and the
scopes from the body, and from the token the claims of the cap (`Conveys`).

* `payload_token`: the claims of a token that was minted;
* `unmarshal_responseBody`: the members of a body;
* `conveys_responseBody`: a body conveys the cap, if the expiry has a text; otherwise
  nothing was written (`responseBody_of_not_marshals`);
* `decodeBootstrapRequest_scopes`: the scopes of a request are UTF-8, so they are read
  as they were asked for.
-/

namespace Hanko

open Bytes Json Json.Decode

namespace RelyingParty

/-! ## Parts of a token -/

theorem decode_rawURLEncode (bs : Bytes) : decode (rawURLEncode bs) = some bs := by
  rw [decode, rawURLDecode_rawURLEncode]
  rfl

/-- What is decoded is written in the alphabet of base64url. -/
theorem notMem_of_decode {part bs : Bytes} (h : decode part = some bs) {b : UInt8} (hb : url.value b = none)
    (h₁ : b ≠ 10) (h₂ : b ≠ 13) : b ∉ part := by
  intro hmem
  have hfind : ∃ i, part.findIdx? (fun c => url.value c = none ∧ c ≠ 10 ∧ c ≠ 13) = some i := by
    rw [← Option.isSome_iff_exists, List.findIdx?_isSome]
    exact List.any_eq_true.mpr ⟨b, hmem, decide_eq_true ⟨hb, h₁, h₂⟩⟩
  obtain ⟨i, hi⟩ := hfind
  rw [decode, rawURLDecode, hi] at h
  cases h

theorem rawURLEncode_ascii (bs : Bytes) : ∀ c ∈ rawURLEncode bs, c < 128 := by
  have hdigit : ∀ n < 64, url.digit n < 128 := by decide
  intro c hc
  rcases mem_encode64 hc with ⟨n, i, rfl⟩ | hc
  · exact hdigit _ (Nat.mod_lt _ (by decide))
  · cases hc

theorem valid_rawURLEncode (bs : Bytes) : ValidUtf8 (rawURLEncode bs) := valid_of_ascii (rawURLEncode_ascii bs)

theorem dot_notMem_rawURLEncode (bs : Bytes) : 46 ∉ rawURLEncode bs :=
  notMem_of_decode (decode_rawURLEncode bs) (by decide) (by decide) (by decide)

/-- The parts of a token. -/
theorem splitOn_token (kid : Bytes) (claims : Json) (sig : Bytes) :
    (signingString kid claims ++ 46 :: rawURLEncode sig).splitOn 46 =
      [rawURLEncode (marshal (.obj [(lit "typ", .str (lit "JWT")), (lit "alg", .str (lit "EdDSA")),
        (lit "kid", .str kid)])), rawURLEncode (marshal claims), rawURLEncode sig] := by
  refine Eq.trans (congrArg _ ?_) (List.splitOn_intercalate 46 (List.forall_mem_cons.mpr ⟨dot_notMem_rawURLEncode _,
    List.forall_mem_cons.mpr ⟨dot_notMem_rawURLEncode _, List.forall_mem_singleton.mpr (dot_notMem_rawURLEncode _)⟩⟩)
    (List.cons_ne_nil _ _))
  simp only [signingString, List.intercalate, List.intersperse, List.flatten_cons, List.flatten_nil, List.append_nil,
    List.append_assoc, List.cons_append, List.nil_append]

theorem valid_token (kid : Bytes) (claims : Json) (sig : Bytes) :
    ValidUtf8 (signingString kid claims ++ 46 :: rawURLEncode sig) := by
  refine valid_of_ascii ?_
  simp only [signingString, List.forall_mem_append, List.forall_mem_cons]
  have hdot : (46 : UInt8) < 128 := by decide
  exact ⟨⟨rawURLEncode_ascii _, hdot, rawURLEncode_ascii _⟩, hdot, rawURLEncode_ascii _⟩

/-! ## Claims -/

/-- The text of an object is read as it was written, its strings made valid. -/
theorem unmarshal_marshal {v : Json} (h : Proper (mapStr toValid (sortKeys v))) (hd : depth v ≤ maxNestingDepth) :
    unmarshalAny (marshal v) = some (mapStr toValid (sortKeys v)) :=
  unmarshalAny_print compact_ok h ((depth_sortKeys v).trans_le hd)

/-- The claims of a minted token, as they are read. -/
theorem claims_marshal (sub scope jti : Bytes) (now exp : Int) :
    ((decode (rawURLEncode (marshal (capClaims sub scope jti now exp)))).bind unmarshalAny).bind claims =
      some ⟨issuerName, toValid sub, toValid scope, toValid jti, now, now, exp⟩ := by
  have hnum : ∀ x : Int, Time.appendInt x 0 = intText x := Time.appendInt_zero
  have hsorted : mapStr toValid (sortKeys (capClaims sub scope jti now exp)) =
      .obj [(lit "exp", .num (intText exp)), (lit "iat", .num (intText now)), (lit "iss", .str issuerName),
        (lit "jti", .str (toValid jti)), (lit "nbf", .num (intText now)), (lit "scope", .str (toValid scope)),
        (lit "sub", .str (toValid sub))] := by
    simp only [capClaims, hnum]
    change mapStr toValid (.obj [(lit "exp", .num (intText exp)), (lit "iat", .num (intText now)),
      (lit "iss", .str issuerName), (lit "jti", .str jti), (lit "nbf", .num (intText now)), (lit "scope", .str scope),
      (lit "sub", .str sub)]) = _
    simp only [mapStr, mapMembers, toValid_lit, issuerName]
  have hproper : Proper (mapStr toValid (sortKeys (capClaims sub scope jti now exp))) := by
    rw [hsorted]
    have hkeys : ([lit "exp", lit "iat", lit "iss", lit "jti", lit "nbf", lit "scope",
        lit "sub"] : List Bytes).Nodup := by
      decide
    exact ⟨hkeys, valid_lit _, isNum_intText _, valid_lit _, isNum_intText _, valid_lit _, valid_lit _, valid_lit _,
      valid_toValid _, valid_lit _, isNum_intText _, valid_lit _, valid_toValid _, valid_lit _,
      valid_toValid _, trivial⟩
  rw [decode_rawURLEncode, Option.bind_some, unmarshal_marshal hproper (by decide : 1 ≤ maxNestingDepth), hsorted,
    Option.bind_some]
  have hread : claims (.obj [(lit "exp", .num (intText exp)), (lit "iat", .num (intText now)),
        (lit "iss", .str issuerName), (lit "jti", .str (toValid jti)), (lit "nbf", .num (intText now)),
        (lit "scope", .str (toValid scope)), (lit "sub", .str (toValid sub))]) =
      (readInt (intText now)).bind fun iat => (readInt (intText now)).bind fun nbf =>
        (readInt (intText exp)).bind fun exp =>
          some ⟨issuerName, toValid sub, toValid scope, toValid jti, iat, nbf, exp⟩ :=
    rfl
  rw [hread, readInt_intText, readInt_intText]
  rfl

/-- The claims of a token that was minted. -/
theorem payload_token (kid sub scope jti sig : Bytes) (now exp : Int) :
    payload (signingString kid (capClaims sub scope jti now exp) ++ 46 :: rawURLEncode sig) =
      some ⟨issuerName, toValid sub, toValid scope, toValid jti, now, now, exp⟩ := by
  rw [payload, splitOn_token]
  exact claims_marshal sub scope jti now exp

/-! ## Responses -/

/-- The members of a body. -/
theorem unmarshal_responseBody {token scope sigil : Bytes} {expiresAt : Time} (h : expiresAt.Marshals)
    (htoken : ValidUtf8 token) :
    unmarshalAny (OIDCBootstrap.responseBody token expiresAt scope sigil) =
      some (.obj [(lit "cap_token", .str token), (lit "expires_at", .str expiresAt.format),
        (lit "granted_scope", .str (toValid scope)), (lit "granted_sigil", .str (toValid sigil))]) := by
  have hvalid : mapStr toValid (.obj [(lit "cap_token", .str token), (lit "expires_at", .str expiresAt.format),
      (lit "granted_scope", .str scope), (lit "granted_sigil", .str sigil)]) =
      .obj [(lit "cap_token", .str token), (lit "expires_at", .str expiresAt.format),
        (lit "granted_scope", .str (toValid scope)), (lit "granted_sigil", .str (toValid sigil))] := by
    simp only [mapStr, mapMembers, toValid_lit, toValid_of_valid htoken, toValid_format h]
  have hkeys : ([lit "cap_token", lit "expires_at", lit "granted_scope", lit "granted_sigil"] : List Bytes).Nodup := by
    decide
  have hproper : Proper (mapStr toValid (.obj [(lit "cap_token", .str token), (lit "expires_at", .str expiresAt.format),
      (lit "granted_scope", .str scope), (lit "granted_sigil", .str sigil)])) := by
    rw [hvalid]
    exact ⟨hkeys, valid_lit _, htoken, valid_lit _, valid_of_isPlain (Time.isPlain_format h), valid_lit _,
      valid_toValid _, valid_lit _, valid_toValid _, trivial⟩
  rw [OIDCBootstrap.responseBody, Time.marshalJSON_eq_ok.mpr ⟨h, rfl⟩]
  dsimp only
  rw [encodeJson, unmarshalAny, parse_print_append compact_ok (wf_quote _ hproper)
    ((depth_mapStr _ _).trans_le (by decide : 1 ≤ maxNestingDepth))
    (List.forall_mem_singleton.mpr rfl), Option.map_some, toAny_quote _ hproper, hvalid]

end RelyingParty

theorem OIDCBootstrap.responseBody_of_not_marshals (token scope sigil : Bytes) {expiresAt : Time}
    (h : ¬ expiresAt.Marshals) : responseBody token expiresAt scope sigil = [] := by
  rw [responseBody]
  split
  · next heq => exact absurd (Time.marshalJSON_eq_ok.mp heq).1 h
  · rfl

/-- What the body of a response says of the cap for which its token was signed at the
time `now`: `expires_at` is the expiry of the cap, `granted_scope` its scope and
`granted_sigil` its sigil; and the claims of `cap_token` are those of the cap, the times
in whole seconds. Bytes of an id that are no UTF-8 are replaced in JSON. -/
structure Conveys (c : CapabilityToken) (now : Time) (body : Bytes) : Prop where
  receipt : ∃ token, RelyingParty.receipt body = some ⟨token, c.expiresAt.format, c.scope, toValid c.sigilID⟩ ∧
    RelyingParty.payload token =
      some ⟨issuerName, toValid c.sigilID, c.scope, toValid c.id, now.sec, now.sec, c.expiresAt.sec⟩
  /-- The seconds of a zone offset are not in the text. -/
  expires : Time.parse c.expiresAt.format = some c.expiresAt.truncated
  expires_whole : 60 ∣ c.expiresAt.offset → Time.parse c.expiresAt.format = some c.expiresAt

theorem conveys_responseBody {c : CapabilityToken} {now : Time} (h : c.expiresAt.Marshals) (hscope : ValidUtf8 c.scope)
    (kid sig : Bytes) :
    Conveys c now (OIDCBootstrap.responseBody
      (signingString kid (capClaims c.sigilID c.scope c.id now.sec c.expiresAt.sec) ++ 46 :: rawURLEncode sig)
      c.expiresAt c.scope c.sigilID) := by
  have hpayload := RelyingParty.payload_token kid c.sigilID c.scope c.id sig now.sec c.expiresAt.sec
  rw [toValid_of_valid hscope] at hpayload
  refine ⟨⟨_, ?_, hpayload⟩, Time.parse_format h, fun hoffset => ?_⟩
  · rw [RelyingParty.receipt, RelyingParty.unmarshal_responseBody h (RelyingParty.valid_token _ _ _),
      toValid_of_valid hscope]
    rfl
  · rw [Time.parse_format h, Time.truncated_of_dvd hoffset]

/-! ## Scopes -/

/-- The scopes of a request are UTF-8. -/
structure BootstrapRequest.ScopesValid (req : BootstrapRequest) : Prop where
  requestedScope : ValidUtf8 req.requestedScope
  requestedScopes : SliceAll ValidUtf8 req.requestedScopes

theorem bootstrapFields_keep : ∀ f ∈ bootstrapFields, Keeps BootstrapRequest.ScopesValid f.2 := by
  have hany : ∀ {β : Type} (d : Decoder β), Keeps (fun _ => True) d := fun _ _ _ _ _ _ => trivial
  simp only [bootstrapFields, List.forall_mem_cons, List.not_mem_nil, false_imp_iff, implies_true, and_true]
  exact ⟨field_keeps (hany _) (fun _ _ => trivial) fun _ _ h _ => ⟨h.requestedScope, h.requestedScopes⟩,
    field_keeps (hany _) (fun _ _ => trivial) fun _ _ h _ => ⟨h.requestedScope, h.requestedScopes⟩,
    field_keeps (hany _) (fun _ _ => trivial) fun _ _ h _ => ⟨h.requestedScope, h.requestedScopes⟩,
    field_keeps string_keeps (fun _ h => h.requestedScope) fun _ _ h hx => ⟨hx, h.requestedScopes⟩,
    field_keeps (slice_keeps string_keeps valid_nil) (fun _ h => h.requestedScopes) fun _ _ h hx =>
      ⟨h.requestedScope, hx⟩,
    field_keeps (hany _) (fun _ _ => trivial) fun _ _ h _ => ⟨h.requestedScope, h.requestedScopes⟩⟩

theorem decodeBootstrapRequest_scopes {body : Bytes} {req : BootstrapRequest}
    (h : decodeBootstrapRequest body = some req) : ∀ scope ∈ req.scopes, ValidUtf8 scope := by
  obtain ⟨v, -, hv⟩ := Option.bind_eq_some_iff.mp h
  have hvalid : req.ScopesValid :=
    object_keeps bootstrapFields_keep _ _ _ ⟨valid_nil, by rintro _ ⟨⟩⟩ hv
  intro scope hscope
  rcases List.mem_append.mp hscope with hscope | hscope
  · cases hslice : req.requestedScopes with
    | none =>
      rw [hslice] at hscope
      cases hscope
    | some scopes =>
      rw [hslice] at hscope
      exact (hvalid.requestedScopes scopes hslice).1 scope hscope
  · split at hscope
    · rw [List.mem_singleton.mp hscope]
      exact hvalid.requestedScope
    · cases hscope

theorem valid_joinSpace {parts : List Bytes} (h : ∀ part ∈ parts, ValidUtf8 part) : ValidUtf8 (joinSpace parts) := by
  have hspace : ValidUtf8 [32] := valid_lit " "
  induction parts with
  | nil => exact valid_nil
  | cons part parts ih =>
    obtain ⟨hpart, hparts⟩ := List.forall_mem_cons.mp h
    cases parts with
    | nil => simpa [joinSpace] using hpart
    | cons next parts =>
      rw [joinSpace, List.intercalate_cons_cons]
      exact valid_append (valid_append hpart hspace) (ih hparts)

end Hanko
