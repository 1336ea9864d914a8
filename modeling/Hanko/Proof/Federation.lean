import Hanko.Framework.Fallible
import Hanko.Framework.Separators
import Hanko.Impl.Server
import Hanko.Proof.Authenticity
import Hanko.Proof.Handled
import Hanko.Spec.RelyingParty

/-!
# Tokens and relying parties

A relying party knows the broker by the key set it publishes.

* `minted_token_verifies`: it accepts the token of every request that was answered
  with 200, until the cap expires, and reads the cap's claims from it;
* `accepted_token_granted`: it accepts no other tokens. If the key accepts only what
  was signed, behind every token that is accepted there is a request whose provider's
  token was validated, to which the policy granted every scope, and a cap that was
  saved.

What the handler has done when it has a token signed, and when it responds, is
said once (`OIDCBootstrap.handle_obeys`), as a property of its history.
-/

namespace Hanko

open Bytes Json Interact

/-! ## What a relying party accepts -/

namespace RelyingParty

theorem verify_eq_some {ed25519Verify : Bytes → Bytes → Bytes → Bool} {jwks token : Bytes} {now : Int} {c : Claims} :
    verify ed25519Verify jwks token now = some c ↔ ∃ header payload signature kid pub sig,
      token.splitOn 46 = [header, payload, signature] ∧ keyID header = some kid ∧ key jwks kid = some pub ∧
      decode signature = some sig ∧ ((decode payload).bind Json.unmarshalAny).bind claims = some c ∧
      ed25519Verify pub (header ++ 46 :: payload) sig = true ∧ c.nbf ≤ now ∧ now < c.exp := by
  rw [verify]
  constructor
  · intro h
    split at h
    · next header payload signature hsplit =>
      obtain ⟨kid, hkid, h⟩ := Option.bind_eq_some_iff.mp h
      obtain ⟨pub, hpub, h⟩ := Option.bind_eq_some_iff.mp h
      obtain ⟨sig, hsig, h⟩ := Option.bind_eq_some_iff.mp h
      obtain ⟨c', hc, h⟩ := Option.bind_eq_some_iff.mp h
      split at h
      · next hok =>
        cases h
        exact ⟨header, payload, signature, kid, pub, sig, hsplit, hkid, hpub, hsig, hc, hok⟩
      · cases h
    · cases h
  · rintro ⟨header, payload, signature, kid, pub, sig, hsplit, hkid, hpub, hsig, hc, hok⟩
    simp only [hsplit, hkid, hpub, hsig, hc, Option.bind_eq_bind, Option.bind_some]
    rw [if_pos hok]

theorem keyID_marshal {kid : Bytes} (hkid : ValidUtf8 kid) :
    keyID (rawURLEncode (marshal (.obj [(lit "typ", .str (lit "JWT")), (lit "alg", .str (lit "EdDSA")),
      (lit "kid", .str kid)]))) = some kid := by
  have hsorted : mapStr toValid (sortKeys (.obj [(lit "typ", .str (lit "JWT")), (lit "alg", .str (lit "EdDSA")),
      (lit "kid", .str kid)])) =
      .obj [(lit "alg", .str (lit "EdDSA")), (lit "kid", .str kid), (lit "typ", .str (lit "JWT"))] := by
    change mapStr toValid
      (.obj [(lit "alg", .str (lit "EdDSA")), (lit "kid", .str kid), (lit "typ", .str (lit "JWT"))]) = _
    simp only [mapStr, mapMembers, toValid_lit, toValid_of_valid hkid]
  have hproper :
    Proper (.obj [(lit "alg", .str (lit "EdDSA")), (lit "kid", .str kid), (lit "typ", .str (lit "JWT"))]) :=
    ⟨(by decide : ([lit "alg", lit "kid", lit "typ"] : List Bytes).Nodup), valid_lit _, valid_lit _, valid_lit _, hkid,
      valid_lit _, valid_lit _, trivial⟩
  rw [← hsorted] at hproper
  rw [keyID, decode_rawURLEncode, Option.bind_some,
    unmarshal_marshal hproper (by decide : 1 ≤ maxNestingDepth), hsorted]
  rfl

/-! ## The key set of a broker -/

theorem rawURLEncode_ne_nil {bs : Bytes} (h : bs ≠ []) : rawURLEncode bs ≠ [] := by
  obtain ⟨c, cs, hc, -⟩ := rawURLEncode_head h
  rw [hc]
  exact List.cons_ne_nil _ _

/-- The published key, as it is read. -/
def publishedKey (b : Broker) : Json :=
  .obj [(lit "kty", .str (lit "OKP")), (lit "crv", .str (lit "Ed25519")), (lit "alg", .str (lit "EdDSA")),
    (lit "kid", .str (brokerKid b)), (lit "x", .str (rawURLEncode b.signerPub)), (lit "use", .str (lit "sig"))]

theorem unmarshal_jwksDocument {b : Broker} (hsha : b.sha256 b.signerPub ≠ []) :
    unmarshalAny (jwksDocument b) = some (.obj [(lit "keys", .arr [publishedKey b])]) := by
  have hkid : brokerKid b ≠ [] := rawURLEncode_ne_nil hsha
  have hvalid : mapStr toValid (.obj [(lit "keys", .arr [publishedKey b])]) =
    .obj [(lit "keys", .arr [publishedKey b])] := by
    simp only [mapStr, mapMembers, mapItems, publishedKey, brokerKid, toValid_lit,
      toValid_of_valid (valid_rawURLEncode _)]
  have hkeys : ([lit "kty", lit "crv", lit "alg", lit "kid", lit "x", lit "use"] : List Bytes).Nodup := by decide
  have hproper : Proper (.obj [(lit "keys", .arr [publishedKey b])]) :=
    ⟨List.nodup_singleton _, valid_lit _, ⟨⟨hkeys, valid_lit _, valid_lit _, valid_lit _, valid_lit _, valid_lit _,
      valid_lit _, valid_lit _, valid_rawURLEncode _, valid_lit _, valid_rawURLEncode _, valid_lit _, valid_lit _,
      trivial⟩, trivial⟩, trivial⟩
  rw [← hvalid] at hproper
  have hprint := unmarshalAny_print compact_ok hproper (by decide : 3 ≤ maxNestingDepth)
  rw [hvalid] at hprint
  rw [← hprint, jwksDocument]
  simp only [if_neg hkid]
  rfl

/-- The only key of the set. -/
theorem key_jwksDocument {b : Broker} (hsha : b.sha256 b.signerPub ≠ []) {kid pub : Bytes} :
    key (jwksDocument b) kid = some pub ↔ kid = brokerKid b ∧ pub = b.signerPub := by
  have harray : getArray "keys" (.obj [(lit "keys", .arr [publishedKey b])]) = [publishedKey b] := rfl
  have hid : getString "kid" (publishedKey b) = some (brokerKid b) := rfl
  have hx : getString "x" (publishedKey b) = some (rawURLEncode b.signerPub) := rfl
  have hkind : getString "kty" (publishedKey b) = some (lit "OKP") ∧
    getString "crv" (publishedKey b) = some (lit "Ed25519") :=
    ⟨rfl, rfl⟩
  rw [key, unmarshal_jwksDocument hsha, Option.bind_eq_bind, Option.bind_some, harray]
  by_cases h : kid = brokerKid b
  · rw [List.find?_cons_of_pos (by simp [hid, h])]
    simp only [Option.bind_some]
    rw [if_pos hkind, hx, Option.bind_some, decode_rawURLEncode, Option.some.injEq]
    simp [h, eq_comm]
  · rw [List.find?_cons_of_neg (by simp [hid, Ne.symm h])]
    simp [h]

/-! ## Tokens -/

/-- A token that was signed with the key of the broker is accepted. -/
theorem verify_token {b : Broker} (hsha : b.sha256 b.signerPub ≠ []) {ed25519Verify : Bytes → Bytes → Bytes → Bool}
    {sub scope jti sig : Bytes} {now exp t : Int}
    (hsig : ed25519Verify b.signerPub (signingString (brokerKid b) (capClaims sub scope jti now exp)) sig = true)
    (hnow : now ≤ t) (hexp : t < exp) :
    verify ed25519Verify (jwksDocument b)
      (signingString (brokerKid b) (capClaims sub scope jti now exp) ++ 46 :: rawURLEncode sig) t =
      some ⟨issuerName, toValid sub, toValid scope, toValid jti, now, now, exp⟩ := by
  exact verify_eq_some.mpr
    ⟨_, _, _, brokerKid b, b.signerPub, sig, splitOn_token .., keyID_marshal (valid_rawURLEncode _),
    (key_jwksDocument hsha).mpr ⟨rfl, rfl⟩, decode_rawURLEncode sig,
    claims_marshal sub scope jti now exp, hsig, hnow, hexp⟩

/-- What is accepted was signed, is not the signed bytes of an envelope, and has the
claims that were signed. -/
theorem signed_of_verify {b : Broker} (hsha : b.sha256 b.signerPub ≠ []) {ed25519Verify : Bytes → Bytes → Bytes → Bool}
    {token : Bytes} {t : Int} {c : Claims} (h : verify ed25519Verify (jwksDocument b) token t = some c) :
    ∃ message sig, ed25519Verify b.signerPub message sig = true ∧
      (∀ env : AttestationEnvelope, message ≠ env.signedBytes) ∧
      ∀ kid sub scope jti now exp, message = signingString kid (capClaims sub scope jti now exp) →
        c = ⟨issuerName, toValid sub, toValid scope, toValid jti, now, now, exp⟩ := by
  obtain ⟨header, payload, signature, kid, pub, sig, -, hkid, hpub, -, hclaims, hverify, -, -⟩ := verify_eq_some.mp h
  obtain ⟨-, rfl⟩ := (key_jwksDocument hsha).mp hpub
  refine ⟨header ++ 46 :: payload, sig, hverify, fun env heq => ?_, fun kid sub scope jti now exp heq => ?_⟩
  · -- a header starts with a letter of base64url
    obtain ⟨h, hh, -⟩ := Option.bind_eq_some_iff.mp hkid
    obtain ⟨bs, hbs, hobj⟩ := Option.bind_eq_some_iff.mp hh
    have hhead := head_signedBytes env
    rw [← heq] at hhead
    cases header with
    | nil =>
      cases hhead
    | cons d ds =>
      obtain rfl : d = 123 := Option.some.inj hhead
      exact notMem_of_decode hbs (by decide) (by decide) (by decide) List.mem_cons_self
  · obtain ⟨v, hv, -⟩ := Option.bind_eq_some_iff.mp hclaims
    obtain ⟨bs, hbs, -⟩ := Option.bind_eq_some_iff.mp hv
    have hdot : 46 ∉ payload := notMem_of_decode hbs (by decide) (by decide) (by decide)
    obtain ⟨-, rfl⟩ := Separators.append_cons_inj hdot (dot_notMem_rawURLEncode _) heq
    rw [claims_marshal] at hclaims
    exact (Option.some.inj hclaims).symm

theorem token_of_response {token scope sigil : Bytes} {expiresAt : Time} (h : expiresAt.Marshals)
    (htoken : ValidUtf8 token) :
    (unmarshalAny (OIDCBootstrap.responseBody token expiresAt scope sigil)).bind (getString "cap_token") =
      some token := by
  rw [unmarshal_responseBody h htoken]
  rfl

end RelyingParty

/-- The answer to a request for the key set. -/
theorem HTTPServer.handleJWKS_body (s : HTTPServer) {r : Request} (h : r.method = lit "GET") :
    (s.handleJWKS r).body = jwksDocument s.broker := by
  rw [handleJWKS, onGet, if_neg (not_not.mpr h)]

/-- A relying party that has fetched the published key set accepts the token of every
request that was answered with 200, from the time it was signed until the cap expires,
and reads from it the claims of the cap that was saved for the granted request. -/
theorem minted_token_verifies (S : Service) (ed25519Verify : Bytes → Bytes → Bytes → Bool) (r get : Request)
    (es : List (Event BrokerSig)) (resp : Response) (h : (S.oidc.handle r).Ends es (some resp))
    (hstatus : resp.status = 200)
    (hget : get.method = lit "GET") (hsha : S.broker.sha256 S.broker.signerPub ≠ [])
    (hsign : ∀ message sig, hostEvent (.sign message) sig ∈ es → ed25519Verify S.broker.signerPub message sig = true) :
    ∃ req sub row cap now token, S.oidc.Granted r es req sub row cap ∧ hostEvent .cfgNow now ∈ es ∧
      (cap.expiresAt.Marshals → (unmarshalAny resp.body).bind (getString "cap_token") = some token) ∧
      ∀ t, now.sec ≤ t → t < cap.expiresAt.sec →
        RelyingParty.verify ed25519Verify (S.server.handleJWKS get).body token t =
          some ⟨issuerName, toValid cap.sigilID, toValid cap.scope, toValid cap.id, now.sec, now.sec,
            cap.expiresAt.sec⟩ := by
  have hresponds := Ends.obeys h (S.oidc.handle_obeys r)
  obtain ⟨req, sub, row, cap, now, sig, corrID, hg, hnow, hevent, heq, -⟩ := hresponds.granted (congrArg some hstatus)
  rw [List.nil_append] at hg hnow hevent
  rw [OIDCBootstrap.tokenInput, S.oidc_broker] at hevent heq
  cases heq
  refine ⟨req, sub, row, cap, now, _, hg, hnow, fun hmarshals => RelyingParty.token_of_response hmarshals
    (RelyingParty.valid_token _ _ _), fun t ht ht' => ?_⟩
  rw [S.server.handleJWKS_body hget, S.server_broker]
  exact RelyingParty.verify_token hsha (hsign _ _ hevent) ht ht'

namespace Sample

def getJWKS : Request := { request with method := lit "GET" }

/-- The request of the sample, alone over a store with the sigil of the policy. -/
theorem handled : ∃ es resp s', (service.oidc.handle request).Ends es (some resp) ∧ resp.status = 200 ∧
    Exec (Handler.graph (both MemStore.step Host.step)) (store, host 0) es s' := by
  obtain ⟨hends, hexec⟩ := Prog.trace_ends (h := both MemStore.step Host.step) (service.oidc.handle request)
    (store, host 0)
  obtain ⟨-, -, w', hout⟩ := service.oidc.handle_of_issued MemStore.step (s := store) (w := host 0)
    (request_granted rfl) (c := minted) rfl
  rw [hout] at hends hexec
  exact ⟨_, _, _, hends, rfl, hexec⟩

/-- The clock stands still, and messages are their own signatures. -/
def Still (s : MemStore × Host) : Prop := (s.2.oidcClock = fun _ => noon) ∧ s.2.sign = id

theorem still_step (o : BrokerSig.Op) (s : MemStore × Host) (a : BrokerSig.Ans o) (s' : MemStore × Host)
    (hstep : Handler.graph (both MemStore.step Host.step) o s a s') (hs : Still s) : Still s' := by
  obtain rfl : (both MemStore.step Host.step o s).2 = s' := congrArg Prod.snd hstep
  rcases o with o | o
  · exact hs
  · cases o with
    | cfgNow => exact ⟨funext fun n => congrFun hs.1 (n + 1), hs.2⟩
    | verifyJWT tok jwksURL issuer audience => exact ⟨funext fun n => congrFun hs.1 (n + 1), hs.2⟩
    | _ => exact hs

theorem cfgNow_of_still {s s' : MemStore × Host} {es : List (Event BrokerSig)}
    (h : Exec (Handler.graph (both MemStore.step Host.step)) s es s') (hs : Still s) {t : Time}
    (ht : hostEvent .cfgNow t ∈ es) : t = noon := by
  refine h.forall_mem still_step hs (P := fun e => ∀ t, e = hostEvent .cfgNow t → t = noon) ?_ _ ht t rfl
  rintro e s s' hs hstep t rfl
  exact (congrArg Prod.fst hstep).symm.trans (congrFun hs.1 0)

theorem sign_of_still {s s' : MemStore × Host} {es : List (Event BrokerSig)}
    (h : Exec (Handler.graph (both MemStore.step Host.step)) s es s') (hs : Still s) {message sig : Bytes}
    (hsign : hostEvent (.sign message) sig ∈ es) : sig = message := by
  refine h.forall_mem still_step hs
    (P := fun e => ∀ message sig, e = hostEvent (.sign message) sig → sig = message) ?_ _
    hsign message sig rfl
  rintro e s s' hs hstep message sig rfl
  exact (congrArg Prod.fst hstep).symm.trans (congrFun hs.2 message)

/-- The only row of the policy. -/
theorem row_eq {issuer sub : Bytes} {row : OIDCPolicyRow} (h : oidc.policy.lookup issuer sub = some row) :
    row = policyRow := by
  simp only [OIDCPolicy.lookup, oidc, OIDCPolicy.ofRows, List.foldl_cons, List.foldl_nil, Function.update_apply] at h
  split at h
  · exact (Option.some.inj h).symm
  · cases h

end Sample

/-- A token that is accepted at the time it is minted. -/
theorem minted_token_verifies_sample : ∃ es resp token claims,
    (Sample.service.oidc.handle Sample.request).Ends es (some resp) ∧ resp.status = 200 ∧
    RelyingParty.verify (fun _ message sig => decide (sig = message))
      (Sample.service.server.handleJWKS Sample.getJWKS).body token 43200 = some claims := by
  obtain ⟨es, resp, s', hends, hstatus, hexec⟩ := Sample.handled
  have hstill : Sample.Still (Sample.store, Sample.host 0) := ⟨rfl, rfl⟩
  obtain ⟨req, sub, row, cap, now, token, hg, hnow, -, hverify⟩ := minted_token_verifies Sample.service
    (fun _ message sig => decide (sig = message)) Sample.request Sample.getJWKS es resp hends hstatus rfl (by decide)
    fun message sig h => decide_eq_true (Sample.sign_of_still hexec hstill h)
  obtain ⟨t, ht, hexpires⟩ := hg.expires
  obtain rfl := Sample.cfgNow_of_still hexec hstill hnow
  obtain rfl := Sample.cfgNow_of_still hexec hstill ht
  obtain rfl := Sample.row_eq hg.permits.policy
  obtain rfl : req = Sample.bootstrapRequest := Option.some.inj (hg.validated.decodes.symm.trans Sample.request_decodes)
  refine ⟨es, resp, token, _, hends, hstatus, hverify 43200 (by decide) ?_⟩
  rw [hexpires]
  decide

theorem Registers.quiet {o : BrokerSig.Op} (h : Registers o) : Quiet o := by
  rcases o with o | o
  · trivial
  · cases o with
    | sign message => exact h.elim
    | auditAppend line => exact h.elim
    | verifyJWT tok jwksURL issuer audience => exact h.elim
    | _ => trivial

/-- The other calls have nothing signed. -/
theorem call_quiet (S : Service) {call : Call}
    (hissue : ∀ sigilID caps expiresAt, call ≠ .issueAttestation sigilID caps expiresAt)
    (hbootstrap : ∀ r, call ≠ .bootstrapOIDC r) : (call.prog S).Asks Quiet := by
  have hregisters {α : Type} {p : Prog BrokerSig α} {f : α → Reply} (h : p.Asks Registers) : (f <$> p).Asks Quiet :=
    asks_bind (h.mono fun _ => Registers.quiet) fun _ => trivial
  cases call with
  | issueSigil subject pubKey expiresAt metadata => exact hregisters (issueSigil_asks ..)
  | issueCap sigilID scope expiresAt => exact asks_bind (Broker.issueCap_quiet ..) fun _ => trivial
  | issueAttestation sigilID caps expiresAt => exact absurd rfl (hissue sigilID caps expiresAt)
  | verifyAttestation env =>
    refine asks_bind ((S.broker.verifyAttestation_asks env).mono fun o ho => ?_) fun _ => trivial
    rcases o with o | o
    · trivial
    · cases o with
      | timeNow | addRevocationAllowed | addRevocationDenied => trivial
      | _ => exact ho.elim
  | revokeSigil sigilID reason revokedBy => exact hregisters (revokeSigil_asks ..)
  | revokeCap capID reason revokedBy => exact hregisters (revokeCap_asks ..)
  | bootstrapOIDC r => exact absurd rfl (hbootstrap r)
  | adminRevoke r => exact hregisters (adminRevoke_asks ..)

/-- Let calls of clients run concurrently, and let the key accept only what was signed
in the course of the run. Behind every token that a relying party with the published
key set accepts there is a bootstrap request that was granted: the provider's token was
validated for a subject, the enabled policy row of the subject allows all the scopes that
were asked for, and the claims are those of the cap that was saved for it. -/
theorem accepted_token_granted {ι σ : Type} [DecidableEq ι] (S : Service) (H : Handler BrokerSig σ) (calls : ι → Call)
    (s s' : σ) (tr : List (ι × Event BrokerSig)) (ps' : ι → Prog BrokerSig Reply)
    (h : Run H (fun i => (calls i).prog S) s tr ps' s') (ed25519Verify : Bytes → Bytes → Bytes → Bool)
    (hideal : ∀ message sig, ed25519Verify S.broker.signerPub message sig = true →
      ∃ i, (i, hostEvent (.sign message) sig) ∈ tr)
    (hsha : S.broker.sha256 S.broker.signerPub ≠ []) (get : Request) (hget : get.method = lit "GET") (token : Bytes)
    (t : Int) (claims : RelyingParty.Claims)
    (haccepted : RelyingParty.verify ed25519Verify (S.server.handleJWKS get).body token t = some claims) :
    ∃ i r req sub row cap now, calls i = .bootstrapOIDC r ∧ S.oidc.Granted r (of i tr) req sub row cap ∧
      hostEvent .cfgNow now ∈ of i tr ∧
      claims = ⟨issuerName, toValid cap.sigilID, toValid cap.scope, toValid cap.id, now.sec, now.sec,
        cap.expiresAt.sec⟩ := by
  rw [S.server.handleJWKS_body hget, S.server_broker] at haccepted
  obtain ⟨message, sig, hverify, hne, hclaims⟩ := RelyingParty.signed_of_verify hsha haccepted
  obtain ⟨i, hsign⟩ := hideal message sig hverify
  have hpath := h.path i
  by_cases hissue : ∃ sigilID caps expiresAt, calls i = .issueAttestation sigilID caps expiresAt
  · obtain ⟨sigilID, caps, expiresAt, hcall⟩ := hissue
    simp only [hcall] at hpath
    obtain ⟨_, -, hbytes, -⟩ := issueAttestation_path hpath (mem_of.mpr hsign)
    exact absurd hbytes (hne _)
  by_cases hbootstrap : ∃ r, calls i = .bootstrapOIDC r
  · obtain ⟨r, hcall⟩ := hbootstrap
    simp only [hcall] at hpath
    have hobeys : ((Call.bootstrapOIDC r).prog S).Obeys (S.oidc.Justified r) (fun _ _ => True) [] :=
      obeys_bind (S.oidc.handle_obeys r) fun _ _ _ => trivial
    obtain ⟨before, hsub, req, sub, row, cap, now, hg, hnow, hmessage⟩ := (hpath.obeys hobeys).2 _ (mem_of.mpr hsign)
    exact ⟨i, r, req, sub, row, cap, now, hcall, hg.mono hsub, hsub hnow, hclaims _ _ _ _ _ _ hmessage⟩
  · have hquiet := call_quiet S (fun sigilID caps expiresAt heq => hissue ⟨sigilID, caps, expiresAt, heq⟩)
      fun r heq => hbootstrap ⟨r, heq⟩
    exact (hpath.asks hquiet _ (mem_of.mpr hsign)).elim

open Classical in
/-- The token of the request that was granted, with a key that accepts nothing but it. -/
theorem accepted_token_granted_sample : ∃ tr ps' m' ed25519Verify token claims,
    Run MemHandler (fun _ : Unit => (Call.bootstrapOIDC Sample.request).prog Sample.service) Sample.store tr ps' m' ∧
    RelyingParty.verify ed25519Verify (Sample.service.server.handleJWKS Sample.getJWKS).body token 43200 = some claims ∧
    ∃ req sub row cap, Sample.service.oidc.Granted Sample.request (of () tr) req sub row cap := by
  obtain ⟨es, resp, s', hends, hstatus, hexec⟩ := Sample.handled
  have hstill : Sample.Still (Sample.store, Sample.host 0) := ⟨rfl, rfl⟩
  obtain ⟨req, sub, row, cap, now, sig, corrID, hg, hnow, hsign, -, -⟩ :=
    (Ends.obeys hends (Sample.service.oidc.handle_obeys Sample.request)).granted (congrArg some hstatus)
  rw [List.nil_append] at hg hnow hsign
  obtain ⟨t, ht, hexpires⟩ := hg.expires
  obtain rfl := Sample.cfgNow_of_still hexec hstill hnow
  obtain rfl := Sample.cfgNow_of_still hexec hstill ht
  obtain rfl := Sample.row_eq hg.permits.policy
  obtain rfl : req = Sample.bootstrapRequest := Option.some.inj (hg.validated.decodes.symm.trans Sample.request_decodes)
  have hrun : Run MemHandler
    (fun _ : Unit => (Call.bootstrapOIDC Sample.request).prog Sample.service) Sample.store _ _ _ :=
    Run.of_path (i := ()) (ends_map.mpr ⟨_, hends, rfl⟩) (hexec.refine runMem_refines)
  have hverify : RelyingParty.verify (fun _ message sig => decide (hostEvent (.sign message) sig ∈ es))
      (Sample.service.server.handleJWKS Sample.getJWKS).body _ 43200 = _ :=
    RelyingParty.verify_token (b := Sample.broker) (by decide) (decide_eq_true hsign) (by decide)
      (by rw [hexpires]; decide)
  obtain ⟨i, r, req, sub, row, cap, -, hcall, hgranted, -⟩ := accepted_token_granted Sample.service MemHandler
    (fun _ : Unit => .bootstrapOIDC Sample.request) _ _ _ _ hrun _
    (fun message sig h => ⟨(), List.mem_map_of_mem (of_decide_eq_true h)⟩)
    (by decide) Sample.getJWKS rfl _ 43200 _ hverify
  cases hcall
  exact ⟨_, _, _, _, _, _, hrun, hverify, req, sub, row, cap, hgranted⟩

end Hanko
