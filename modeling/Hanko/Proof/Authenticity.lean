import Hanko.Proof.Bootstrap
import Hanko.Proof.Transport

/-!
# Authenticity

The broker's key signs two kinds of messages: the signed bytes of envelopes,
which start with a brace, and the signing inputs of cap tokens, which do not
(`signedBytes_ne_signingString`). So if only what was signed is accepted, an
envelope that passes the signature check is one that was issued, up to what
its signed bytes leave out (`signedBytes_eq_iff`).

* `authenticity`: for every envelope read from JSON, in every run.
-/

namespace Hanko

open Bytes Json Interact

/-! ## Two kinds of messages -/

theorem head_signedBytes (env : AttestationEnvelope) : env.signedBytes.head? = some 123 := by
  rw [AttestationEnvelope.signedBytes, marshal, AttestationEnvelope.body, mapStr, sortKeys, mapStr,
    print_compact_obj]
  rfl

theorem rawURLEncode_head {bs : Bytes} (h : bs ≠ []) : ∃ c cs, rawURLEncode bs = c :: cs ∧ c ≠ 123 := by
  have hne : rawURLEncode bs ≠ [] := by
    match bs with
    | [] => exact absurd rfl h
    | [_] => exact List.cons_ne_nil _ _
    | [_, _] => exact List.cons_ne_nil _ _
    | _ :: _ :: _ :: _ => exact List.cons_ne_nil _ _
  obtain ⟨c, cs, hc⟩ := List.exists_cons_of_ne_nil hne
  exact ⟨c, cs, hc, rawURLEncode_ne_brace bs c (hc ▸ List.mem_cons_self)⟩

theorem marshal_ne_nil (kvs : List (Bytes × Json)) : marshal (.obj kvs) ≠ [] := by
  rw [marshal, sortKeys, mapStr, print_compact_obj]
  exact List.cons_ne_nil _ _

/-- No cap token is signed over the signed bytes of an envelope. -/
theorem signedBytes_ne_signingString (env : AttestationEnvelope) (kid : Bytes) (claims : Json) :
    env.signedBytes ≠ signingString kid claims := by
  intro h
  have hhead := head_signedBytes env
  rw [h, signingString] at hhead
  obtain ⟨c, cs, hc, hne⟩ := rawURLEncode_head (marshal_ne_nil
    [(lit "typ", .str (lit "JWT")), (lit "alg", .str (lit "EdDSA")), (lit "kid", .str kid)])
  rw [hc, List.cons_append, List.head?_cons] at hhead
  exact hne (Option.some.inj hhead)

/-! ## Who signs -/

/-- What calls other than `IssueAttestation` have signed: cap tokens. -/
def SignsTokens (b : Broker) : BrokerSig.Op → Prop
  | .inr (.sign message) => ∃ claims, message = signingString (brokerKid b) claims
  | _ => True

theorem verify_signsTokens (b : Broker) (env : AttestationEnvelope) :
    (b.verifyAttestation env).Asks (SignsTokens b) := by
  refine (b.verifyAttestation_asks env).mono fun o hQ => ?_
  match o, hQ with
  | .inl _, _ => trivial
  | .inr .timeNow, _ => trivial
  | .inr .addRevocationAllowed, _ => trivial
  | .inr .addRevocationDenied, _ => trivial

/-- What the calls that only register sigils and revocations ask. -/
def Registers : BrokerSig.Op → Prop
  | .inl (.saveSigil _) => True
  | .inl (.revoke _) => True
  | .inr .timeNow => True
  | .inr .newUUID => True
  | .inr (.publish ..) => True
  | .inr (.incSigilIssued ..) => True
  | _ => False

theorem Registers.signsTokens {b : Broker} {o : BrokerSig.Op} (h : Registers o) : SignsTokens b o := by
  rcases o with o | o
  · trivial
  · cases o with
    | sign message => exact h.elim
    | _ => trivial

theorem revokeSigil_asks (b : Broker) (sigilID reason revokedBy : Bytes) :
    (b.revokeSigil sigilID reason revokedBy).Asks Registers := by
  refine ⟨trivial, fun _ => ⟨trivial, fun saved => ?_⟩⟩
  cases saved with
  | error e => trivial
  | ok u => exact ⟨trivial, fun _ => ⟨trivial, fun _ => ⟨trivial, fun _ => trivial⟩⟩⟩

theorem revokeCap_asks (capID reason revokedBy : Bytes) :
    (Broker.revokeCap capID reason revokedBy).Asks Registers := by
  refine ⟨trivial, fun _ => ⟨trivial, fun saved => ?_⟩⟩
  cases saved <;> trivial

theorem adminRevoke_asks (s : HTTPServer) (r : Request) : (s.adminRevoke r).Asks Registers := by
  rw [HTTPServer.adminRevoke, HTTPServer.requireAdminSecret]
  split
  · trivial
  · rw [HTTPServer.handleAdminRevoke]
    split
    · trivial
    split
    · trivial
    split
    · trivial
    split
    · trivial
    · refine asks_bind (revokeSigil_asks ..) fun r => ?_
      cases r <;> trivial

theorem issueSigil_asks (b : Broker) (subject : Bytes) (pubKey : Option Bytes) (expiresAt : Option Time)
    (metadata : Option (List (Bytes × Bytes))) :
    (b.issueSigil subject pubKey expiresAt metadata).Asks Registers := by
  refine ⟨trivial, fun _ => ⟨trivial, fun _ => ⟨trivial, fun saved => ?_⟩⟩⟩
  cases saved with
  | error e => trivial
  | ok u =>
    refine ⟨trivial, fun _ => ⟨trivial, fun _ => ⟨trivial, fun _ => ?_⟩⟩⟩
    change Prog.Asks _ (if b.metrics then _ else _)
    split
    · exact ⟨trivial, fun _ => trivial⟩
    · trivial

/-- The questions of the calls other than `IssueAttestation` and
`VerifyAttestation`. -/
theorem call_questions (S : Service) {call : Call}
    (hissue : ∀ sigilID caps expiresAt, call ≠ .issueAttestation sigilID caps expiresAt)
    (hverify : ∀ env, call ≠ .verifyAttestation env) :
    (call.prog S).Asks fun o => Registers o ∨ S.oidc.Asked o := by
  have hregisters {α : Type} {p : Prog BrokerSig α} {f : α → Reply} (h : p.Asks Registers) :
      (f <$> p).Asks fun o => Registers o ∨ S.oidc.Asked o :=
    asks_bind (h.mono fun _ => .inl) fun _ => trivial
  have hmints {α : Type} {p : Prog BrokerSig α} {f : α → Reply} (h : p.Asks S.oidc.Asked) :
      (f <$> p).Asks fun o => Registers o ∨ S.oidc.Asked o :=
    asks_bind (h.mono fun _ => .inr) fun _ => trivial
  cases call with
  | issueSigil subject pubKey expiresAt metadata => exact hregisters (issueSigil_asks ..)
  | issueCap sigilID scope expiresAt => exact hmints ((S.oidc.issueCap_asks [] ..).mono fun _ => And.left)
  | issueAttestation sigilID caps expiresAt => exact absurd rfl (hissue sigilID caps expiresAt)
  | verifyAttestation env => exact absurd rfl (hverify env)
  | revokeSigil sigilID reason revokedBy => exact hregisters (revokeSigil_asks ..)
  | revokeCap capID reason revokedBy => exact hregisters (revokeCap_asks ..)
  | bootstrapOIDC r => exact hmints (S.oidc.handle_asked r)
  | adminRevoke r => exact hregisters (adminRevoke_asks ..)

theorem OIDCBootstrap.Question.signsTokens {h : OIDCBootstrap} {o : BrokerSig.Op} (ho : h.Question o) :
    SignsTokens h.broker o := by
  rcases o with o | o
  · trivial
  · cases o with
    | sign message => exact ho
    | _ => trivial

/-- Only `IssueAttestation` has anything but cap tokens signed. -/
theorem call_asks (S : Service) {call : Call} (h : ∀ sigilID caps expiresAt, call ≠ .issueAttestation sigilID
    caps expiresAt) : (call.prog S).Asks (SignsTokens S.broker) := by
  by_cases hverify : ∃ env, call = .verifyAttestation env
  · obtain ⟨env, rfl⟩ := hverify
    exact asks_bind (verify_signsTokens ..) fun _ => trivial
  · refine (call_questions S h fun env heq => hverify ⟨env, heq⟩).mono fun o ho => ?_
    rcases ho with ho | ho
    · exact ho.signsTokens
    · exact S.oidc_broker ▸ ho.1.signsTokens

/-- An envelope that `IssueAttestation` had signed is the one it returns. -/
theorem issueAttestation_path {S : Service} {sigilID : Bytes} {caps : Option (List CapabilityToken)}
    {expiresAt : Time} {es : List (Event BrokerSig)} {q : Prog BrokerSig Reply} {message sig : Bytes}
    (h : Path ((Call.issueAttestation sigilID caps expiresAt).prog S) es q)
    (hsign : hostEvent (.sign message) sig ∈ es) :
    ∃ t, (unsigned sigilID caps t expiresAt).Marshals ∧
      message = (unsigned sigilID caps t expiresAt).signedBytes ∧
      q = .ret (.envelope (.ok { unsigned sigilID caps t expiresAt with signature := some sig })) := by
  rw [Call.prog, issueAttestation_eq, Prog.map_eq, Prog.ask_bind] at h
  cases h with
  | nil => cases hsign
  | @cons _ _ t _ _ h =>
    have hsign := (List.mem_cons.mp hsign).resolve_left (by simp)
    dsimp only at h
    by_cases hm : (unsigned sigilID caps t expiresAt).Marshals
    · rw [signEnvelope_of_marshals hm, Prog.ask_bind] at h
      cases h with
      | nil => cases hsign
      | cons h =>
        obtain ⟨rfl, rfl⟩ := path_ret.mp h
        have heq := List.mem_singleton.mp hsign
        cases heq
        exact ⟨t, hm, rfl, rfl⟩
    · obtain ⟨e, he⟩ := signEnvelope_of_not_marshals hm
      rw [he] at h
      obtain ⟨rfl, -⟩ := path_ret.mp h
      cases hsign

/-! ## Authenticity -/

theorem unsigned_valid {sigilID : Bytes} {caps : Option (List CapabilityToken)} {issuedAt expiresAt : Time}
    (hsigil : ValidUtf8 sigilID) (hcaps : ∀ c ∈ caps.getD [], c.Valid) :
    (unsigned sigilID caps issuedAt expiresAt).Valid :=
  ⟨valid_lit _, hsigil, hcaps, valid_lit _⟩

/-- Authenticity. Let the calls of clients run concurrently, the attestations
they issue being of UTF-8 strings, and let the key accept only what was signed.
Then an envelope read from JSON that passes the signature check agrees with an
envelope that was issued; and the signing input of a cap token is never what an
envelope is checked against. -/
theorem authenticity {ι σ : Type} [DecidableEq ι] (S : Service) (H : Handler BrokerSig σ) (calls : ι → Call)
    (s s' : σ) (tr : List (ι × Event BrokerSig)) (ps' : ι → Prog BrokerSig Reply)
    (h : Run H (fun i => (calls i).prog S) s tr ps' s')
    (hutf8 : ∀ i sigilID caps expiresAt, calls i = .issueAttestation sigilID caps expiresAt →
      ValidUtf8 sigilID ∧ ∀ c ∈ caps.getD [], c.Valid)
    (hideal : ∀ message sig, S.broker.ed25519Verify message sig = true →
      ∃ i, (i, hostEvent (.sign message) sig) ∈ tr)
    (input : Bytes) (env : AttestationEnvelope) (hread : unmarshalEnvelope input = some env) :
    (S.broker.SignatureValid env → ∃ i sigilID caps expiresAt env',
      calls i = .issueAttestation sigilID caps expiresAt ∧ ps' i = .ret (.envelope (.ok env')) ∧
      env'.Agrees env) ∧
    ∀ kid claims, env.signedBytes ≠ signingString kid claims := by
  refine ⟨fun hvalid => ?_, signedBytes_ne_signingString env⟩
  obtain ⟨hmarshals, hverify⟩ := Broker.signatureValid_iff.mp hvalid
  obtain ⟨i, hsign⟩ := hideal _ _ hverify
  have hpath := h.path i
  by_cases hcall : ∀ sigilID caps expiresAt, calls i ≠ .issueAttestation sigilID caps expiresAt
  · obtain ⟨claims, hclaims⟩ := hpath.asks (call_asks S hcall) _ (mem_of.mpr hsign)
    exact absurd hclaims (signedBytes_ne_signingString env _ claims)
  · push Not at hcall
    obtain ⟨sigilID, caps, expiresAt, hcall⟩ := hcall
    simp only [hcall] at hpath
    obtain ⟨t, hm, hbytes, hq⟩ := issueAttestation_path hpath (mem_of.mpr hsign)
    refine ⟨i, sigilID, caps, expiresAt, _, hcall, hq, ?_⟩
    obtain ⟨hsigil, hcaps⟩ := hutf8 i sigilID caps expiresAt hcall
    have hagrees := (signedBytes_eq_iff hm hmarshals).mp hbytes.symm
    rw [(unsigned_valid hsigil hcaps).validated_eq, (unmarshalEnvelope_valid hread).validated_eq] at hagrees
    obtain ⟨hversion, hsigil, hcaps, hissuer, hissued, hexpires⟩ := hagrees
    exact ⟨hversion, hsigil, hcaps, hissuer, hissued, hexpires⟩

namespace Sample

/-- A broker whose key accepts one signature. -/
def sealed : Broker :=
  { broker with ed25519Verify := fun message sig => decide (message = env.signedBytes ∧ sig = env.signedBytes) }

def sealedService : Service := ⟨sealed, { oidc with broker := sealed }, ⟨sealed, lit "secret"⟩, rfl, rfl⟩

/-- The call that makes it. -/
def issueEnv : Call := .issueAttestation (uuid 1) (some [cap (uuid 2) (uuid 1) 7]) evening

theorem run_env : Run MemHandler (fun _ : Unit => issueEnv.prog sealedService) .new
    [((), hostEvent .timeNow noon), ((), hostEvent (.sign env.signedBytes) env.signedBytes)]
    (fun _ => .ret (.envelope (.ok env))) .new := by
  have hpath : Path (issueEnv.prog sealedService)
      [hostEvent .timeNow noon, hostEvent (.sign env.signedBytes) env.signedBytes] (.ret (.envelope (.ok env))) :=
    ends_map.mpr ⟨_, env_issued, rfl⟩
  have hexec : Exec MemHandler .new
      [hostEvent .timeNow noon, hostEvent (.sign env.signedBytes) env.signedBytes] .new :=
    exec_cons_iff.mpr ⟨.new, rfl, exec_cons_iff.mpr ⟨.new, rfl, .nil _⟩⟩
  have hrun : Run MemHandler (fun _ : Unit => issueEnv.prog sealedService) _ _ _ _ :=
    Run.of_path (i := ()) hpath hexec
  rwa [Function.update_eq_const_of_subsingleton] at hrun

theorem sealed_signatureValid : sealedService.broker.SignatureValid env := by
  have hsig : env.signature.getD [] = env.signedBytes := rfl
  rw [Broker.signatureValid_iff, hsig]
  exact ⟨env_marshals, by simp only [sealedService, sealed, and_self, decide_true]⟩

end Sample

theorem authenticity_sample : ∃ text, unmarshalEnvelope text = some Sample.env ∧
    Sample.sealedService.broker.SignatureValid Sample.env ∧
    (∃ env' : AttestationEnvelope, env'.Agrees Sample.env) ∧
    ∀ kid claims, Sample.env.signedBytes ≠ signingString kid claims := by
  obtain ⟨text, -, hread⟩ := unmarshalEnvelope_indent Sample.env_marshals
  rw [Sample.env_transported] at hread
  obtain ⟨hissued, hne⟩ := authenticity Sample.sealedService MemHandler (fun _ => Sample.issueEnv) _ _ _ _
    Sample.run_env
    (fun _ sigilID caps expiresAt heq => by
      cases heq
      exact ⟨Sample.env_valid.sigilID, Sample.env_valid.caps⟩)
    (fun message sig h => by
      obtain ⟨rfl, rfl⟩ := of_decide_eq_true h
      exact ⟨(), .tail _ (.head _)⟩) _ _ hread
  obtain ⟨_, _, _, _, env', -, -, hagrees⟩ := hissued Sample.sealed_signatureValid
  exact ⟨_, hread, Sample.sealed_signatureValid, ⟨env', hagrees⟩, hne⟩

end Hanko
