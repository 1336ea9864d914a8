import Hanko.Proof.Issue
import Hanko.Proof.Verdict
import Hanko.Proof.Wire

/-!
# Issue, transport, verify

An envelope that was issued is printed by the command line as indented JSON,
and verified after it has been read from that text. Its signed bytes are those
that were signed unless a time in it is in a zone that is off from UTC by less
than a minute: such a time is printed with the offset `+00:00` or `-00:00`, and
read it is a time of UTC, which is printed with a `Z`.
-/

namespace Hanko

open Bytes Json Interact

theorem canonicalJSON_envelopeBody {env : AttestationEnvelope} (h : env.Marshals) :
    (envelopeBody env >>= canonicalJSON) = .ok env.signedBytes := by
  have hbind : ∀ v, (Except.ok v >>= canonicalJSON) = canonicalJSON v := fun _ => rfl
  rw [envelopeBody_eq h, hbind, canonicalJSON_body]

theorem Time.stable_utc (t : Time) : t.utc.Stable := .inl rfl

/-- The times of an issued envelope that its caller chose. -/
theorem stable_unsigned_iff (sigilID : Bytes) (caps : Option (List CapabilityToken)) (issuedAt expiresAt : Time) :
    (unsigned sigilID caps issuedAt expiresAt).Stable ↔ expiresAt.Stable ∧ ∀ c ∈ caps.getD [], c.Stable := by
  constructor
  · rintro ⟨hcaps, -, hexpires⟩
    exact ⟨hexpires, hcaps⟩
  · rintro ⟨hexpires, hcaps⟩
    exact ⟨hcaps, issuedAt.stable_utc, hexpires⟩

theorem Broker.signatureValid_transported {b : Broker} {env : AttestationEnvelope} (h : b.SignatureValid env)
    (hstable : env.Stable) : b.SignatureValid env.transported := by
  obtain ⟨hm, hverify⟩ := signatureValid_iff.mp h
  rw [signatureValid_iff, (signedBytes_transported_iff hm).mpr hstable]
  exact ⟨AttestationEnvelope.transported_marshals hm, hverify⟩

/-- What the command line prints for an envelope, and reads back. -/
theorem unmarshalEnvelope_indent {env : AttestationEnvelope} (h : env.Marshals) :
    ∃ text, env.marshal indent = .ok text ∧ unmarshalEnvelope (text ++ [10]) = some env.transported :=
  ⟨_, env.marshal_eq h indent, unmarshalEnvelope_print indent_ok h (List.forall_mem_singleton.mpr rfl)⟩

/-- Let the key accept its own signatures. An issued envelope, printed and read
back, has the signed bytes it was signed with iff no time its caller chose is
off from UTC by less than a minute. It then passes the signature check, and a
verification accepts it if nothing in it is revoked, expired or replayed. -/
theorem issued_transported_verifies (S : Service) (sigilID : Bytes) (caps : Option (List CapabilityToken))
    (expiresAt : Time) (es : List (Event BrokerSig)) (env : AttestationEnvelope)
    (h : (Broker.issueAttestation sigilID caps expiresAt).Ends es (.ok env))
    (hsig : ∀ message sig, hostEvent (.sign message) sig ∈ es → S.broker.ed25519Verify message sig = true) :
    ∃ text env', env.marshal indent = .ok text ∧ unmarshalEnvelope (text ++ [10]) = some env' ∧
      ((envelopeBody env' >>= canonicalJSON) = (envelopeBody env >>= canonicalJSON) ↔
        expiresAt.Stable ∧ ∀ c ∈ caps.getD [], c.Stable) ∧
      (expiresAt.Stable ∧ (∀ c ∈ caps.getD [], c.Stable) → S.broker.SignatureValid env' ∧
        ∀ m w, m.isRevoked env'.sigilID = false → (∀ c ∈ env'.capList, m.isRevoked c.id = false) →
          env'.nonces.Nodup → (∀ c ∈ env'.capList, m.nonceUsed c.nonce = false) →
          (∀ k, (w.clock k).after env'.expiresAt = false ∧
            ∀ c ∈ env'.capList, (w.clock k).after c.expiresAt = false) →
          (runMem ((Call.verifyAttestation env').prog S) m w).1 = .err none) := by
  obtain ⟨t, sig, hm, rfl, rfl⟩ := issueAttestation_ends.mp h
  have hm' : AttestationEnvelope.Marshals { unsigned sigilID caps t expiresAt with signature := some sig } := hm
  obtain ⟨text, htext, hread⟩ := unmarshalEnvelope_indent hm'
  refine ⟨text, _, htext, hread, ?_, fun hstable => ?_⟩
  · rw [canonicalJSON_envelopeBody hm', canonicalJSON_envelopeBody (AttestationEnvelope.transported_marshals hm'),
      Except.ok.injEq, signedBytes_transported_iff hm']
    exact stable_unsigned_iff sigilID caps t expiresAt
  · have hvalid := Broker.signatureValid_iff.mpr ⟨hm', hsig _ sig (.tail _ (.head _))⟩
    have hvalid' :=
      Broker.signatureValid_transported hvalid ((stable_unsigned_iff sigilID caps t expiresAt).mpr hstable)
    exact ⟨hvalid', fun m w => runMem_accepts hvalid'⟩

namespace Sample

theorem env_marshals : env.Marshals := by decide

theorem uuid_one : uuid 1 = lit "00000000-0000-0000-0000-000000000001" := by decide

theorem uuid_two : uuid 2 = lit "00000000-0000-0000-0000-000000000002" := by decide

theorem env_valid : env.Valid := by
  have hroot : ValidUtf8 (uuid 1) := uuid_one ▸ valid_lit _
  have hcap : (cap (uuid 2) (uuid 1) 7).Valid := ⟨uuid_two ▸ valid_lit _, hroot, valid_lit _⟩
  refine ⟨valid_lit _, hroot, fun c hc => ?_, valid_lit _⟩
  obtain rfl := List.mem_singleton.mp hc
  exact hcap

/-- Nothing is lost of an envelope whose times are in UTC. -/
theorem env_transported : env.transported = env := by
  have htimes : env.transported = env.validated := rfl
  rw [htimes, env_valid.validated_eq]

theorem env_issued : (Broker.issueAttestation (uuid 1) (some [cap (uuid 2) (uuid 1) 7]) evening).Ends
    [hostEvent .timeNow noon, hostEvent (.sign env.signedBytes) env.signedBytes] (.ok env) :=
  issueAttestation_ends.mpr ⟨noon, env.signedBytes, by decide, rfl, rfl⟩

theorem accepts_signed (t : Time) (m message sig : Bytes)
    (h : hostEvent (.sign message) sig ∈ [hostEvent .timeNow t, hostEvent (.sign m) m]) :
    service.broker.ed25519Verify message sig = true := by
  rcases List.mem_cons.mp h with h | h
  · cases h
  · cases List.mem_singleton.mp h
    exact decide_eq_true rfl

/-- An envelope whose expiry is in a zone half a minute off from UTC. -/
def skewed : AttestationEnvelope :=
  let env := unsigned (uuid 1) none noon ⟨64800, 0, 30⟩
  { env with signature := some env.signedBytes }

theorem skewed_marshals : skewed.Marshals := by decide

theorem issue_skewed :
    (runMem ((Call.issueAttestation (uuid 1) none ⟨64800, 0, 30⟩).prog service) .new (host 0)).1 =
      .envelope (.ok skewed) := by
  have hm : (unsigned (uuid 1) none ((host 0).clock 0) ⟨64800, 0, 30⟩).Marshals := skewed_marshals
  rw [runMem_issueAttestation hm]
  rfl

theorem skewed_lost : skewed.transported.signedBytes ≠ skewed.signedBytes := by
  rw [Ne, signedBytes_transported_iff skewed_marshals]
  exact fun hstable => absurd hstable.2.2 (by decide)

end Sample

theorem issued_transported_verifies_sample :
    ∃ text, Sample.env.marshal indent = .ok text ∧ unmarshalEnvelope (text ++ [10]) = some Sample.env ∧
      (runMem ((Call.verifyAttestation Sample.env).prog Sample.service) .new (Sample.host 0)).1 = .err none := by
  obtain ⟨text, env', htext, hread, -, haccept⟩ := issued_transported_verifies Sample.service _ _ _ _ _
    Sample.env_issued (Sample.accepts_signed _ _)
  obtain ⟨text', htext', hread'⟩ := unmarshalEnvelope_indent Sample.env_marshals
  cases htext.symm.trans htext'
  cases hread.symm.trans (hread'.trans (congrArg some Sample.env_transported))
  have hclock : Sample.noon.after Sample.env.expiresAt = false ∧
      ∀ c ∈ Sample.env.capList, Sample.noon.after c.expiresAt = false := by decide
  exact ⟨text, htext, hread, (haccept (by decide)).2 .new _ rfl (fun _ _ => rfl) (by decide) (fun _ _ => rfl)
    fun _ => hclock⟩

/-- An expiry half a minute off from UTC: read back, the envelope has lost its
signature, though the key accepts all its signatures. -/
theorem issued_expiry_lost : ∃ env text env',
    (∀ message, Sample.service.broker.ed25519Verify message ((Sample.host 0).sign message) = true) ∧
    (runMem ((Call.issueAttestation (Sample.uuid 1) none ⟨64800, 0, 30⟩).prog Sample.service) .new
      (Sample.host 0)).1 = .envelope (.ok env) ∧
    env.marshal indent = .ok text ∧ unmarshalEnvelope (text ++ [10]) = some env' ∧
    (envelopeBody env' >>= canonicalJSON) ≠ (envelopeBody env >>= canonicalJSON) ∧
    ¬ Sample.service.broker.SignatureValid env' := by
  obtain ⟨text, htext, hread⟩ := unmarshalEnvelope_indent Sample.skewed_marshals
  refine ⟨Sample.skewed, text, _, fun message => decide_eq_true rfl, Sample.issue_skewed, htext, hread, ?_,
    fun hvalid => ?_⟩
  · rw [canonicalJSON_envelopeBody Sample.skewed_marshals,
      canonicalJSON_envelopeBody (AttestationEnvelope.transported_marshals Sample.skewed_marshals)]
    exact fun heq => Sample.skewed_lost (Except.ok.inj heq)
  · have hverify : Sample.skewed.signedBytes = Sample.skewed.transported.signedBytes :=
      of_decide_eq_true (Broker.signatureValid_iff.mp hvalid).2
    exact Sample.skewed_lost hverify.symm

end Hanko
