import Hanko.Proof.Runs

/-!
# What issuing asks

The executions of `IssueAttestation`: it reads the clock and has the signed
bytes of the envelope signed, if the envelope has JSON at all.
-/

namespace Hanko

open Bytes Interact

/-- An envelope before it is signed. -/
def unsigned (sigilID : Bytes) (caps : Option (List CapabilityToken)) (issuedAt expiresAt : Time) :
    AttestationEnvelope :=
  ⟨version, sigilID, caps, issuerName, issuedAt.utc, expiresAt, none⟩

/-- `IssueAttestation` after the clock has been read. -/
def signEnvelope (env : AttestationEnvelope) : Prog BrokerSig (Except GoError AttestationEnvelope) :=
  match envelopeBody env with
  | .error e => return .error (e.wrap "broker.IssueAttestation")
  | .ok body => do
    match ← Broker.sign body with
    | .error e => return .error (e.wrap "broker.IssueAttestation")
    | .ok sig => return .ok { env with signature := some sig }

theorem issueAttestation_eq (sigilID : Bytes) (caps : Option (List CapabilityToken)) (expiresAt : Time) :
    Broker.issueAttestation sigilID caps expiresAt =
      .ask (S := BrokerSig) (.inr .timeNow) fun t => signEnvelope (unsigned sigilID caps t expiresAt) :=
  rfl

theorem signEnvelope_of_marshals {env : AttestationEnvelope} (h : env.Marshals) :
    signEnvelope env = .ask (S := BrokerSig) (.inr (.sign env.signedBytes)) fun sig =>
      .ret (.ok { env with signature := some sig }) := by
  rw [signEnvelope, envelopeBody_eq h]
  simp only [Broker.sign, canonicalJSON_body]
  rfl

theorem signEnvelope_of_not_marshals {env : AttestationEnvelope} (h : ¬ env.Marshals) :
    ∃ e, signEnvelope env = .ret (.error e) := by
  rw [signEnvelope]
  cases hbody : envelopeBody env with
  | error e => exact ⟨_, rfl⟩
  | ok body => exact absurd (envelopeBody_eq_ok.mp hbody).1 h

/-- An attestation that was issued. -/
theorem issueAttestation_ends {sigilID : Bytes} {caps : Option (List CapabilityToken)} {expiresAt : Time}
    {es : List (Event BrokerSig)} {env : AttestationEnvelope} :
    (Broker.issueAttestation sigilID caps expiresAt).Ends es (.ok env) ↔
      ∃ t sig, (unsigned sigilID caps t expiresAt).Marshals ∧
        es = [hostEvent .timeNow t, hostEvent (.sign (unsigned sigilID caps t expiresAt).signedBytes) sig] ∧
        env = { unsigned sigilID caps t expiresAt with signature := some sig } := by
  rw [issueAttestation_eq, ends_ask]
  constructor
  · rintro ⟨t, es₁, rfl, h⟩
    by_cases hm : (unsigned sigilID caps t expiresAt).Marshals
    · rw [signEnvelope_of_marshals hm, ends_ask] at h
      obtain ⟨sig, es₂, rfl, h⟩ := h
      obtain ⟨rfl, henv⟩ := ends_ret.mp h
      exact ⟨t, sig, hm, rfl, Except.ok.inj henv⟩
    · obtain ⟨e, he⟩ := signEnvelope_of_not_marshals hm
      rw [he] at h
      cases (ends_ret.mp h).2
  · rintro ⟨t, sig, hm, rfl, rfl⟩
    refine ⟨t, _, rfl, ?_⟩
    rw [signEnvelope_of_marshals hm, ends_ask]
    exact ⟨sig, [], rfl, ends_ret.mpr ⟨rfl, rfl⟩⟩

/-- An attestation issued by a call that runs alone. -/
theorem runMem_issueAttestation {S : Service} {sigilID : Bytes} {caps : Option (List CapabilityToken)}
    {expiresAt : Time} {m : MemStore} {w : Host} (h : (unsigned sigilID caps (w.clock 0) expiresAt).Marshals) :
    runMem ((Call.issueAttestation sigilID caps expiresAt).prog S) m w =
      (.envelope (.ok { unsigned sigilID caps (w.clock 0) expiresAt with
        signature := some (w.sign (unsigned sigilID caps (w.clock 0) expiresAt).signedBytes) }),
        (m, { w with clock := fun n => w.clock (n + 1) })) := by
  have hsign := signEnvelope_of_marshals h
  rw [Call.prog, issueAttestation_eq, Prog.map_eq, runMem, Prog.ask_bind, Prog.exec_ask]
  change Prog.exec _ ((signEnvelope (unsigned sigilID caps (w.clock 0) expiresAt)).bind _) _ = _
  rw [hsign]
  rfl

theorem runMem_map {α β : Type} (f : α → β) (p : Prog BrokerSig α) (m : MemStore) (w : Host) :
    runMem (f <$> p) m w = (f (runMem p m w).1, (runMem p m w).2) :=
  Prog.exec_bind ..

/-- A sequence of calls, by its first one. -/
theorem runMem_all_cons {p : Prog BrokerSig Reply} {ps : List (Prog BrokerSig Reply)} {m m' : MemStore}
    {w w' : Host} {r : Reply} {rs : List Reply} (h : runMem p m w = (r, (m', w')))
    (hs : (runMem (.all ps) m' w').1 = rs) : (runMem (.all (p :: ps)) m w).1 = r :: rs := by
  simp only [runMem, Prog.exec_all_cons] at h hs ⊢
  rw [h, hs]

theorem runMem_all_last {p : Prog BrokerSig Reply} {m : MemStore} {w : Host} {r : Reply}
    (h : (runMem p m w).1 = r) : (runMem (.all [p]) m w).1 = [r] := by
  rw [runMem, Prog.exec_all_cons, ← h]
  rfl

end Hanko
