import Hanko.Impl.System
import Hanko.Proof.Envelope
import Hanko.Spec.Ledger

/-!
# What a verification asks

The executions of `VerifyAttestation`: the questions it asks of the store, in
order, with the answers that lead to each verdict. The loop over the caps is
taken apart once (`verifyCaps_cons_ends`); what a verdict says about the
store's answers follows by induction on the caps.

* `signatureValid_iff`: when the signature check passes;
* `verifyAttestation_asks`: the questions a verification can ask at all;
* `verifyAttestation_accepts`: what an acceptance says of the store's answers;
* `verifySigned_verdict`: the verdict where nothing is revoked or expired.
-/

namespace Hanko

open Bytes Interact

/-- An operation of the store, and its answer. -/
abbrev storeEvent (o : StoreOp) (a : o.Ans) : Event BrokerSig := ⟨.inl o, a⟩

/-- A question to the surroundings, and its answer. -/
abbrev hostEvent (o : HostOp) (a : o.Ans) : Event BrokerSig := ⟨.inr o, a⟩

/-- An event of the store that satisfies `P`. -/
def OnStore (P : Event StoreSig → Prop) : Event BrokerSig → Prop
  | ⟨.inl o, a⟩ => P ⟨o, a⟩
  | ⟨.inr _, _⟩ => False

/-- The nonces of the caps of an envelope, in order. -/
def AttestationEnvelope.nonces (env : AttestationEnvelope) : List Bytes :=
  env.capList.map fun c => nonceBytes c.nonce

/-- The event by which a caller becomes the first user of the nonce `n`. -/
def wins (n : Bytes) : Event BrokerSig → Bool
  | ⟨.inl (.tryRecordNonce m), first⟩ => first && decide (nonceBytes m = n)
  | _ => false

theorem wins_iff {n : Bytes} {e : Event BrokerSig} :
    wins n e = true ↔ ∃ m, nonceBytes m = n ∧ e = storeEvent (.tryRecordNonce m) true := by
  constructor
  · intro h
    obtain ⟨o | o, a⟩ := e
    · cases o with
      | tryRecordNonce m =>
        obtain ⟨rfl, rfl⟩ : a = true ∧ nonceBytes m = n := by simpa [wins] using h
        exact ⟨m, rfl, rfl⟩
      | _ => cases h
    · cases h
  · rintro ⟨m, rfl, rfl⟩
    simp [wins]

/-- The event by which a caller tries to use the nonce `n`. -/
def tries (n : Bytes) : Event BrokerSig → Bool
  | ⟨.inl (.tryRecordNonce m), _⟩ => decide (nonceBytes m = n)
  | _ => false

namespace Broker

/-- The signature check of `VerifyAttestation` passes. -/
def SignatureValid (b : Broker) (env : AttestationEnvelope) : Prop :=
  ∃ body, envelopeBody env = .ok body ∧ b.verify body env.signature = .ok ()

/-- The check passes if the envelope has JSON and the signature is one of its
signed bytes. -/
theorem signatureValid_iff {b : Broker} {env : AttestationEnvelope} :
    b.SignatureValid env ↔
      env.Marshals ∧ b.ed25519Verify env.signedBytes (env.signature.getD []) = true := by
  simp only [SignatureValid, envelopeBody_eq_ok]
  constructor
  · rintro ⟨_, ⟨hm, rfl⟩, hv⟩
    refine ⟨hm, ?_⟩
    rw [verify, canonicalJSON_body] at hv
    by_contra hsig
    simp [hsig] at hv
  · rintro ⟨hm, hsig⟩
    refine ⟨_, ⟨hm, rfl⟩, ?_⟩
    rw [verify, canonicalJSON_body]
    simp [hsig]

theorem verifyAttestation_of_valid {b : Broker} {env : AttestationEnvelope} (h : b.SignatureValid env) :
    b.verifyAttestation env = verifySigned env := by
  obtain ⟨body, hbody, hv⟩ := h
  simp [verifyAttestation, hbody, hv]

/-- The error of the signature check. A body that has no JSON text is reported
as such. -/
def signatureError (env : AttestationEnvelope) : GoError :=
  match envelopeBody env with
  | .error e => e.wrap "broker.VerifyAttestation"
  | .ok _ => .verify errSignatureInvalid

/-- Without a valid signature the store is not asked at all. -/
theorem verifyAttestation_of_not_valid {b : Broker} {env : AttestationEnvelope}
    (h : ¬ b.SignatureValid env) : b.verifyAttestation env = .ret (some (signatureError env)) := by
  rw [verifyAttestation, signatureError]
  cases hbody : envelopeBody env with
  | error e => rfl
  | ok body =>
    cases hv : b.verify body env.signature with
    | error e => simp [hv]
    | ok _ => exact absurd ⟨body, hbody, hv⟩ h

theorem verifyCaps_nil_ends {es : List (Event BrokerSig)} {r : Option GoError} :
    (verifyCaps []).Ends es r ↔ es = [hostEvent .addRevocationAllowed ()] ∧ r = none := by
  simp only [verifyCaps, askHost_eq, Prog.bind_eq, Prog.ask_bind, Prog.ret_bind, Prog.pure_eq, ends_ask,
    ends_ret]
  constructor
  · rintro ⟨⟨⟩, _, rfl, rfl, rfl⟩; exact ⟨rfl, rfl⟩
  · rintro ⟨rfl, rfl⟩; exact ⟨(), [], rfl, rfl, rfl⟩

/-- One turn of the loop: the cap is revoked, expired or replayed, or its nonce
is consumed and the loop goes on. -/
theorem verifyCaps_cons_ends {c : CapabilityToken} {cs : List CapabilityToken}
    {es : List (Event BrokerSig)} {r : Option GoError} :
    (verifyCaps (c :: cs)).Ends es r ↔
      (es = [storeEvent (.isRevoked c.id) true, hostEvent .addRevocationDenied ()] ∧
        r = some (.verify errCapRevoked)) ∨
      (∃ t, es = [storeEvent (.isRevoked c.id) false, hostEvent .timeNow t] ∧
        t.after c.expiresAt = true ∧ r = some (.verify errCapExpired)) ∨
      (∃ t, es = [storeEvent (.isRevoked c.id) false, hostEvent .timeNow t,
          storeEvent (.tryRecordNonce c.nonce) false] ∧
        t.after c.expiresAt = false ∧ r = some (.verify errReplayAttack)) ∨
      ∃ t es', es = storeEvent (.isRevoked c.id) false :: hostEvent .timeNow t ::
          storeEvent (.tryRecordNonce c.nonce) true :: es' ∧
        t.after c.expiresAt = false ∧ (verifyCaps cs).Ends es' r := by
  simp only [verifyCaps, askStore_eq, askHost_eq, Prog.bind_eq, Prog.ask_bind, Prog.ret_bind,
    Prog.pure_eq, ends_ask]
  constructor
  · rintro ⟨revoked, es₁, rfl, h⟩
    cases revoked with
    | true =>
      obtain ⟨⟨⟩, _, rfl, h₁⟩ := ends_ask.mp h
      obtain ⟨rfl, rfl⟩ := ends_ret.mp h₁
      exact .inl ⟨rfl, rfl⟩
    | false =>
      obtain ⟨t, es₂, rfl, h₁⟩ := ends_ask.mp h
      cases ht : Time.after t c.expiresAt with
      | true =>
        rw [if_pos ht] at h₁
        obtain ⟨rfl, rfl⟩ := ends_ret.mp h₁
        exact .inr (.inl ⟨t, rfl, ht, rfl⟩)
      | false =>
        rw [if_neg (by simp [ht])] at h₁
        obtain ⟨first, es₃, rfl, h₂⟩ := ends_ask.mp h₁
        cases first with
        | true => exact .inr (.inr (.inr ⟨t, es₃, rfl, ht, h₂⟩))
        | false =>
          obtain ⟨rfl, rfl⟩ := ends_ret.mp h₂
          exact .inr (.inr (.inl ⟨t, rfl, ht, rfl⟩))
  · rintro (⟨rfl, rfl⟩ | ⟨t, rfl, ht, rfl⟩ | ⟨t, rfl, ht, rfl⟩ | ⟨t, es', rfl, ht, h⟩)
    · exact ⟨true, _, rfl, ends_ask.mpr ⟨(), [], rfl, ends_ret.mpr ⟨rfl, rfl⟩⟩⟩
    · refine ⟨false, _, rfl, ends_ask.mpr ⟨t, [], rfl, ?_⟩⟩
      rw [if_pos ht]; exact ends_ret.mpr ⟨rfl, rfl⟩
    · refine ⟨false, _, rfl, ends_ask.mpr ⟨t, _, rfl, ?_⟩⟩
      rw [if_neg (by simp [ht])]
      exact ends_ask.mpr ⟨false, [], rfl, ends_ret.mpr ⟨rfl, rfl⟩⟩
    · refine ⟨false, _, rfl, ends_ask.mpr ⟨t, _, rfl, ?_⟩⟩
      rw [if_neg (by simp [ht])]
      exact ends_ask.mpr ⟨true, es', rfl, h⟩

/-- The steps of a verification before the loop. -/
theorem verifySigned_ends {env : AttestationEnvelope} {es : List (Event BrokerSig)} {r : Option GoError} :
    (verifySigned env).Ends es r ↔
      (es = [storeEvent (.isRevoked env.sigilID) true, hostEvent .addRevocationDenied ()] ∧
        r = some (.verify errSigilRevoked)) ∨
      (∃ t, es = [storeEvent (.isRevoked env.sigilID) false, hostEvent .timeNow t] ∧
        t.after env.expiresAt = true ∧ r = some (.verify errCapExpired)) ∨
      ∃ t es', es = storeEvent (.isRevoked env.sigilID) false :: hostEvent .timeNow t :: es' ∧
        t.after env.expiresAt = false ∧ (verifyCaps env.capList).Ends es' r := by
  simp only [verifySigned, askStore_eq, askHost_eq, Prog.bind_eq, Prog.ask_bind, Prog.ret_bind,
    Prog.pure_eq, ends_ask]
  constructor
  · rintro ⟨revoked, es₁, rfl, h⟩
    cases revoked with
    | true =>
      obtain ⟨⟨⟩, _, rfl, h₁⟩ := ends_ask.mp h
      obtain ⟨rfl, rfl⟩ := ends_ret.mp h₁
      exact .inl ⟨rfl, rfl⟩
    | false =>
      obtain ⟨t, es₂, rfl, h₁⟩ := ends_ask.mp h
      cases ht : Time.after t env.expiresAt with
      | true =>
        rw [if_pos ht] at h₁
        obtain ⟨rfl, rfl⟩ := ends_ret.mp h₁
        exact .inr (.inl ⟨t, rfl, ht, rfl⟩)
      | false =>
        rw [if_neg (by simp [ht])] at h₁
        exact .inr (.inr ⟨t, es₂, rfl, ht, h₁⟩)
  · rintro (⟨rfl, rfl⟩ | ⟨t, rfl, ht, rfl⟩ | ⟨t, es', rfl, ht, h⟩)
    · exact ⟨true, _, rfl, ends_ask.mpr ⟨(), [], rfl, ends_ret.mpr ⟨rfl, rfl⟩⟩⟩
    · refine ⟨false, _, rfl, ends_ask.mpr ⟨t, [], rfl, ?_⟩⟩
      rw [if_pos ht]; exact ends_ret.mpr ⟨rfl, rfl⟩
    · refine ⟨false, _, rfl, ends_ask.mpr ⟨t, _, rfl, ?_⟩⟩
      rw [if_neg (by simp [ht])]; exact h

/-! ## The questions of a verification -/

/-- What the verification of `caps` may ask: whether ids are revoked, the time,
and for the nonces of the caps. -/
def Checks (caps : List CapabilityToken) : BrokerSig.Op → Prop
  | .inl (.isRevoked _) => True
  | .inl (.tryRecordNonce n) => ∃ c ∈ caps, n = c.nonce
  | .inl _ => False
  | .inr .timeNow => True
  | .inr .addRevocationAllowed => True
  | .inr .addRevocationDenied => True
  | .inr _ => False

theorem Checks.cons {c : CapabilityToken} {cs : List CapabilityToken} :
    ∀ {o : BrokerSig.Op}, Checks cs o → Checks (c :: cs) o
  | .inl (.tryRecordNonce _), ⟨c', hc', heq⟩ => ⟨c', List.mem_cons_of_mem c hc', heq⟩
  | .inl (.isRevoked _), _ => trivial
  | .inr .timeNow, _ => trivial
  | .inr .addRevocationAllowed, _ => trivial
  | .inr .addRevocationDenied, _ => trivial

theorem verifyCaps_asks (cs : List CapabilityToken) : (verifyCaps cs).Asks (Checks cs) := by
  induction cs with
  | nil => exact ⟨trivial, fun _ => trivial⟩
  | cons c cs ih =>
    simp only [verifyCaps, askStore_eq, askHost_eq, Prog.bind_eq, Prog.ask_bind, Prog.ret_bind, asks_ask]
    refine ⟨trivial, fun revoked => ?_⟩
    split
    · exact ⟨trivial, fun _ => trivial⟩
    · refine ⟨trivial, fun now => ?_⟩
      dsimp only
      split
      · trivial
      · refine ⟨⟨c, List.mem_cons_self, rfl⟩, fun first => ?_⟩
        dsimp only
        split
        · exact ih.mono fun _ => Checks.cons
        · trivial

theorem verifySigned_asks (env : AttestationEnvelope) : (verifySigned env).Asks (Checks env.capList) := by
  simp only [verifySigned, askStore_eq, askHost_eq, Prog.bind_eq, Prog.ask_bind, Prog.ret_bind, asks_ask]
  refine ⟨trivial, fun revoked => ?_⟩
  split
  · exact ⟨trivial, fun _ => trivial⟩
  · refine ⟨trivial, fun now => ?_⟩
    dsimp only
    split
    · trivial
    · exact verifyCaps_asks _

theorem verifyAttestation_asks (b : Broker) (env : AttestationEnvelope) :
    (b.verifyAttestation env).Asks (Checks env.capList) := by
  by_cases hv : b.SignatureValid env
  · rw [verifyAttestation_of_valid hv]
    exact verifySigned_asks env
  · rw [verifyAttestation_of_not_valid hv]
    trivial

/-- A verification asks the store whether ids are revoked, and for the nonces
of its caps. -/
theorem verifySigned_store {env : AttestationEnvelope} {es : List (Event BrokerSig)} {r : Option GoError}
    (h : (verifySigned env).Ends es r) {o : StoreOp} {a : o.Ans} (he : storeEvent o a ∈ es) :
    (∃ id, o = .isRevoked id) ∨ ∃ c ∈ env.capList, o = .tryRecordNonce c.nonce := by
  have hQ : Checks env.capList (.inl o) := Path.asks h (verifySigned_asks env) _ he
  match o, hQ with
  | .isRevoked id, _ => exact .inl ⟨id, rfl⟩
  | .tryRecordNonce n, ⟨c, hc, heq⟩ => exact .inr ⟨c, hc, heq ▸ rfl⟩

/-- Each nonce is tried at most as often as the caps have it. -/
theorem verifyCaps_tries_le {cs : List CapabilityToken} {es : List (Event BrokerSig)} {r : Option GoError}
    (h : (verifyCaps cs).Ends es r) (n : Bytes) :
    es.countP (tries n) ≤ (cs.map fun c => nonceBytes c.nonce).count n := by
  induction cs generalizing es with
  | nil =>
    obtain ⟨rfl, -⟩ := verifyCaps_nil_ends.mp h
    simp [tries]
  | cons c cs ih =>
    rcases verifyCaps_cons_ends.mp h with ⟨rfl, -⟩ | ⟨t, rfl, -, -⟩ | ⟨t, rfl, -, -⟩ | ⟨t, es', rfl, -, h⟩
    · simp [tries]
    · simp [tries]
    · by_cases hn : nonceBytes c.nonce = n <;> simp [tries, hn]
    · have := ih h
      by_cases hn : nonceBytes c.nonce = n <;> simp [tries, hn] <;> omega

theorem verifySigned_tries_le {env : AttestationEnvelope} {es : List (Event BrokerSig)} {r : Option GoError}
    (h : (verifySigned env).Ends es r) (n : Bytes) : es.countP (tries n) ≤ env.nonces.count n := by
  rcases verifySigned_ends.mp h with ⟨rfl, -⟩ | ⟨t, rfl, -, -⟩ | ⟨t, es', rfl, -, h⟩
  · simp [tries]
  · simp [tries]
  · have := verifyCaps_tries_le h n
    simpa [tries, AttestationEnvelope.nonces] using this

/-! ## Acceptance -/

/-- An acceptance has found every cap not revoked. -/
theorem verifyCaps_isRevoked {cs : List CapabilityToken} {es : List (Event BrokerSig)}
    (h : (verifyCaps cs).Ends es none) : ∀ c ∈ cs, storeEvent (.isRevoked c.id) false ∈ es := by
  induction cs generalizing es with
  | nil => simp
  | cons c cs ih =>
    rcases verifyCaps_cons_ends.mp h with ⟨-, h⟩ | ⟨_, -, -, h⟩ | ⟨_, -, -, h⟩ | ⟨t, es', rfl, -, h⟩
    · cases h
    · cases h
    · cases h
    · refine List.forall_mem_cons.mpr ⟨by simp, fun c' hc' => ?_⟩
      simp [ih h c' hc']

/-- An acceptance was the first to use the nonce of every cap, once for each. -/
theorem verifyCaps_count_le {cs : List CapabilityToken} {es : List (Event BrokerSig)}
    (h : (verifyCaps cs).Ends es none) (n : Bytes) :
    (cs.map fun c => nonceBytes c.nonce).count n ≤ es.countP (wins n) := by
  induction cs generalizing es with
  | nil => simp
  | cons c cs ih =>
    rcases verifyCaps_cons_ends.mp h with ⟨-, h⟩ | ⟨_, -, -, h⟩ | ⟨_, -, -, h⟩ | ⟨t, es', rfl, -, h⟩
    · cases h
    · cases h
    · cases h
    · have := ih h
      by_cases hn : nonceBytes c.nonce = n <;> simp [wins, hn] <;> omega

/-- What an acceptance found: a valid signature, and neither the sigil nor any
cap revoked; and it took every nonce. -/
theorem verifyAttestation_accepts {b : Broker} {env : AttestationEnvelope} {es : List (Event BrokerSig)}
    (h : (b.verifyAttestation env).Ends es none) :
    b.SignatureValid env ∧ storeEvent (.isRevoked env.sigilID) false ∈ es ∧
      (∀ c ∈ env.capList, storeEvent (.isRevoked c.id) false ∈ es) ∧
      ∀ n, env.nonces.count n ≤ es.countP (wins n) := by
  by_cases hv : b.SignatureValid env
  · rw [verifyAttestation_of_valid hv] at h
    rcases verifySigned_ends.mp h with ⟨-, h⟩ | ⟨_, -, -, h⟩ | ⟨t, es', rfl, -, h⟩
    · cases h
    · cases h
    · refine ⟨hv, by simp, fun c hc => by simp [verifyCaps_isRevoked h c hc], fun n => ?_⟩
      exact (verifyCaps_count_le h n).trans (List.Sublist.countP_le (by simp))
  · rw [verifyAttestation_of_not_valid hv] at h
    obtain ⟨-, h⟩ := ends_ret.mp h
    cases h

/-! ## Where nothing is revoked or expired -/

/-- No question whether an id of the envelope is revoked was answered yes, and no
clock reading is past an expiry of it. -/
structure Clean (env : AttestationEnvelope) (es : List (Event BrokerSig)) : Prop where
  revoked : ∀ id, storeEvent (.isRevoked id) true ∈ es → id ≠ env.sigilID ∧ ∀ c ∈ env.capList, id ≠ c.id
  expired : ∀ t, hostEvent .timeNow t ∈ es →
    t.after env.expiresAt = false ∧ ∀ c ∈ env.capList, t.after c.expiresAt = false

/-- The loop ends in an acceptance, or at the first nonce that was used before. -/
theorem verifyCaps_verdict {cs : List CapabilityToken} {es : List (Event BrokerSig)} {r : Option GoError}
    (h : (verifyCaps cs).Ends es r)
    (hrev : ∀ c ∈ cs, storeEvent (.isRevoked c.id) true ∉ es)
    (hexp : ∀ c ∈ cs, ∀ t, hostEvent .timeNow t ∈ es → t.after c.expiresAt = false) :
    r = none ∨ r = some (.verify errReplayAttack) ∧
      ∃ c ∈ cs, storeEvent (.tryRecordNonce c.nonce) false ∈ es := by
  induction cs generalizing es with
  | nil => exact .inl (verifyCaps_nil_ends.mp h).2
  | cons c cs ih =>
    rcases verifyCaps_cons_ends.mp h with ⟨rfl, -⟩ | ⟨t, rfl, ht, -⟩ | ⟨t, rfl, -, hr⟩ | ⟨t, es', rfl, -, h⟩
    · exact absurd (by simp) (hrev c (by simp))
    · rw [hexp c (by simp) t (by simp)] at ht
      cases ht
    · exact .inr ⟨hr, c, by simp, by simp⟩
    · refine (ih h (fun c' hc' he => hrev c' (by simp [hc']) (by simp [he]))
        (fun c' hc' t' ht' => hexp c' (by simp [hc']) t' (by simp [ht']))).imp id ?_
      rintro ⟨hr, c', hc', he⟩
      exact ⟨hr, c', by simp [hc'], by simp [he]⟩

theorem verifySigned_clean {env : AttestationEnvelope} {es : List (Event BrokerSig)} {r : Option GoError}
    (h : (verifySigned env).Ends es r) (hc : Clean env es) :
    ∃ t es', es = storeEvent (.isRevoked env.sigilID) false :: hostEvent .timeNow t :: es' ∧
      (verifyCaps env.capList).Ends es' r := by
  rcases verifySigned_ends.mp h with ⟨rfl, -⟩ | ⟨t, rfl, ht, -⟩ | ⟨t, es', rfl, -, h⟩
  · exact absurd rfl (hc.revoked _ (by simp)).1
  · rw [(hc.expired t (by simp)).1] at ht
    cases ht
  · exact ⟨t, es', rfl, h⟩

/-- A verification ends in an acceptance, or at the first nonce that was used
before. -/
theorem verifySigned_verdict {env : AttestationEnvelope} {es : List (Event BrokerSig)} {r : Option GoError}
    (h : (verifySigned env).Ends es r) (hc : Clean env es) :
    r = none ∨ r = some (.verify errReplayAttack) ∧
      ∃ c ∈ env.capList, storeEvent (.tryRecordNonce c.nonce) false ∈ es := by
  obtain ⟨t, es', rfl, hl⟩ := verifySigned_clean h hc
  refine (verifyCaps_verdict hl (fun c hcm he => ?_) (fun c hcm t' ht' => ?_)).imp id ?_
  · exact (hc.revoked _ (by simp [he])).2 c hcm rfl
  · exact (hc.expired t' (by simp [ht'])).2 c hcm
  · rintro ⟨hr, c, hcm, he⟩
    exact ⟨hr, c, hcm, by simp [he]⟩

/-- A verification gets its first nonce, or stops there and gets none. -/
theorem verifySigned_first {env : AttestationEnvelope} {es : List (Event BrokerSig)} {r : Option GoError}
    (h : (verifySigned env).Ends es r) (hc : Clean env es) {c : CapabilityToken} {cs : List CapabilityToken}
    (hcaps : env.capList = c :: cs) :
    storeEvent (.tryRecordNonce c.nonce) true ∈ es ∨
      storeEvent (.tryRecordNonce c.nonce) false ∈ es ∧ r = some (.verify errReplayAttack) ∧
        ∀ n, es.countP (wins n) = 0 := by
  obtain ⟨t, es₁, rfl, hl⟩ := verifySigned_clean h hc
  rw [hcaps] at hl
  rcases verifyCaps_cons_ends.mp hl with ⟨rfl, -⟩ | ⟨t, rfl, ht, -⟩ | ⟨t, rfl, -, hr⟩ | ⟨t, es₂, rfl, -, -⟩
  · exact absurd rfl ((hc.revoked c.id (by simp)).2 c (by simp [hcaps]))
  · rw [(hc.expired t (by simp)).2 c (by simp [hcaps])] at ht
    cases ht
  · exact .inr ⟨by simp, hr, fun n => by simp [wins]⟩
  · exact .inl (by simp)

/-- A verification of distinct nonces does not take from itself the nonce it
stops at. -/
theorem not_wins_of_lost {env : AttestationEnvelope} {es : List (Event BrokerSig)} {r : Option GoError}
    (h : (verifySigned env).Ends es r) (hdistinct : env.nonces.Nodup) {c : CapabilityToken}
    (hlost : storeEvent (.tryRecordNonce c.nonce) false ∈ es) :
    es.countP (wins (nonceBytes c.nonce)) = 0 := by
  rw [List.countP_eq_zero]
  intro e he hw
  have hone : es.countP (tries (nonceBytes c.nonce)) ≤ 1 :=
    (verifySigned_tries_le h _).trans (List.nodup_iff_count_le_one.mp hdistinct _)
  obtain ⟨n, hn, rfl⟩ := wins_iff.mp hw
  cases eq_of_countP_le_one hone he hlost (by simp [tries, hn]) (by simp [tries])

end Broker

end Hanko
