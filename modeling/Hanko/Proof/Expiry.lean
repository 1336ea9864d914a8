import Hanko.Proof.Issue
import Hanko.Proof.Verdict

/-!
# Lifetimes

How long what the broker grants is good for.

* `expiry_enforced`: an accepted envelope, and each of its caps, was not
  expired at some reading of the clock. The sigil is not looked at, whatever
  its own expiry is.
* `granted_ttl`: the lifetime of a minted cap is the least of what the policy
  allows, what the request asks for and five minutes, unless a number of
  seconds is so large that its nanoseconds overflow.
-/

namespace Hanko

open Bytes Interact

/-! ## Expired envelopes -/

/-- An accepted cap was not expired when the clock was read for it. -/
theorem Broker.verifyCaps_unexpired {cs : List CapabilityToken} {es : List (Event BrokerSig)}
    (h : (verifyCaps cs).Ends es none) :
    ∀ c ∈ cs, ∃ t, hostEvent .timeNow t ∈ es ∧ t.after c.expiresAt = false := by
  induction cs generalizing es with
  | nil => simp
  | cons c cs ih =>
    rcases verifyCaps_cons_ends.mp h with ⟨-, h⟩ | ⟨_, -, -, h⟩ | ⟨_, -, -, h⟩ | ⟨t, es', rfl, ht, h⟩
    · cases h
    · cases h
    · cases h
    · refine List.forall_mem_cons.mpr ⟨⟨t, by simp, ht⟩, fun c' hc' => ?_⟩
      obtain ⟨t', hmem, ht'⟩ := ih h c' hc'
      exact ⟨t', by simp [hmem], ht'⟩

/-- An accepted envelope was not expired when the clock was read for it, nor
was any of its caps. -/
theorem Broker.verifyAttestation_unexpired {b : Broker} {env : AttestationEnvelope} {es : List (Event BrokerSig)}
    (h : (b.verifyAttestation env).Ends es none) :
    (∃ t, hostEvent .timeNow t ∈ es ∧ t.after env.expiresAt = false) ∧
      ∀ c ∈ env.capList, ∃ t, hostEvent .timeNow t ∈ es ∧ t.after c.expiresAt = false := by
  rw [verifyAttestation_of_valid (verifyAttestation_accepts h).1] at h
  rcases verifySigned_ends.mp h with ⟨-, h⟩ | ⟨_, -, -, h⟩ | ⟨t, es', rfl, ht, h⟩
  · cases h
  · cases h
  · refine ⟨⟨t, by simp, ht⟩, fun c hc => ?_⟩
    obtain ⟨t', hmem, ht'⟩ := verifyCaps_unexpired h c hc
    exact ⟨t', by simp [hmem], ht'⟩

/-- A time after one that is not before a third is after that. -/
theorem Time.after_of_not_after {t u v : Time} (h : t.after u = true) (h' : v.after u = false) :
    t.after v = true := by
  simp only [Time.after, decide_eq_true_eq, decide_eq_false_iff_not] at *
  omega

/-- What a verification asks does not tell stores apart that have the same
revocations and nonces. -/
theorem verify_exec_eq (b : Broker) (env : AttestationEnvelope) {m m' : MemStore}
    (hrev : m.revokedIDs = m'.revokedIDs) (hnonces : m.nonces = m'.nonces) (w : Host) :
    (runMem (b.verifyAttestation env) m w).1 = (runMem (b.verifyAttestation env) m' w).1 := by
  refine (b.verifyAttestation_asks env).exec_eq
    (I := fun s t => s.1.revokedIDs = t.1.revokedIDs ∧ s.1.nonces = t.1.nonces ∧ s.2 = t.2) ?_
    ⟨hrev, hnonces, rfl⟩
  rintro o ⟨m, w⟩ ⟨m', w'⟩ hQ ⟨hrev, hnonces, rfl⟩
  have hr : m.revokedIDs = m'.revokedIDs := hrev
  have hn : m.nonces = m'.nonces := hnonces
  match o, hQ with
  | .inl (.isRevoked id), _ => exact ⟨congrFun hr id, hr, hn, rfl⟩
  | .inl (.tryRecordNonce n), _ =>
    simp only [both, MemStore.step, MemStore.tryRecordNonce, hn]
    split
    · exact ⟨rfl, hr, hn, trivial⟩
    · exact ⟨rfl, hr, rfl, trivial⟩
  | .inr .timeNow, _ => exact ⟨rfl, hr, hn, rfl⟩
  | .inr .addRevocationAllowed, _ => exact ⟨rfl, hr, hn, rfl⟩
  | .inr .addRevocationDenied, _ => exact ⟨rfl, hr, hn, rfl⟩

/-- Which sigils exist, and when they expire, makes no difference to a
verification. In every run, an envelope that expires no later than some time
(say the expiry of its sigil), or has a cap that does, is not accepted by a
call all of whose readings of the clock are after that time. -/
theorem expiry_enforced (S : Service) :
    (∀ env (m : MemStore) sigils w,
      (runMem ((Call.verifyAttestation env).prog S) { m with sigils := sigils } w).1 =
        (runMem ((Call.verifyAttestation env).prog S) m w).1) ∧
    ∀ (ι : Type) [DecidableEq ι] (ps ps' : ι → Prog BrokerSig Reply) (m m' : MemStore)
      (tr : List (ι × Event BrokerSig)), Run MemHandler ps m tr ps' m' →
      ∀ i env (expiry : Time), ps i = (Call.verifyAttestation env).prog S →
        (env.expiresAt.after expiry = false ∨ ∃ c ∈ env.capList, c.expiresAt.after expiry = false) →
        (∀ t, hostEvent .timeNow t ∈ of i tr → t.after expiry = true) → ps' i ≠ .ret (.err none) := by
  constructor
  · intro env m sigils w
    rw [Call.prog, runMem_map, runMem_map]
    have hsame : { m with sigils := sigils }.revokedIDs = m.revokedIDs := rfl
    exact congrArg Reply.err (verify_exec_eq S.broker env hsame rfl w)
  · intro ι _ ps ps' m m' tr h i env expiry hi hexp hclock hret
    have hends := Broker.verifyAttestation_unexpired (verify_ends h hi hret)
    have hlate {expiresAt : Time} (hle : expiresAt.after expiry = false) :
        ¬ ∃ t, hostEvent .timeNow t ∈ of i tr ∧ t.after expiresAt = false := by
      rintro ⟨t, ht, hnot⟩
      rw [Time.after_of_not_after (hclock t ht) hle] at hnot
      cases hnot
    rcases hexp with hexp | ⟨c, hc, hexp⟩
    · exact hlate hexp hends.1
    · exact hlate hexp (hends.2 c hc)

namespace Sample

def midnight : Time := ⟨86400, 0, 0⟩

/-- A sigil that expired in the morning. -/
def expired : Sigil := ⟨uuid 0, lit "alice", some [1], noon, some ⟨28800, 0, 0⟩, []⟩

def expiredEnvelope : AttestationEnvelope := envelope expired.id [cap (uuid 2) expired.id 7]

end Sample

/-- The envelope and its cap expire in the evening, and it is midnight. -/
theorem expiry_enforced_sample :
    (runMem ((Call.verifyAttestation Sample.env).prog Sample.service)
      { MemStore.new with sigils := fun _ => some Sample.expired } (Sample.host 0)).1 =
      (runMem ((Call.verifyAttestation Sample.env).prog Sample.service) .new (Sample.host 0)).1 ∧
    ∃ tr ps' m', Run MemHandler (fun _ : Unit => (Call.verifyAttestation Sample.env).prog Sample.service)
      .new tr ps' m' ∧ (∃ r, ps' () = .ret r) ∧ ps' () ≠ .ret (.err none) := by
  refine ⟨(expiry_enforced Sample.service).1 Sample.env .new _ _, ?_⟩
  obtain ⟨es, hx, h⟩ := Run.alone runMem_refines
    (fun _ : Unit => (Call.verifyAttestation Sample.env).prog Sample.service) ()
    (.new, { Sample.host 0 with clock := fun _ => Sample.midnight })
  refine ⟨_, _, _, h, ⟨_, Function.update_self ..⟩, ?_⟩
  refine (expiry_enforced Sample.service).2 Unit _ _ _ _ _ h () Sample.env Sample.evening rfl (.inl rfl) ?_
  intro t ht
  obtain ⟨e, he, heq⟩ := List.mem_map.mp (mem_of.mp ht)
  cases heq
  obtain ⟨k, rfl⟩ := exec_timeNow hx he
  rfl

/-- A sigil that has expired, and an attestation for it that is accepted. -/
theorem expired_sigil_accepted :
    (runMem (.all ([.issueSigil (lit "alice") (some [1]) Sample.expired.expiresAt none,
      .issueAttestation Sample.expired.id Sample.expiredEnvelope.caps Sample.evening,
      .verifyAttestation Sample.expiredEnvelope].map (Call.prog Sample.service))) .new (Sample.host 0)).1 =
      [.sigil (.ok Sample.expired), .envelope (.ok Sample.expiredEnvelope), .err none] ∧
    Sample.expiredEnvelope.sigilID = Sample.expired.id ∧
    ∀ k, ∃ expiresAt ∈ Sample.expired.expiresAt, ((Sample.host 0).clock k).after expiresAt = true := by
  have hmarshals : (unsigned Sample.expired.id Sample.expiredEnvelope.caps Sample.noon Sample.evening).Marshals := by
    decide
  refine ⟨?_, rfl, fun k => ⟨_, rfl, rfl⟩⟩
  refine runMem_all_cons rfl (runMem_all_cons (runMem_issueAttestation hmarshals) ?_)
  refine runMem_all_last (runMem_accepts (Sample.signatureValid_envelope _ (by decide)) rfl ?_
    (List.nodup_singleton _) ?_ ?_)
  · exact List.forall_mem_singleton.mpr rfl
  · exact List.forall_mem_singleton.mpr rfl
  · exact fun k => ⟨rfl, List.forall_mem_singleton.mpr rfl⟩

/-! ## Granted lifetimes -/

/-- The lifetime of a minted cap in exact arithmetic. -/
def exactTTL (row : OIDCPolicyRow) (requestedTTL : Int) : Duration :=
  let policy := if 0 < row.maxTTLSec then row.maxTTLSec * second else defaultOIDCTTL
  if 0 < requestedTTL then min (min policy (requestedTTL * second)) maxOIDCTTL else min policy maxOIDCTTL

/-- So many seconds fit into a `time.Duration`, or wrap around to no less than
`bound`. -/
def Fits (bound : Duration) (seconds : Int) : Prop :=
  seconds ≤ 9223372036 ∨ bound ≤ wrap64 (seconds * second)

/-- The seconds of the policy and of the request do not overflow to less than
what the other of the two, and the ceiling, allow. -/
structure TTLFits (row : OIDCPolicyRow) (requestedTTL : Int) : Prop where
  policy : 0 < row.maxTTLSec →
    Fits (if 0 < requestedTTL then min (requestedTTL * second) maxOIDCTTL else maxOIDCTTL) row.maxTTLSec
  requested : 0 < requestedTTL →
    Fits (min (if 0 < row.maxTTLSec then row.maxTTLSec * second else defaultOIDCTTL) maxOIDCTTL) requestedTTL

theorem wrap64_seconds {n : Int} (h : 0 < n) (h' : n ≤ 9223372036) : wrap64 (n * second) = n * second := by
  rw [wrap64, second]
  exact Int.bmod_eq_of_le (by norm_num; omega) (by norm_num; omega)

/-- Five minutes are the most that is granted, exactly. -/
theorem exactTTL_bounds (row : OIDCPolicyRow) (requestedTTL : Int) :
    0 < exactTTL row requestedTTL ∧ exactTTL row requestedTTL ≤ maxOIDCTTL := by
  simp only [exactTTL, maxOIDCTTL, defaultOIDCTTL, second, min_def, Duration]
  split_ifs <;> omega

theorem grantedTTL_eq_exactTTL_iff (row : OIDCPolicyRow) (requestedTTL : Int) :
    grantedTTL row requestedTTL = exactTTL row requestedTTL ↔ TTLFits row requestedTTL := by
  have hp := wrap64_seconds (n := row.maxTTLSec)
  have hr := wrap64_seconds (n := requestedTTL)
  rw [show TTLFits row requestedTTL ↔ _ ∧ _ from ⟨fun h => ⟨h.1, h.2⟩, fun h => ⟨h.1, h.2⟩⟩]
  simp only [grantedTTL, exactTTL, Fits]
  generalize wrap64 (row.maxTTLSec * second) = p at *
  generalize wrap64 (requestedTTL * second) = r at *
  simp only [maxOIDCTTL, defaultOIDCTTL, second, Duration] at *
  -- the four cases of which of the two bounds count
  by_cases hpolicy : 0 < row.maxTTLSec <;> by_cases hasked : 0 < requestedTTL <;>
    simp only [hpolicy, hasked, true_and, false_and, if_true, if_false, true_imp_iff, false_imp_iff, and_true,
      iff_true] at hp hr ⊢ <;>
    split_ifs <;> omega

theorem Time.after_add (t : Time) (d : Duration) : (t.add d).after t = true ↔ 0 < d := by
  rw [Time.after, decide_eq_true_eq, Time.nanos_add]
  exact lt_add_iff_pos_right t.nanos

/-- The lifetime of a minted cap is the least of what the policy allows, what
the request asks for and five minutes, and the cap is not expired when it is
minted, if and only if the seconds fit. -/
theorem granted_ttl (row : OIDCPolicyRow) (requestedTTL : Int) :
    (grantedTTL row requestedTTL = exactTTL row requestedTTL ∧ 0 < grantedTTL row requestedTTL ∧
      grantedTTL row requestedTTL ≤ maxOIDCTTL ∧
      ∀ now : Time, (now.add (grantedTTL row requestedTTL)).after now = true) ↔ TTLFits row requestedTTL := by
  rw [← grantedTTL_eq_exactTTL_iff]
  constructor
  · exact fun h => h.1
  · intro h
    obtain ⟨hpos, hmax⟩ := exactTTL_bounds row requestedTTL
    rw [h]
    exact ⟨rfl, hpos, hmax, fun now => (now.after_add _).mpr hpos⟩

/-- A request for so many seconds that their nanoseconds overflow: the cap is
expired before it is minted. -/
theorem requested_ttl_overflows :
    grantedTTL Sample.policyRow 9223372037 = -9223372036709551616 ∧
      exactTTL Sample.policyRow 9223372037 = maxOIDCTTL ∧
      (Sample.noon.add (grantedTTL Sample.policyRow 9223372037)).after Sample.noon = false := by
  decide

end Hanko
