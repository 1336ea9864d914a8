import Hanko.Framework.Balance
import Hanko.Proof.Authenticity
import Hanko.Proof.Interchange
import Hanko.Proof.Verdict

/-!
# Counting revocation checks

`VerifyAttestation` counts the calls that it denied for a revocation and those
that it let through. The call of a signed envelope that fails another check
first is not counted at all.

* `exec_verifyCaps_counted`: the counters after the loop over the caps, by
  induction on their list;
* `verify_ends_counted`: how often a call counts, by what the clock and the store
  answered (`FailsOther`);
* `revocation_accounting_iff`: when a call is counted as it should be, and the
  counters after any concurrent run.
-/

namespace Hanko

open Bytes Interact

/-! ## Stores -/

section Store

variable {σ : Type} (step : (o : StoreSig.Op) → σ → StoreSig.Ans o × σ)

/-- The revocations of a store are not changed by asking for them, nor by
consuming nonces. -/
structure KeepsRevocations : Prop where
  isRevoked : ∀ id s, (step (.isRevoked id) s).2 = s
  tryRecordNonce : ∀ n id s, (step (.isRevoked id) (step (.tryRecordNonce n) s).2).1 = (step (.isRevoked id) s).1

/-- The store after the nonces of some caps. -/
def consumeNonces (s : σ) (caps : List CapabilityToken) : σ :=
  caps.foldl (fun s c => (step (.tryRecordNonce c.nonce) s).2) s

/-- The caps that have no revoked cap at or before them are not expired and
their nonces are new. -/
def CapsClear (s : σ) (clock : Nat → Time) (caps : List CapabilityToken) : Prop :=
  ∀ earlier c later, caps = earlier ++ c :: later → (∀ c' ∈ earlier ++ [c], (step (.isRevoked c'.id) s).1 = false) →
    (clock earlier.length).after c.expiresAt = false ∧
      (step (.tryRecordNonce c.nonce) (consumeNonces step s earlier)).1 = true

/-- No check fails before that of the first revoked id. -/
def ChecksClear (s : σ) (w : Host) (env : AttestationEnvelope) : Prop :=
  (step (.isRevoked env.sigilID) s).1 = true ∨
    (w.clock 0).after env.expiresAt = false ∧ CapsClear step s (fun i => w.clock (i + 1)) env.capList

/-- A cap is revoked. -/
def CapRevoked (s : σ) (caps : List CapabilityToken) : Prop := ∃ c ∈ caps, (step (.isRevoked c.id) s).1 = true

/-- The root sigil or a cap of the envelope is revoked. -/
def EnvelopeRevoked (s : σ) (env : AttestationEnvelope) : Prop :=
  (step (.isRevoked env.sigilID) s).1 = true ∨ CapRevoked step s env.capList

end Store

theorem MemStore.keepsRevocations : KeepsRevocations MemStore.step where
  isRevoked _ _ := rfl
  tryRecordNonce n id m := by
    change (m.tryRecordNonce n).2.isRevoked id = m.isRevoked id
    rw [m.tryRecordNonce_eq]
    split <;> rfl

/-- What a `PgStore` answers for an id. An error is taken for "not revoked". -/
theorem PgStore.step_isRevoked_eq (p : PgStore) (id : Bytes) (db : Db) :
    p.step (.isRevoked id) db =
      (((uuidParam id).toOption.map fun u => decide (u ∈ db.revokedKeys)).getD false, db) := by
  simp only [PgStore.step, impl, isRevoked, Prog.call, Prog.bind_eq, Prog.ask_bind, Prog.exec_ask, Db.step]
  cases uuidParam id <;> rfl

theorem PgStore.revokedKeys_tryRecordNonce (p : PgStore) (n : Option Bytes) (db : Db) :
    (p.step (.tryRecordNonce n) db).2.revokedKeys = db.revokedKeys := by
  cases n with
  | none => rfl
  | some n =>
    simp only [PgStore.step, impl, tryRecordNonce, recordNonceStrict, Prog.call, Prog.bind_eq, Prog.ask_bind,
      Prog.exec_ask, Db.step, Db.insertNonce_some]
    by_cases hn : db.consumedNonces n = true <;> simp only [hn] <;> rfl

theorem PgStore.keepsRevocations (p : PgStore) : KeepsRevocations p.step where
  isRevoked id db := by rw [p.step_isRevoked_eq]
  tryRecordNonce n id db := by rw [p.step_isRevoked_eq, p.step_isRevoked_eq, p.revokedKeys_tryRecordNonce]

/-! ## The counters after a call -/

/-- A call counted as allowed. -/
structure CountsAllowed (w w' : Host) : Prop where
  allowed : w'.revocationAllowed = w.revocationAllowed + 1
  denied : w'.revocationDenied = w.revocationDenied

/-- A call counted as denied, and its result. -/
structure CountsDenied (w w' : Host) (r : Option GoError) : Prop where
  allowed : w'.revocationAllowed = w.revocationAllowed
  denied : w'.revocationDenied = w.revocationDenied + 1
  result : r = some (.verify errSigilRevoked) ∨ r = some (.verify errCapRevoked)

/-- A call is counted as denied iff something is revoked, and as allowed
otherwise. -/
structure RevocationAccounted (revoked : Prop) (w w' : Host) (r : Option GoError) : Prop where
  denied : CountsDenied w w' r ↔ revoked
  allowed : ¬ revoked → CountsAllowed w w'

/-- What a call did to the counters: it was counted as it should be, or not at
all. -/
def Counted (clear revoked : Prop) (w w' : Host) (r : Option GoError) : Prop :=
  clear ∧ (revoked → CountsDenied w w' r) ∧ (¬ revoked → CountsAllowed w w') ∨
    ¬ clear ∧ w'.revocationAllowed = w.revocationAllowed ∧ w'.revocationDenied = w.revocationDenied

theorem Counted.accounted_iff {clear revoked : Prop} {w w' : Host} {r : Option GoError}
    (h : Counted clear revoked w w' r) : RevocationAccounted revoked w w' r ↔ clear := by
  rcases h with ⟨hclear, hdenied, hallowed⟩ | ⟨hclear, hsame⟩
  · refine iff_of_true ⟨⟨fun hd => ?_, hdenied⟩, hallowed⟩ hclear
    by_contra hrev
    have hcount := (hallowed hrev).allowed
    rw [hd.allowed] at hcount
    omega
  · refine iff_of_false (fun hacc => ?_) hclear
    by_cases hrev : revoked
    · have hcount := (hacc.denied.mpr hrev).denied
      rw [hsame.2] at hcount
      omega
    · have hcount := (hacc.allowed hrev).allowed
      rw [hsame.1] at hcount
      omega

/-- Reading the clock does not count. -/
theorem Counted.of_clock {clear revoked : Prop} {w w' : Host} {r : Option GoError} {clock : Nat → Time}
    (h : Counted clear revoked { w with clock := clock } w' r) : Counted clear revoked w w' r := by
  rcases h with ⟨hclear, hdenied, hallowed⟩ | h
  · refine .inl ⟨hclear, fun hrev => ?_, fun hrev => ?_⟩
    · exact ⟨(hdenied hrev).allowed, (hdenied hrev).denied, (hdenied hrev).result⟩
    · exact ⟨(hallowed hrev).allowed, (hallowed hrev).denied⟩
  · exact .inr h

section Exec

variable {σ : Type} {step : (o : StoreSig.Op) → σ → StoreSig.Ans o × σ}

theorem capsClear_cons (hstep : KeepsRevocations step) {s : σ} {clock : Nat → Time} {c : CapabilityToken}
    {cs : List CapabilityToken} (hrev : (step (.isRevoked c.id) s).1 = false) :
    CapsClear step s clock (c :: cs) ↔ (clock 0).after c.expiresAt = false ∧
      (step (.tryRecordNonce c.nonce) s).1 = true ∧
      CapsClear step (step (.tryRecordNonce c.nonce) s).2 (fun i => clock (i + 1)) cs := by
  constructor
  · intro h
    obtain ⟨hexp, hfirst⟩ := h [] c cs rfl (by simpa using hrev)
    refine ⟨hexp, hfirst, ?_⟩
    rintro earlier c' later rfl hnone
    refine h (c :: earlier) c' later rfl (List.forall_mem_cons.mpr ⟨hrev, fun d hd => ?_⟩)
    rw [← hstep.tryRecordNonce c.nonce]
    exact hnone d hd
  · rintro ⟨hexp, hfirst, hcs⟩ earlier c' later heq hnone
    cases earlier with
    | nil =>
      obtain ⟨rfl, rfl⟩ := List.cons.inj heq
      exact ⟨hexp, hfirst⟩
    | cons d earlier =>
      obtain ⟨rfl, rfl⟩ := List.cons.inj heq
      refine hcs earlier c' later rfl fun d hd => ?_
      rw [hstep.tryRecordNonce]
      exact hnone d (List.mem_cons_of_mem _ hd)

/-- Nothing after a revoked cap matters. -/
theorem capsClear_of_revoked {s : σ} {clock : Nat → Time} {c : CapabilityToken} {cs : List CapabilityToken}
    (hrev : (step (.isRevoked c.id) s).1 = true) : CapsClear step s clock (c :: cs) := by
  intro earlier c' later heq hnone
  have hmem : c ∈ earlier ++ [c'] := by
    cases earlier with
    | nil => simp [(List.cons.inj heq).1]
    | cons d earlier => simp [(List.cons.inj heq).1]
  rw [hnone c hmem] at hrev
  cases hrev

theorem capRevoked_cons (hstep : KeepsRevocations step) {s : σ} {c : CapabilityToken} {cs : List CapabilityToken}
    (hrev : (step (.isRevoked c.id) s).1 = false) :
    CapRevoked step s (c :: cs) ↔ CapRevoked step (step (.tryRecordNonce c.nonce) s).2 cs := by
  simp only [CapRevoked, List.exists_mem_cons_iff, hrev, Bool.false_eq_true, false_or, hstep.tryRecordNonce]

/-- The counters after the loop over the caps. -/
theorem exec_verifyCaps_counted (hstep : KeepsRevocations step) (cs : List CapabilityToken) (s : σ) (w : Host) :
    Counted (CapsClear step s w.clock cs) (CapRevoked step s cs) w
      ((Broker.verifyCaps cs).exec (both step Host.step) (s, w)).2.2
      ((Broker.verifyCaps cs).exec (both step Host.step) (s, w)).1 := by
  induction cs generalizing s w with
  | nil =>
    refine .inl ⟨?_, by simp [CapRevoked], fun _ => ⟨rfl, rfl⟩⟩
    intro earlier c later heq
    simp at heq
  | cons c cs ih =>
    rw [exec_verifyCaps_cons, hstep.isRevoked]
    by_cases hrev : (step (.isRevoked c.id) s).1 = true
    · rw [if_pos hrev]
      exact .inl ⟨capsClear_of_revoked hrev, fun _ => ⟨rfl, rfl, .inr rfl⟩,
        fun hnone => absurd ⟨c, List.mem_cons_self, hrev⟩ hnone⟩
    rw [if_neg hrev]
    rw [Bool.not_eq_true] at hrev
    by_cases hexp : (w.clock 0).after c.expiresAt = true
    · rw [if_pos hexp]
      refine .inr ⟨fun hclear => ?_, rfl, rfl⟩
      rw [((capsClear_cons hstep hrev).mp hclear).1] at hexp
      cases hexp
    rw [if_neg hexp]
    by_cases hfirst : (step (.tryRecordNonce c.nonce) s).1 = true
    · rw [if_pos hfirst, capsClear_cons hstep hrev, capRevoked_cons hstep hrev]
      simp only [Bool.not_eq_true] at hexp
      simp only [hexp, hfirst, true_and]
      exact (ih (step (.tryRecordNonce c.nonce) s).2 { w with clock := fun i => w.clock (i + 1) }).of_clock
    · rw [if_neg hfirst]
      exact .inr ⟨fun hclear => hfirst ((capsClear_cons hstep hrev).mp hclear).2.1, rfl, rfl⟩

/-- The counters after a call with a valid signature. -/
theorem exec_verify_counted (hstep : KeepsRevocations step) {b : Broker} {env : AttestationEnvelope}
    (hvalid : b.SignatureValid env) (s : σ) (w : Host) :
    Counted (ChecksClear step s w env) (EnvelopeRevoked step s env) w
      ((b.verifyAttestation env).exec (both step Host.step) (s, w)).2.2
      ((b.verifyAttestation env).exec (both step Host.step) (s, w)).1 := by
  rw [Broker.verifyAttestation_of_valid hvalid, exec_verifySigned, hstep.isRevoked]
  by_cases hrev : (step (.isRevoked env.sigilID) s).1 = true
  · rw [if_pos hrev]
    exact .inl ⟨.inl hrev, fun _ => ⟨rfl, rfl, .inl rfl⟩, fun hnone => absurd (.inl hrev) hnone⟩
  rw [if_neg hrev]
  by_cases hexp : (w.clock 0).after env.expiresAt = true
  · rw [if_pos hexp]
    refine .inr ⟨fun hclear => ?_, rfl, rfl⟩
    have hlive := (hclear.resolve_left hrev).1
    rw [hlive] at hexp
    cases hexp
  · rw [if_neg hexp]
    rw [Bool.not_eq_true] at hexp
    simp only [ChecksClear, EnvelopeRevoked, hrev, hexp, Bool.false_eq_true, false_or, true_and]
    exact (exec_verifyCaps_counted hstep env.capList s { w with clock := fun i => w.clock (i + 1) }).of_clock

end Exec

/-! ## Concurrent runs -/

/-- `revocationAllowed.Add(1)`. -/
def isAllowed : Event BrokerSig → Bool
  | ⟨.inr .addRevocationAllowed, _⟩ => true
  | _ => false

/-- `revocationDenied.Add(1)`. -/
def isDenied : Event BrokerSig → Bool
  | ⟨.inr .addRevocationDenied, _⟩ => true
  | _ => false

def isCounted (e : Event BrokerSig) : Bool := isAllowed e || isDenied e

theorem countP_isCounted (es : List (Event BrokerSig)) :
    es.countP isCounted = es.countP isAllowed + es.countP isDenied := by
  induction es with
  | nil => rfl
  | cons e es ih =>
    have he : (isCounted e).toNat = (isAllowed e).toNat + (isDenied e).toNat := by
      obtain ⟨o | o, a⟩ := e
      · rfl
      · cases o <;> rfl
    rw [countP_cons_toNat, countP_cons_toNat, countP_cons_toNat, ih, he]
    omega

/-- What the clock showed. -/
def reading : Event BrokerSig → Option Time
  | ⟨.inr .timeNow, t⟩ => some t
  | _ => none

/-- A check other than that of a revocation failed: the clock showed a time after the expiry
that it was read for, or the store refused a nonce. -/
def FailsOther (expiries : List Time) (es : List (Event BrokerSig)) : Prop :=
  (∃ p ∈ (es.filterMap reading).zip expiries, p.1.after p.2 = true) ∨ ∃ n, storeEvent (.tryRecordNonce n) false ∈ es

section

variable {expiries : List Time} {es : List (Event BrokerSig)}

@[simp] theorem not_failsOther_nil : ¬ FailsOther expiries [] := by simp [FailsOther]

/-- What is neither a reading nor a refusal does not matter. -/
theorem failsOther_cons {e : Event BrokerSig} (hreading : reading e = none)
    (hrefused : ∀ n, storeEvent (.tryRecordNonce n) false ≠ e) :
    FailsOther expiries (e :: es) ↔ FailsOther expiries es := by
  rw [FailsOther, List.filterMap_cons_none hreading, FailsOther]
  simp only [List.mem_cons, hrefused, false_or]

@[simp] theorem failsOther_isRevoked (id : Bytes) (revoked : Bool) :
    FailsOther expiries (storeEvent (.isRevoked id) revoked :: es) ↔ FailsOther expiries es :=
  failsOther_cons rfl (by rintro n ⟨⟩)

@[simp] theorem failsOther_consumed (n : Option Bytes) :
    FailsOther expiries (storeEvent (.tryRecordNonce n) true :: es) ↔ FailsOther expiries es :=
  failsOther_cons rfl (by rintro n ⟨⟩)

@[simp] theorem failsOther_allowed :
    FailsOther expiries (hostEvent .addRevocationAllowed () :: es) ↔ FailsOther expiries es :=
  failsOther_cons rfl (by rintro n ⟨⟩)

@[simp] theorem failsOther_denied :
    FailsOther expiries (hostEvent .addRevocationDenied () :: es) ↔ FailsOther expiries es :=
  failsOther_cons rfl (by rintro n ⟨⟩)

@[simp] theorem failsOther_refused (n : Option Bytes) :
    FailsOther expiries (storeEvent (.tryRecordNonce n) false :: es) :=
  .inr ⟨n, List.mem_cons_self⟩

@[simp] theorem failsOther_timeNow (exp t : Time) :
    FailsOther (exp :: expiries) (hostEvent .timeNow t :: es) ↔ t.after exp = true ∨ FailsOther expiries es := by
  have hother : ∀ n, storeEvent (.tryRecordNonce n) false ≠ hostEvent .timeNow t := by rintro n ⟨⟩
  rw [FailsOther, List.filterMap_cons_some (show reading (hostEvent .timeNow t) = some t from rfl), List.zip_cons_cons,
    List.exists_mem_cons_iff, or_assoc, FailsOther]
  simp only [List.mem_cons, hother, false_or]

end

open Classical in
theorem verifyCaps_ends_counted {cs : List CapabilityToken} {es : List (Event BrokerSig)} {r : Option GoError}
    (h : (Broker.verifyCaps cs).Ends es r) :
    es.countP isCounted = if FailsOther (cs.map CapabilityToken.expiresAt) es then 0 else 1 := by
  induction cs generalizing es with
  | nil =>
    obtain ⟨rfl, rfl⟩ := Broker.verifyCaps_nil_ends.mp h
    simp [isCounted, isAllowed]
  | cons c cs ih =>
    rcases Broker.verifyCaps_cons_ends.mp h with ⟨rfl, -⟩ | ⟨t, rfl, ht, -⟩ | ⟨t, rfl, ht, -⟩ | ⟨t, es', rfl, ht, h⟩
    · simp [isCounted, isAllowed, isDenied]
    · simp [isCounted, isAllowed, isDenied, ht]
    · simp [isCounted, isAllowed, isDenied]
    · simpa [isCounted, isAllowed, isDenied, ht] using ih h

/-- The times until which an envelope and its caps are valid. -/
def AttestationEnvelope.expiries (env : AttestationEnvelope) : List Time :=
  env.expiresAt :: env.capList.map CapabilityToken.expiresAt

open Classical in
/-- A call with a valid signature counts once, unless another check fails. -/
theorem verify_ends_counted {b : Broker} {env : AttestationEnvelope} (hvalid : b.SignatureValid env)
    {es : List (Event BrokerSig)} {r : Option GoError} (h : (b.verifyAttestation env).Ends es r) :
    es.countP isCounted = if FailsOther env.expiries es then 0 else 1 := by
  rw [Broker.verifyAttestation_of_valid hvalid] at h
  rw [AttestationEnvelope.expiries]
  rcases Broker.verifySigned_ends.mp h with ⟨rfl, -⟩ | ⟨t, rfl, ht, -⟩ | ⟨t, es', rfl, ht, h⟩
  · simp [isCounted, isAllowed, isDenied]
  · simp [isCounted, isAllowed, isDenied, ht]
  · simpa [isCounted, isAllowed, isDenied, ht] using verifyCaps_ends_counted h

theorem Uncounted.countP {es : List (Event BrokerSig)} (h : ∀ e ∈ es, Uncounted e.op) : es.countP isCounted = 0 := by
  rw [List.countP_eq_zero]
  intro e he hc
  have hop := h e he
  obtain ⟨o | o, a⟩ := e
  · cases hc
  · cases o with
    | addRevocationAllowed | addRevocationDenied => exact hop
    | _ => cases hc

/-- Calls other than `VerifyAttestation` do not count. -/
theorem call_uncounted (S : Service) {call : Call} (h : ∀ env, call ≠ .verifyAttestation env) :
    (call.prog S).Asks Uncounted := by
  by_cases hissue : ∃ sigilID caps expiresAt, call = .issueAttestation sigilID caps expiresAt
  · obtain ⟨sigilID, caps, expiresAt, rfl⟩ := hissue
    refine asks_bind ?_ fun _ => trivial
    rw [issueAttestation_eq]
    refine ⟨trivial, fun t => ?_⟩
    dsimp only
    by_cases hm : (unsigned sigilID caps t expiresAt).Marshals
    · rw [signEnvelope_of_marshals hm]
      exact ⟨trivial, fun _ => trivial⟩
    · obtain ⟨e, he⟩ := signEnvelope_of_not_marshals hm
      rw [he]
      trivial
  · refine (call_questions S (fun sigilID caps expiresAt heq => hissue ⟨sigilID, caps, expiresAt, heq⟩) h).mono ?_
    rintro (o | o) ho
    · trivial
    · cases o with
      | addRevocationAllowed | addRevocationDenied =>
        rcases ho with ho | ho
        · exact ho
        · exact ho.2
      | _ => trivial

/-- A verification of an envelope with a valid signature. -/
def SignedVerify (S : Service) (call : Call) : Prop :=
  ∃ env, call = .verifyAttestation env ∧ S.broker.SignatureValid env

/-- A verification of an envelope with a valid signature, of which another check than that of
a revocation failed. -/
def TurnedAway (S : Service) (call : Call) (es : List (Event BrokerSig)) : Prop :=
  ∃ env, call = .verifyAttestation env ∧ S.broker.SignatureValid env ∧ FailsOther env.expiries es

section Run

variable {ι σ : Type} [DecidableEq ι] {S : Service} {H : Handler BrokerSig σ} {calls : ι → Call}
  {ps' : ι → Prog BrokerSig Reply} {s s' : σ} {tr : List (ι × Event BrokerSig)}

open Classical in
/-- How often each call of a run has counted. -/
theorem run_counted (h : Run H (fun i => (calls i).prog S) s tr ps' s') (hret : ∀ i, ∃ reply, ps' i = .ret reply)
    (i : ι) : (of i tr).countP isCounted =
      if SignedVerify S (calls i) ∧ ¬ TurnedAway S (calls i) (of i tr) then 1 else 0 := by
  obtain ⟨reply, hreply⟩ := hret i
  have hends := h.ends hreply
  by_cases hverify : ∃ env, calls i = .verifyAttestation env
  · obtain ⟨env, henv⟩ := hverify
    rw [henv, Call.prog, ends_map] at hends
    obtain ⟨r, hends, rfl⟩ := hends
    by_cases hvalid : S.broker.SignatureValid env
    · rw [verify_ends_counted hvalid hends]
      simp [SignedVerify, TurnedAway, henv, hvalid]
    · rw [Broker.verifyAttestation_of_not_valid hvalid] at hends
      obtain ⟨hnil, -⟩ := ends_ret.mp hends
      rw [hnil]
      simp [SignedVerify, henv, hvalid]
  · have hother : ∀ env, calls i ≠ .verifyAttestation env := fun env heq => hverify ⟨env, heq⟩
    rw [Uncounted.countP (Path.asks hends (call_uncounted S hother)), if_neg]
    rintro ⟨⟨env, henv, -⟩, -⟩
    exact hother env henv

open Classical in
/-- Every signed verification of a run is counted once or turned away. -/
theorem run_balance [Fintype ι] (h : Run H (fun i => (calls i).prog S) s tr ps' s')
    (hret : ∀ i, ∃ reply, ps' i = .ret reply) :
    (tr.map Prod.snd).countP isAllowed + (tr.map Prod.snd).countP isDenied +
        (Finset.univ.filter fun i => TurnedAway S (calls i) (of i tr)).card =
      (Finset.univ.filter fun i => SignedVerify S (calls i)).card := by
  have hsum : (tr.map Prod.snd).countP isCounted =
      (Finset.univ.filter fun i => SignedVerify S (calls i) ∧ ¬ TurnedAway S (calls i) (of i tr)).card := by
    rw [← sum_countP_of, Finset.card_filter]
    exact Finset.sum_congr rfl fun i _ => run_counted h hret i
  have haway : (Finset.univ.filter fun i => TurnedAway S (calls i) (of i tr)) =
      Finset.univ.filter fun i => SignedVerify S (calls i) ∧ TurnedAway S (calls i) (of i tr) := by
    refine Finset.filter_congr fun i _ => ⟨fun haway => ⟨?_, haway⟩, And.right⟩
    obtain ⟨env, henv, hvalid, -⟩ := haway
    exact ⟨env, henv, hvalid⟩
  rw [← countP_isCounted, hsum, haway, add_comm, ← Finset.filter_filter, ← Finset.filter_filter,
    Finset.card_filter_add_card_filter_not]

end Run

open Classical in
/-- A call with a valid signature, alone over any store that keeps its
revocations, is counted as denied iff something in the envelope is revoked, and
as allowed otherwise, iff no check fails before that of the first revoked id.
After a concurrent run, over anything, the signed verifications are those
counted and those of which the clock showed a time after an expiry or the store
refused a nonce, so that the counters, modulo 2^64, are the number of all iff the
number of the latter is a multiple of 2^64. -/
theorem revocation_accounting_iff (S : Service) :
    (∀ (σ : Type) (step : (o : StoreSig.Op) → σ → StoreSig.Ans o × σ), KeepsRevocations step →
      ∀ env, S.broker.SignatureValid env → ∀ s w,
        (RevocationAccounted (EnvelopeRevoked step s env) w
            ((S.broker.verifyAttestation env).exec (both step Host.step) (s, w)).2.2
            ((S.broker.verifyAttestation env).exec (both step Host.step) (s, w)).1 ↔
          ChecksClear step s w env)) ∧
    ∀ (ι σ : Type) [DecidableEq ι] [Fintype ι] (H : Handler BrokerSig σ) (calls : ι → Call)
      (ps' : ι → Prog BrokerSig Reply) (s s' : σ) (tr : List (ι × Event BrokerSig)),
      Run H (fun i => (calls i).prog S) s tr ps' s' → (∀ i, ∃ reply, ps' i = .ret reply) →
      (tr.map Prod.snd).countP isAllowed + (tr.map Prod.snd).countP isDenied +
          (Finset.univ.filter fun i => TurnedAway S (calls i) (of i tr)).card =
        (Finset.univ.filter fun i => SignedVerify S (calls i)).card ∧
      (((tr.map Prod.snd).countP isAllowed % 2 ^ 64 + (tr.map Prod.snd).countP isDenied % 2 ^ 64) % 2 ^ 64 =
          (Finset.univ.filter fun i => SignedVerify S (calls i)).card % 2 ^ 64 ↔
        2 ^ 64 ∣ (Finset.univ.filter fun i => TurnedAway S (calls i) (of i tr)).card) := by
  constructor
  · intro σ step hstep env hvalid s w
    exact (exec_verify_counted hstep hvalid s w).accounted_iff
  · intro ι σ _ _ H calls ps' s s' tr h hret
    have hbalance := run_balance h hret
    refine ⟨hbalance, ?_⟩
    rw [← hbalance]
    omega

namespace Sample

/-- Later than anything in the samples expires. -/
def night : Time := ⟨86399, 0, 0⟩

/-- The second cap is revoked. -/
def oneRevoked : MemStore := MemStore.new.revoke ⟨uuid 3, lit "cap", [], noon, []⟩

end Sample

/-- At noon the call is counted over both stores. -/
theorem revocation_accounting_sample :
    RevocationAccounted (EnvelopeRevoked MemStore.step Sample.oneRevoked Sample.twoCaps) (Sample.host 0)
        ((Sample.service.broker.verifyAttestation Sample.twoCaps).exec (both MemStore.step Host.step)
          (Sample.oneRevoked, Sample.host 0)).2.2
        ((Sample.service.broker.verifyAttestation Sample.twoCaps).exec (both MemStore.step Host.step)
          (Sample.oneRevoked, Sample.host 0)).1 ∧
      ∀ p : PgStore, RevocationAccounted
        (EnvelopeRevoked p.step Db.empty (Sample.envelope (Sample.uuid 1) [])) (Sample.host 0)
        ((Sample.service.broker.verifyAttestation (Sample.envelope (Sample.uuid 1) [])).exec (both p.step Host.step)
          (Db.empty, Sample.host 0)).2.2
        ((Sample.service.broker.verifyAttestation (Sample.envelope (Sample.uuid 1) [])).exec (both p.step Host.step)
          (Db.empty, Sample.host 0)).1 := by
  refine ⟨?_, fun p => ?_⟩
  · refine ((revocation_accounting_iff Sample.service).1 MemStore MemStore.step MemStore.keepsRevocations Sample.twoCaps
      Sample.twoCaps_valid Sample.oneRevoked (Sample.host 0)).mpr (.inr ⟨by decide, ?_⟩)
    rw [show Sample.twoCaps.capList = [Sample.cap (Sample.uuid 2) (Sample.uuid 1) 7,
      Sample.cap (Sample.uuid 3) (Sample.uuid 1) 8] from rfl, capsClear_cons MemStore.keepsRevocations (by decide)]
    exact ⟨by decide, by decide, capsClear_of_revoked (by decide)⟩
  · refine ((revocation_accounting_iff Sample.service).1 Db p.step p.keepsRevocations _
      (Sample.signatureValid_envelope _ (by decide)) Db.empty (Sample.host 0)).mpr (.inr ⟨by decide, ?_⟩)
    intro earlier c later heq
    simp [Sample.envelope, AttestationEnvelope.capList] at heq

/-- A cap of a signed envelope is revoked, but the envelope has expired: the call
returns that, and counts nothing. -/
theorem revocation_uncounted :
    Sample.service.broker.SignatureValid Sample.twoCaps ∧
      EnvelopeRevoked MemStore.step Sample.oneRevoked Sample.twoCaps ∧
      ∃ w', (Sample.service.broker.verifyAttestation Sample.twoCaps).exec (both MemStore.step Host.step)
          (Sample.oneRevoked, { Sample.host 0 with clock := fun _ => Sample.night }) =
        (some (.verify errCapExpired), (Sample.oneRevoked, w')) ∧
      w'.revocationAllowed = 0 ∧ w'.revocationDenied = 0 := by
  refine ⟨Sample.twoCaps_valid, .inr ⟨Sample.cap (Sample.uuid 3) (Sample.uuid 1) 8, by decide, by decide⟩, ?_⟩
  rw [Broker.verifyAttestation_of_valid Sample.twoCaps_valid]
  exact ⟨_, rfl, rfl, rfl⟩

end Hanko
