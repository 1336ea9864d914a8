import Hanko.Proof.Runs

/-!
# The verdict of a verification

What `VerifyAttestation` returns over a `MemStore` that nobody else uses, and
which nonces it consumes. The checks are stated without the loop: each cap is
judged by the store as it was before the call (`capError`), by the nonces of
the caps before it, and by its own reading of the clock. `Verdict` says which
check is the first to fail.

* `verifyCaps_exec`: the loop over the caps, by induction on their list;
* `verify_verdict`: the whole call.
-/

namespace Hanko

open Bytes Interact

/-! ## The checks -/

/-- The check that a cap fails at the time `now`, after the caps `earlier` of
the same envelope. -/
def capError (m : MemStore) (earlier : List CapabilityToken) (now : Time) (c : CapabilityToken) :
    Option VerifyError :=
  if m.isRevoked c.id then some errCapRevoked
  else if now.after c.expiresAt then some errCapExpired
  else if m.nonceUsed c.nonce ∨ nonceBytes c.nonce ∈ earlier.map (nonceBytes ·.nonce) then some errReplayAttack
  else none

/-- Every cap passes, each at its own reading of the clock. -/
def CapsPass (m : MemStore) (clock : Nat → Time) (caps : List CapabilityToken) : Prop :=
  ∀ earlier c later, caps = earlier ++ c :: later → capError m earlier (clock earlier.length) c = none

/-- The first check that fails in a list of caps, and the caps before it. -/
inductive CapsVerdict (m : MemStore) (clock : Nat → Time) (caps : List CapabilityToken) :
    Option GoError → List CapabilityToken → Prop
  | denied {earlier later : List CapabilityToken} {c : CapabilityToken} {e : VerifyError} :
    caps = earlier ++ c :: later → CapsPass m clock earlier →
    capError m earlier (clock earlier.length) c = some e →
    CapsVerdict m clock caps (some (.verify e)) earlier
  | accepted : CapsPass m clock caps → CapsVerdict m clock caps none caps

/-- The first check that fails in an envelope, and the caps before it. -/
inductive Verdict (b : Broker) (env : AttestationEnvelope) (m : MemStore) (clock : Nat → Time) :
    Option GoError → List CapabilityToken → Prop
  | signature : ¬ b.SignatureValid env → Verdict b env m clock (some (Broker.signatureError env)) []
  | sigilRevoked : b.SignatureValid env → m.isRevoked env.sigilID = true →
    Verdict b env m clock (some (.verify errSigilRevoked)) []
  | expired : b.SignatureValid env → m.isRevoked env.sigilID = false →
    (clock 0).after env.expiresAt = true → Verdict b env m clock (some (.verify errCapExpired)) []
  | caps {r : Option GoError} {passed : List CapabilityToken} : b.SignatureValid env →
    m.isRevoked env.sigilID = false → (clock 0).after env.expiresAt = false →
    CapsVerdict m (fun i => clock (i + 1)) env.capList r passed → Verdict b env m clock r passed

/-- `m'` is `m` with the nonces of `passed` consumed, and nothing else changed. -/
structure Consumed (m : MemStore) (passed : List CapabilityToken) (m' : MemStore) : Prop where
  sigils : m'.sigils = m.sigils
  caps : m'.caps = m.caps
  revs : m'.revs = m.revs
  revokedIDs : m'.revokedIDs = m.revokedIDs
  nonces : ∀ n, m'.nonceUsed n = true ↔ m.nonceUsed n = true ∨ nonceBytes n ∈ passed.map (nonceBytes ·.nonce)

theorem Consumed.refl (m : MemStore) : Consumed m [] m := ⟨rfl, rfl, rfl, rfl, by simp⟩

/-! ## The loop over the caps -/

theorem MemStore.nonceUsed_recordNonce (m : MemStore) (n k : Option Bytes) :
    (m.recordNonce n).nonceUsed k = true ↔ m.nonceUsed k = true ∨ nonceBytes k = nonceBytes n := by
  by_cases h : nonceBytes k = nonceBytes n
  · simp [nonceUsed, recordNonce, hexEncodeNonce, h]
  · have hne : hexEncode (nonceBytes k) ≠ hexEncode (nonceBytes n) := hexEncode_injective.ne h
    simp [nonceUsed, recordNonce, hexEncodeNonce, Function.update_of_ne hne, h]

theorem MemStore.tryRecordNonce_eq (m : MemStore) (n : Option Bytes) :
    m.tryRecordNonce n = if m.nonceUsed n then (false, m) else (true, m.recordNonce n) := rfl

/-- A nonce recorded by a cap of the envelope is one of an earlier cap. -/
theorem capError_recordNonce (m : MemStore) (c : CapabilityToken) (earlier : List CapabilityToken) (now : Time)
    (c' : CapabilityToken) :
    capError (m.recordNonce c.nonce) earlier now c' = capError m (c :: earlier) now c' := by
  have hrev : (m.recordNonce c.nonce).isRevoked c'.id = m.isRevoked c'.id := rfl
  simp only [capError, hrev, m.nonceUsed_recordNonce, List.map_cons, List.mem_cons, or_assoc]

theorem capError_eq_none {m : MemStore} {earlier : List CapabilityToken} {now : Time} {c : CapabilityToken} :
    capError m earlier now c = none ↔ m.isRevoked c.id = false ∧ now.after c.expiresAt = false ∧
      m.nonceUsed c.nonce = false ∧ nonceBytes c.nonce ∉ earlier.map (nonceBytes ·.nonce) := by
  unfold capError
  split
  · simp [*]
  · split
    · simp [*]
    · simp_all

theorem capsPass_nil {m : MemStore} {clock : Nat → Time} : CapsPass m clock [] :=
  fun earlier _ _ heq => absurd heq.symm (List.append_ne_nil_of_right_ne_nil earlier (List.cons_ne_nil _ _))

theorem capsPass_cons {m : MemStore} {clock : Nat → Time} {c : CapabilityToken} {cs : List CapabilityToken} :
    CapsPass m clock (c :: cs) ↔ capError m [] (clock 0) c = none ∧
      CapsPass (m.recordNonce c.nonce) (fun i => clock (i + 1)) cs := by
  constructor
  · intro h
    refine ⟨h [] c cs rfl, ?_⟩
    rintro earlier c' later rfl
    rw [capError_recordNonce]
    exact h (c :: earlier) c' later rfl
  · rintro ⟨hc, hcs⟩ earlier c' later heq
    cases earlier with
    | nil =>
      obtain ⟨rfl, rfl⟩ := List.cons.inj heq
      exact hc
    | cons d earlier =>
      obtain ⟨rfl, rfl⟩ := List.cons.inj heq
      rw [← capError_recordNonce]
      exact hcs earlier c' later rfl

/-- The verdict on the caps after one that passed. -/
theorem CapsVerdict.cons {m : MemStore} {clock : Nat → Time} {c : CapabilityToken} {cs passed : List CapabilityToken}
    {r : Option GoError} (hc : capError m [] (clock 0) c = none)
    (h : CapsVerdict (m.recordNonce c.nonce) (fun i => clock (i + 1)) cs r passed) :
    CapsVerdict m clock (c :: cs) r (c :: passed) := by
  cases h with
  | denied heq hpass herr =>
    subst heq
    refine .denied rfl (capsPass_cons.mpr ⟨hc, hpass⟩) ?_
    rw [← capError_recordNonce]
    exact herr
  | accepted hpass => exact .accepted (capsPass_cons.mpr ⟨hc, hpass⟩)

theorem Consumed.cons {m m' : MemStore} {c : CapabilityToken} {cs : List CapabilityToken}
    (h : Consumed (m.recordNonce c.nonce) cs m') : Consumed m (c :: cs) m' where
  sigils := h.sigils
  caps := h.caps
  revs := h.revs
  revokedIDs := h.revokedIDs
  nonces n := by
    rw [h.nonces, m.nonceUsed_recordNonce, List.map_cons, List.mem_cons, or_assoc]

/-- A first cap that fails ends the loop. -/
theorem CapsVerdict.head {m : MemStore} {clock : Nat → Time} {c : CapabilityToken} {cs : List CapabilityToken}
    {e : VerifyError} (h : capError m [] (clock 0) c = some e) :
    CapsVerdict m clock (c :: cs) (some (.verify e)) [] :=
  .denied rfl capsPass_nil h

/-- One round of the loop, run alone over any store. -/
theorem exec_verifyCaps_cons {σ : Type} (step : (o : StoreSig.Op) → σ → StoreSig.Ans o × σ) (c : CapabilityToken)
    (cs : List CapabilityToken) (s : σ) (w : Host) :
    (Broker.verifyCaps (c :: cs)).exec (both step Host.step) (s, w) =
      if (step (.isRevoked c.id) s).1 then
        (some (.verify errCapRevoked),
          ((step (.isRevoked c.id) s).2, { w with revocationDenied := w.revocationDenied + 1 }))
      else if (w.clock 0).after c.expiresAt then
        (some (.verify errCapExpired), ((step (.isRevoked c.id) s).2, { w with clock := fun i => w.clock (i + 1) }))
      else if (step (.tryRecordNonce c.nonce) (step (.isRevoked c.id) s).2).1 then
        (Broker.verifyCaps cs).exec (both step Host.step)
          ((step (.tryRecordNonce c.nonce) (step (.isRevoked c.id) s).2).2,
            { w with clock := fun i => w.clock (i + 1) })
      else
        (some (.verify errReplayAttack), ((step (.tryRecordNonce c.nonce) (step (.isRevoked c.id) s).2).2,
          { w with clock := fun i => w.clock (i + 1) })) := by
  change Prog.exec _ (if (step (.isRevoked c.id) s).1 = true then _ else _) ((step (.isRevoked c.id) s).2, w) = _
  by_cases hrev : (step (.isRevoked c.id) s).1 = true
  · rw [if_pos hrev, if_pos hrev]
    rfl
  rw [if_neg hrev, if_neg hrev]
  change Prog.exec _ (if (w.clock 0).after c.expiresAt = true then _ else _) (_, _) = _
  by_cases hexp : (w.clock 0).after c.expiresAt = true
  · rw [if_pos hexp, if_pos hexp]
    rfl
  rw [if_neg hexp, if_neg hexp]
  change Prog.exec _ (if (step (.tryRecordNonce c.nonce) (step (.isRevoked c.id) s).2).1 = true then _ else _)
    (_, _) = _
  by_cases hfirst : (step (.tryRecordNonce c.nonce) (step (.isRevoked c.id) s).2).1 = true
  · rw [if_pos hfirst, if_pos hfirst]
    rfl
  · rw [if_neg hfirst, if_neg hfirst]
    rfl

/-- One round of the loop, run alone. -/
theorem verifyCaps_cons_exec (c : CapabilityToken) (cs : List CapabilityToken) (m : MemStore) (w : Host) :
    (Broker.verifyCaps (c :: cs)).exec (both MemStore.step Host.step) (m, w) =
      if m.isRevoked c.id then
        (some (.verify errCapRevoked), (m, { w with revocationDenied := w.revocationDenied + 1 }))
      else if (w.clock 0).after c.expiresAt then
        (some (.verify errCapExpired), (m, { w with clock := fun i => w.clock (i + 1) }))
      else if m.nonceUsed c.nonce then
        (some (.verify errReplayAttack), (m, { w with clock := fun i => w.clock (i + 1) }))
      else (Broker.verifyCaps cs).exec (both MemStore.step Host.step)
        (m.recordNonce c.nonce, { w with clock := fun i => w.clock (i + 1) }) := by
  rw [exec_verifyCaps_cons]
  refine if_congr Iff.rfl rfl (if_congr Iff.rfl rfl ?_)
  change (if (m.tryRecordNonce c.nonce).1 = true then Prog.exec _ _ ((m.tryRecordNonce c.nonce).2, _)
    else (_, ((m.tryRecordNonce c.nonce).2, _))) = _
  rw [m.tryRecordNonce_eq]
  by_cases hused : m.nonceUsed c.nonce = true
  · rw [if_pos hused, if_pos hused]
    rfl
  · rw [if_neg hused, if_neg hused]
    rfl

/-- The loop over the caps, run alone. -/
theorem verifyCaps_exec (cs : List CapabilityToken) (m : MemStore) (w : Host) :
    ∃ r passed m' w', (Broker.verifyCaps cs).exec (both MemStore.step Host.step) (m, w) = (r, (m', w')) ∧
      CapsVerdict m w.clock cs r passed ∧ Consumed m passed m' := by
  induction cs generalizing m w with
  | nil => exact ⟨none, [], m, _, rfl, .accepted capsPass_nil, .refl m⟩
  | cons c cs ih =>
    rw [verifyCaps_cons_exec]
    by_cases hrev : m.isRevoked c.id = true
    · rw [if_pos hrev]
      exact ⟨_, [], m, _, rfl, .head (by rw [capError, if_pos hrev]), .refl m⟩
    rw [if_neg hrev]
    by_cases hexp : (w.clock 0).after c.expiresAt = true
    · rw [if_pos hexp]
      exact ⟨_, [], m, _, rfl, .head (by rw [capError, if_neg hrev, if_pos hexp]), .refl m⟩
    rw [if_neg hexp]
    by_cases hused : m.nonceUsed c.nonce = true
    · rw [if_pos hused]
      refine ⟨_, [], m, _, rfl, .head ?_, .refl m⟩
      rw [capError, if_neg hrev, if_neg hexp, if_pos (.inl hused)]
    · rw [if_neg hused]
      obtain ⟨r, passed, m', w', hexec, hverdict, hconsumed⟩ :=
        ih (m.recordNonce c.nonce) { w with clock := fun i => w.clock (i + 1) }
      refine ⟨r, c :: passed, m', w', hexec, hverdict.cons ?_, hconsumed.cons⟩
      rw [capError, if_neg hrev, if_neg hexp, if_neg (by simpa using hused)]

/-! ## The whole call -/

/-- After the signature check, run alone over any store. -/
theorem exec_verifySigned {σ : Type} (step : (o : StoreSig.Op) → σ → StoreSig.Ans o × σ) (env : AttestationEnvelope)
    (s : σ) (w : Host) :
    (Broker.verifySigned env).exec (both step Host.step) (s, w) =
      if (step (.isRevoked env.sigilID) s).1 then
        (some (.verify errSigilRevoked),
          ((step (.isRevoked env.sigilID) s).2, { w with revocationDenied := w.revocationDenied + 1 }))
      else if (w.clock 0).after env.expiresAt then
        (some (.verify errCapExpired),
          ((step (.isRevoked env.sigilID) s).2, { w with clock := fun i => w.clock (i + 1) }))
      else (Broker.verifyCaps env.capList).exec (both step Host.step)
        ((step (.isRevoked env.sigilID) s).2, { w with clock := fun i => w.clock (i + 1) }) := by
  change Prog.exec _ (if (step (.isRevoked env.sigilID) s).1 = true then _ else _)
    ((step (.isRevoked env.sigilID) s).2, w) = _
  by_cases hrev : (step (.isRevoked env.sigilID) s).1 = true
  · rw [if_pos hrev, if_pos hrev]
    rfl
  rw [if_neg hrev, if_neg hrev]
  change Prog.exec _ (if (w.clock 0).after env.expiresAt = true then _ else _) (_, _) = _
  by_cases hexp : (w.clock 0).after env.expiresAt = true
  · rw [if_pos hexp, if_pos hexp]
    rfl
  · rw [if_neg hexp, if_neg hexp]
    rfl

/-- After the signature check, run alone. -/
theorem verifySigned_exec (env : AttestationEnvelope) (m : MemStore) (w : Host) :
    (Broker.verifySigned env).exec (both MemStore.step Host.step) (m, w) =
      if m.isRevoked env.sigilID then
        (some (.verify errSigilRevoked), (m, { w with revocationDenied := w.revocationDenied + 1 }))
      else if (w.clock 0).after env.expiresAt then
        (some (.verify errCapExpired), (m, { w with clock := fun i => w.clock (i + 1) }))
      else (Broker.verifyCaps env.capList).exec (both MemStore.step Host.step)
        (m, { w with clock := fun i => w.clock (i + 1) }) :=
  exec_verifySigned MemStore.step env m w

/-- What it takes to be accepted. -/
theorem Verdict.eq_none_iff {b : Broker} {env : AttestationEnvelope} {m : MemStore} {clock : Nat → Time}
    {r : Option GoError} {passed : List CapabilityToken} (h : Verdict b env m clock r passed) :
    r = none ↔ b.SignatureValid env ∧ m.isRevoked env.sigilID = false ∧
      (clock 0).after env.expiresAt = false ∧
      ∀ (earlier : List CapabilityToken) (c : CapabilityToken) (later : List CapabilityToken),
        env.capList = earlier ++ c :: later →
        m.isRevoked c.id = false ∧ (clock (earlier.length + 1)).after c.expiresAt = false ∧
          m.nonceUsed c.nonce = false ∧ nonceBytes c.nonce ∉ earlier.map (nonceBytes ·.nonce) := by
  simp only [← capError_eq_none]
  cases h with
  | signature hsig => simp [hsig]
  | sigilRevoked _ hrev => simp [hrev]
  | expired _ _ hexp => simp [hexp]
  | caps hsig hrev hexp hcaps =>
    cases hcaps with
    | denied heq _ herr =>
      simp only [reduceCtorEq, false_iff, not_and]
      intro _ _ _ hall
      rw [hall _ _ _ heq] at herr
      cases herr
    | accepted hall => exact iff_of_true rfl ⟨hsig, hrev, hexp, hall⟩

/-- `VerifyAttestation` run alone. -/
theorem verifyAttestation_exec (b : Broker) (env : AttestationEnvelope) (m : MemStore) (w : Host) :
    ∃ r passed m' w', (b.verifyAttestation env).exec (both MemStore.step Host.step) (m, w) = (r, (m', w')) ∧
      Verdict b env m w.clock r passed ∧ Consumed m passed m' := by
  by_cases hsig : b.SignatureValid env
  · rw [Broker.verifyAttestation_of_valid hsig, verifySigned_exec]
    by_cases hrev : m.isRevoked env.sigilID = true
    · rw [if_pos hrev]
      exact ⟨_, _, _, _, rfl, .sigilRevoked hsig hrev, .refl m⟩
    rw [if_neg hrev]
    rw [Bool.not_eq_true] at hrev
    by_cases hexp : (w.clock 0).after env.expiresAt = true
    · rw [if_pos hexp]
      exact ⟨_, _, _, _, rfl, .expired hsig hrev hexp, .refl m⟩
    rw [if_neg hexp]
    rw [Bool.not_eq_true] at hexp
    obtain ⟨r, passed, m', w', hexec, hverdict, hconsumed⟩ :=
      verifyCaps_exec env.capList m { w with clock := fun i => w.clock (i + 1) }
    exact ⟨r, passed, m', w', hexec, .caps hsig hrev hexp hverdict, hconsumed⟩
  · rw [Broker.verifyAttestation_of_not_valid hsig]
    exact ⟨_, _, _, _, rfl, .signature hsig, .refl m⟩

theorem runMem_verify {S : Service} {env : AttestationEnvelope} {m : MemStore} {w : Host} {r : Option GoError}
    {s : MemStore × Host}
    (h : (S.broker.verifyAttestation env).exec (both MemStore.step Host.step) (m, w) = (r, s)) :
    runMem ((Call.verifyAttestation env).prog S) m w = (.err r, s) := by
  rw [runMem, Call.prog, Prog.map_eq, Prog.exec_bind, h, Prog.exec_ret]

/-- `VerifyAttestation` over a `MemStore` that nobody else uses: its result is
that of the first check that fails, `nil` if none does, and it consumes the
nonces of the caps before that check, and changes nothing else. -/
theorem verify_verdict (S : Service) (env : AttestationEnvelope) (m : MemStore) (w : Host) :
    ∃ r passed m' w', runMem ((Call.verifyAttestation env).prog S) m w = (.err r, (m', w')) ∧
      Verdict S.broker env m w.clock r passed ∧ Consumed m passed m' ∧
      (r = none ↔ S.broker.SignatureValid env ∧ m.isRevoked env.sigilID = false ∧
        (w.clock 0).after env.expiresAt = false ∧
        ∀ earlier c later, env.capList = earlier ++ c :: later →
          m.isRevoked c.id = false ∧ (w.clock (earlier.length + 1)).after c.expiresAt = false ∧
            m.nonceUsed c.nonce = false ∧ nonceBytes c.nonce ∉ earlier.map (nonceBytes ·.nonce)) := by
  obtain ⟨r, passed, m', w', hexec, hverdict, hconsumed⟩ := verifyAttestation_exec S.broker env m w
  exact ⟨r, passed, m', w', runMem_verify hexec, hverdict, hconsumed, hverdict.eq_none_iff⟩

/-- A signed envelope is accepted if nothing in it is revoked, expired or
replayed. -/
theorem runMem_accepts {S : Service} {env : AttestationEnvelope} {m : MemStore} {w : Host}
    (hvalid : S.broker.SignatureValid env) (hsigil : m.isRevoked env.sigilID = false)
    (hcaps : ∀ c ∈ env.capList, m.isRevoked c.id = false) (hdistinct : env.nonces.Nodup)
    (hfresh : ∀ c ∈ env.capList, m.nonceUsed c.nonce = false)
    (hclock : ∀ k, (w.clock k).after env.expiresAt = false ∧
      ∀ c ∈ env.capList, (w.clock k).after c.expiresAt = false) :
    (runMem ((Call.verifyAttestation env).prog S) m w).1 = .err none := by
  obtain ⟨r, passed, m', w', hexec, hverdict, -⟩ := verifyAttestation_exec S.broker env m w
  rw [runMem_verify hexec, hverdict.eq_none_iff.mpr]
  refine ⟨hvalid, hsigil, (hclock 0).1, fun earlier c later heq => ?_⟩
  have hc : c ∈ env.capList := heq ▸ List.mem_append_right _ List.mem_cons_self
  refine ⟨hcaps c hc, (hclock _).2 c hc, hfresh c hc, fun hmem => ?_⟩
  rw [AttestationEnvelope.nonces, heq, List.map_append, List.map_cons] at hdistinct
  exact List.disjoint_of_nodup_append hdistinct hmem List.mem_cons_self

end Hanko
