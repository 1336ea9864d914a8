import Hanko.Proof.Verify

/-!
# Runs of the service

Concurrent runs over a `MemStore` are executions of the ledger it means
(`exec_ledger`), in which nonces become consumed and ids revoked by the events
that say so, and by no others (`ledger_consumed_iff`, `ledger_revoked_iff`).
Calls that run alone (`runMem`, `runPg`) are runs of a pool.
-/

namespace Hanko

open Bytes Interact

/-- The ledger, for programs of the broker. -/
abbrev LedgerHandler : Handler BrokerSig Ledger := Handler.opened HostSig Ledger.Step

theorem MemHandler.refines : Refines MemHandler LedgerHandler MemStore.ledger := MemStore.refines.opened

section Ledger

variable {o : BrokerSig.Op} {a : BrokerSig.Ans o} {L L' : Ledger}

theorem ledger_consumed_iff (h : LedgerHandler o L a L') (n : Bytes) :
    n ∈ L'.consumed ↔ n ∈ L.consumed ∨ OnStore (Ledger.Records n) ⟨o, a⟩ := by
  cases o with
  | inl o => exact Ledger.mem_consumed_iff h n
  | inr o =>
    obtain rfl : L' = L := h
    simp [OnStore]

theorem ledger_revoked_iff (h : LedgerHandler o L a L') (id : Bytes) :
    id ∈ L'.revoked ↔ id ∈ L.revoked ∨ OnStore (Ledger.Revokes id) ⟨o, a⟩ := by
  cases o with
  | inl o => exact Ledger.mem_revoked_iff h id
  | inr o =>
    obtain rfl : L' = L := h
    simp [OnStore]

theorem ledger_isRevoked {id : Bytes} {found : Bool}
    (h : LedgerHandler (.inl (.isRevoked id)) L found L') : found = true ↔ id ∈ L.revoked :=
  h.2

end Ledger

section Exec

variable {L L' : Ledger} {es : List (Event BrokerSig)}

/-- What is consumed at the end was at the start, or has been recorded. -/
theorem exec_consumed_iff (h : Exec LedgerHandler L es L') (n : Bytes) :
    n ∈ L'.consumed ↔ n ∈ L.consumed ∨ ∃ e ∈ es, OnStore (Ledger.Records n) e :=
  h.grown (I := fun L => n ∈ L.consumed) fun _ _ _ _ h => ledger_consumed_iff h n

/-- What is revoked at the end was at the start, or has been revoked. -/
theorem exec_revoked_iff (h : Exec LedgerHandler L es L') (id : Bytes) :
    id ∈ L'.revoked ↔ id ∈ L.revoked ∨ ∃ e ∈ es, OnStore (Ledger.Revokes id) e :=
  h.grown (I := fun L => id ∈ L.revoked) fun _ _ _ _ h => ledger_revoked_iff h id

/-- At most one caller is the first to use a nonce. -/
theorem exec_wins_le_one (h : Exec LedgerHandler L es L') (n : Bytes) : es.countP (wins n) ≤ 1 := by
  refine h.countP_le_one (I := fun L => n ∈ L.consumed)
    (fun _ _ _ _ h hn => (ledger_consumed_iff h n).mpr (.inl hn)) ?_
  intro e L L' hw hstep
  obtain ⟨m, rfl, rfl⟩ := wins_iff.mp hw
  exact ⟨hstep.1.mp rfl, (ledger_consumed_iff hstep _).mpr (.inr (.inr ⟨m, rfl, rfl⟩))⟩

/-- A nonce that someone tried to use, and that was not consumed at the start,
was recorded by someone. -/
theorem exec_recorded (h : Exec LedgerHandler L es L') {m : Option Bytes} {a : Bool}
    (he : storeEvent (.tryRecordNonce m) a ∈ es) (hm : nonceBytes m ∉ L.consumed) :
    ∃ e ∈ es, OnStore (Ledger.Records (nonceBytes m)) e := by
  refine ((exec_consumed_iff h _).mp ?_).resolve_left hm
  refine h.established (I := fun L => nonceBytes m ∈ L.consumed)
    (fun _ _ _ _ h hn => (ledger_consumed_iff h _).mpr (.inl hn)) he ?_
  rintro L L' ⟨-, rfl⟩
  exact Set.mem_insert _ _

/-- An id that is not revoked, and is not revoked by anyone, is never found
revoked. -/
theorem exec_not_revoked (h : Exec LedgerHandler L es L') {id : Bytes} (hid : id ∉ L.revoked)
    (hes : ∀ e ∈ es, ¬ OnStore (Ledger.Revokes id) e) : storeEvent (.isRevoked id) true ∉ es := by
  have hne : ∀ e ∈ es, e ≠ storeEvent (.isRevoked id) true := by
    refine (h.restrict hes).forall_mem (I := fun L => id ∉ L.revoked) ?_ hid ?_
    · rintro o L a L' ⟨hstep, hno⟩ hL
      rw [ledger_revoked_iff hstep]
      exact not_or.mpr ⟨hL, hno⟩
    · rintro e L L' hL ⟨hstep, -⟩ rfl
      exact hL ((ledger_isRevoked hstep).mp rfl)
  exact fun he => hne _ he rfl

/-- An id that was revoked is found revoked. -/
theorem exec_revoked (h : Exec LedgerHandler L es L') {id : Bytes} (hid : id ∈ L.revoked) :
    storeEvent (.isRevoked id) false ∉ es := by
  have hne : ∀ e ∈ es, e ≠ storeEvent (.isRevoked id) false := by
    refine h.forall_mem (I := fun L => id ∈ L.revoked)
      (fun _ _ _ _ h hL => (ledger_revoked_iff h id).mpr (.inl hL)) hid ?_
    rintro e L L' hL hstep rfl
    exact absurd ((ledger_isRevoked hstep).mpr hL) (by simp)
  exact fun he => hne _ he rfl

end Exec

/-! ## Runs of a pool -/

section Run

variable {ι : Type} [DecidableEq ι] {ps ps' : ι → Prog BrokerSig Reply} {m m' : MemStore}
  {tr : List (ι × Event BrokerSig)}

/-- A run over a `MemStore` is an execution of the ledger. -/
theorem exec_ledger (h : Run MemHandler ps m tr ps' m') :
    Exec LedgerHandler m.ledger (tr.map Prod.snd) m'.ledger :=
  h.exec.refine MemHandler.refines

/-- A finished verification ended along its events. -/
theorem verify_returns {S : Service} (h : Run MemHandler ps m tr ps' m') {i : ι}
    {env : AttestationEnvelope} {reply : Reply} (hi : ps i = (Call.verifyAttestation env).prog S)
    (hr : ps' i = .ret reply) :
    ∃ r, reply = .err r ∧ (S.broker.verifyAttestation env).Ends (of i tr) r := by
  have hends := h.ends hr
  rw [hi, Call.prog, ends_map] at hends
  obtain ⟨r, hends, heq⟩ := hends
  exact ⟨r, heq, hends⟩

theorem verify_ends {S : Service} (h : Run MemHandler ps m tr ps' m') {i : ι} {env : AttestationEnvelope}
    {r : Option GoError} (hi : ps i = (Call.verifyAttestation env).prog S) (hr : ps' i = .ret (.err r)) :
    (S.broker.verifyAttestation env).Ends (of i tr) r := by
  obtain ⟨r', heq, hends⟩ := verify_returns h hi hr
  cases heq
  exact hends

end Run

/-! ## Calls that run alone -/

theorem runMem_refines : Refines (Handler.graph (both MemStore.step Host.step)) MemHandler Prod.fst :=
  Refines.both fun _ _ _ _ h => h

theorem runPg_refines : Refines (Handler.graph (both Db.step Host.step)) PgHandler Prod.fst :=
  Refines.both fun _ _ _ _ h => .inl h

/-- The clock is read from its stream. -/
theorem exec_timeNow {m : MemStore} {w : Host} {es : List (Event BrokerSig)} {s : MemStore × Host}
    (h : Exec (Handler.graph (both MemStore.step Host.step)) (m, w) es s) {t : Time}
    (ht : hostEvent .timeNow t ∈ es) : ∃ k, t = w.clock k := by
  have hall : ∀ e ∈ es, ∀ t, e = hostEvent .timeNow t → ∃ k, t = w.clock k := by
    refine h.forall_mem (I := fun s => ∀ n, ∃ k, s.2.clock n = w.clock k) ?_ (fun n => ⟨n, rfl⟩) ?_
    · rintro (o | o) ⟨m, w'⟩ a s' hstep hw
      · obtain ⟨-, rfl⟩ := Prod.mk.inj hstep
        exact hw
      · obtain ⟨-, rfl⟩ := Prod.mk.inj hstep
        cases o with
        | timeNow => exact fun n => hw (n + 1)
        | _ => exact hw
    · rintro e ⟨m, w'⟩ s' hw hstep t rfl
      obtain ⟨rfl, -⟩ := Prod.mk.inj hstep
      exact hw 0
  exact hall _ ht t rfl

/-! ## A service to try things on -/

namespace Sample

/-- A broker whose signatures are the messages themselves. -/
def broker : Broker :=
  ⟨List.replicate 32 7, fun message sig => decide (sig = message), fun _ => List.replicate 32 1, lit "ws", false⟩

def uuid (n : Nat) : Bytes := uuidOut (List.replicate 15 0 ++ [UInt8.ofNat n])

/-- A policy that maps a subject of a provider to the sigil `uuid 1`. -/
def policyRow : OIDCPolicyRow := ⟨lit "iss", lit "sub", uuid 1, [lit "read", lit "write"], 300, true⟩

def oidc : OIDCBootstrap :=
  ⟨broker, .ofRows [policyRow], [(lit "iss", lit "url")], lit "aud", [], lit "ws", by decide, by decide⟩

def service : Service := ⟨broker, oidc, ⟨broker, lit "secret"⟩, rfl, rfl⟩

def noon : Time := ⟨43200, 0, 0⟩

def evening : Time := ⟨64800, 0, 0⟩

/-- It is noon; uuids and nonces are counted from `n`. -/
def host (n : Nat) : Host :=
  ⟨fun _ => noon, fun _ => noon, fun i => uuid (n + i), fun i => .ok [UInt8.ofNat (n + i)], id,
    fun _ _ _ _ _ => .ok (lit "sub"), [], [], [], [], 0, 0⟩

def cap (id sigilID : Bytes) (nonce : UInt8) : CapabilityToken :=
  ⟨id, sigilID, lit "read", noon, evening, some [nonce]⟩

/-- A signed envelope. -/
def envelope (sigilID : Bytes) (caps : List CapabilityToken) : AttestationEnvelope :=
  let env : AttestationEnvelope := ⟨version, sigilID, some caps, issuerName, noon, evening, none⟩
  { env with signature := some env.signedBytes }

theorem signatureValid_envelope (sigilID : Bytes) {caps : List CapabilityToken} (h : ∀ c ∈ caps, c.Marshals) :
    broker.SignatureValid (envelope sigilID caps) := by
  rw [Broker.signatureValid_iff]
  have hnoon : noon.Marshals := by decide
  have hevening : evening.Marshals := by decide
  exact ⟨⟨h, hnoon, hevening⟩, decide_eq_true rfl⟩

/-- A verification of a signed envelope is what follows the signature check. -/
theorem verify_envelope (sigilID : Bytes) {caps : List CapabilityToken} (h : ∀ c ∈ caps, c.Marshals) :
    (Call.verifyAttestation (envelope sigilID caps)).prog service =
      Reply.err <$> Broker.verifySigned (envelope sigilID caps) := by
  rw [Call.prog, service, Broker.verifyAttestation_of_valid (signatureValid_envelope sigilID h)]

/-- An envelope with one cap. -/
def env : AttestationEnvelope := envelope (uuid 1) [cap (uuid 2) (uuid 1) 7]

theorem verify_env : (Call.verifyAttestation env).prog service = Reply.err <$> Broker.verifySigned env :=
  verify_envelope _ (by decide)

/-- An envelope with two caps. -/
def twoCaps : AttestationEnvelope := envelope (uuid 1) [cap (uuid 2) (uuid 1) 7, cap (uuid 3) (uuid 1) 8]

theorem twoCaps_valid : service.broker.SignatureValid twoCaps := signatureValid_envelope _ (by decide)

theorem verify_twoCaps : (Call.verifyAttestation twoCaps).prog service = Reply.err <$> Broker.verifySigned twoCaps :=
  verify_envelope _ (by decide)

end Sample

end Hanko
