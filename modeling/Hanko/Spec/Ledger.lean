import Hanko.Framework.Refine
import Hanko.Impl.Store

/-!
# What a store is for

To the broker a store is three sets that only grow (`Ledger`): the sigils it
knows, the ids that are revoked, and the nonces that are consumed. `Step` is
what each operation may answer and how it changes them. A store implements
this through what its state means; the in-memory store does so for every
operation (`MemStore.refines`).
-/

namespace Hanko

open Bytes Interact

/-- The sigils that exist, the ids that are revoked, the nonces that are
consumed. -/
@[ext] structure Ledger where
  sigils : Set Bytes
  revoked : Set Bytes
  consumed : Set Bytes

namespace Ledger

/-- The error of a store for a sigil it does not know. -/
def sigilNotFound (id : Bytes) : GoError := .text (lit "store: sigil " ++ (id ++ lit " not found"))

/-- What the operations of a store answer, and what they change. -/
def Step : Handler StoreSig Ledger
  | .saveSigil s, L, a, L' => a = .ok () ∧ L' = { L with sigils := insert s.id L.sigils }
  | .getSigil id, L, a, L' =>
    L' = L ∧ ((∃ s, a = .ok s) ∧ id ∈ L.sigils ∨ a = .error (sigilNotFound id) ∧ id ∉ L.sigils)
  | .saveCap _, L, a, L' => a = .ok () ∧ L' = L
  | .getCap _, L, _, L' => L' = L
  | .nonceUsed n, L, a, L' => L' = L ∧ (a = true ↔ nonceBytes n ∈ L.consumed)
  | .recordNonce n, L, _, L' => L' = { L with consumed := insert (nonceBytes n) L.consumed }
  | .tryRecordNonce n, L, a, L' =>
    (a = true ↔ nonceBytes n ∉ L.consumed) ∧ L' = { L with consumed := insert (nonceBytes n) L.consumed }
  | .isRevoked id, L, a, L' => L' = L ∧ (a = true ↔ id ∈ L.revoked)
  | .revocationList, L, _, L' => L' = L
  | .revoke e, L, a, L' => a = .ok () ∧ L' = { L with revoked := insert e.id L.revoked }

/-- The operation records the nonce `n`: at once, or as its first user. -/
def Records (n : Bytes) (e : Event StoreSig) : Prop :=
  (∃ m, nonceBytes m = n ∧ e = ⟨.recordNonce m, ()⟩) ∨ ∃ m, nonceBytes m = n ∧ e = ⟨.tryRecordNonce m, true⟩

/-- The operation revokes `id`. -/
def Revokes (id : Bytes) (e : Event StoreSig) : Prop := ∃ entry a, entry.id = id ∧ e = ⟨.revoke entry, a⟩

/-- Nonces become consumed by being recorded, and stay so. -/
theorem mem_consumed_iff {o : StoreOp} {L L' : Ledger} {a : o.Ans} (h : Step o L a L') (n : Bytes) :
    n ∈ L'.consumed ↔ n ∈ L.consumed ∨ Records n ⟨o, a⟩ := by
  cases o with
  | recordNonce m =>
    obtain rfl := h
    simp [Records, or_comm, eq_comm]
  | tryRecordNonce m =>
    obtain ⟨ha, rfl⟩ := h
    simp only [Set.mem_insert_iff, Records]
    by_cases hm : n = nonceBytes m
    · subst hm
      cases a <;> simp_all
    · simp [hm, Ne.symm hm]
  | saveSigil | revoke => obtain ⟨-, rfl⟩ := h; simp [Records]
  | saveCap => obtain ⟨-, rfl⟩ := h; simp [Records]
  | getSigil | nonceUsed | isRevoked => obtain ⟨rfl, -⟩ := h; simp [Records]
  | getCap | revocationList => obtain rfl := h; simp [Records]

/-- Ids become revoked by being revoked, and stay so. -/
theorem mem_revoked_iff {o : StoreOp} {L L' : Ledger} {a : o.Ans} (h : Step o L a L') (id : Bytes) :
    id ∈ L'.revoked ↔ id ∈ L.revoked ∨ Revokes id ⟨o, a⟩ := by
  cases o with
  | revoke e =>
    obtain ⟨rfl, rfl⟩ := h
    simp [Revokes, or_comm, eq_comm]
  | saveSigil => obtain ⟨-, rfl⟩ := h; simp [Revokes]
  | tryRecordNonce => obtain ⟨-, rfl⟩ := h; simp [Revokes]
  | recordNonce => obtain rfl := h; simp [Revokes]
  | saveCap => obtain ⟨-, rfl⟩ := h; simp [Revokes]
  | getSigil | nonceUsed | isRevoked => obtain ⟨rfl, -⟩ := h; simp [Revokes]
  | getCap | revocationList => obtain rfl := h; simp [Revokes]

end Ledger

/-- What the state of a `MemStore` means. -/
def MemStore.ledger (m : MemStore) : Ledger where
  sigils := {id | (m.sigils id).isSome}
  revoked := {id | m.revokedIDs id}
  consumed := {n | m.nonces (hexEncode n)}

/-- The entries of a map keyed by hexadecimal. -/
theorem MemStore.mem_update_nonces (f : Bytes → Bool) (n : Bytes) :
    {k | Function.update f (hexEncode n) true (hexEncode k) = true} =
      insert n {k | f (hexEncode k) = true} := by
  ext k
  by_cases hk : k = n
  · simp [hk]
  · simp [Function.update_of_ne (hexEncode_injective.ne hk), hk]

/-- Every operation of a `MemStore` is one of the ledger it means. -/
theorem MemStore.refines : Refines (Handler.graph MemStore.step) Ledger.Step MemStore.ledger := by
  intro o m a m' h
  cases o with
  | saveSigil s =>
    obtain ⟨rfl, rfl⟩ := Prod.mk.inj h
    refine ⟨rfl, Ledger.ext ?_ rfl rfl⟩
    ext id
    by_cases hid : id = s.id <;> simp [MemStore.ledger, MemStore.saveSigil, Function.update_apply, hid]
  | getSigil id =>
    obtain ⟨rfl, rfl⟩ := Prod.mk.inj h
    refine ⟨rfl, ?_⟩
    cases hs : m.sigils id <;> simp [MemStore.getSigil, MemStore.ledger, hs, Ledger.sigilNotFound]
  | saveCap c => obtain ⟨rfl, rfl⟩ := Prod.mk.inj h; exact ⟨rfl, rfl⟩
  | getCap id => obtain ⟨rfl, rfl⟩ := Prod.mk.inj h; exact rfl
  | nonceUsed n => obtain ⟨rfl, rfl⟩ := Prod.mk.inj h; exact ⟨rfl, Iff.rfl⟩
  | recordNonce n =>
    obtain ⟨rfl, rfl⟩ := Prod.mk.inj h
    exact Ledger.ext rfl rfl (MemStore.mem_update_nonces _ _)
  | tryRecordNonce n =>
    by_cases hn : m.nonces (MemStore.hexEncodeNonce n) = true
    · obtain ⟨rfl, rfl⟩ : false = a ∧ m = m' := by
        simpa [Handler.graph, MemStore.step, MemStore.tryRecordNonce, hn] using h
      have hmem : nonceBytes n ∈ m.ledger.consumed := hn
      exact ⟨by simpa using hmem, by rw [Set.insert_eq_of_mem hmem]⟩
    · obtain ⟨rfl, rfl⟩ : true = a ∧
          { m with nonces := Function.update m.nonces (MemStore.hexEncodeNonce n) true } = m' := by
        simpa [Handler.graph, MemStore.step, MemStore.tryRecordNonce, hn] using h
      have hmem : nonceBytes n ∉ m.ledger.consumed := hn
      exact ⟨by simpa using hmem, Ledger.ext rfl rfl (MemStore.mem_update_nonces _ _)⟩
  | isRevoked id => obtain ⟨rfl, rfl⟩ := Prod.mk.inj h; exact ⟨rfl, Iff.rfl⟩
  | revocationList => obtain ⟨rfl, rfl⟩ := Prod.mk.inj h; exact rfl
  | revoke e =>
    obtain ⟨rfl, rfl⟩ := Prod.mk.inj h
    refine ⟨rfl, Ledger.ext rfl ?_ rfl⟩
    ext id
    by_cases hid : id = e.id <;> simp [MemStore.ledger, MemStore.revoke, Function.update_apply, hid]

end Hanko
