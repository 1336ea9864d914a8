import Hanko.Framework.Prog
import Hanko.Impl.Protocol

/-!
# The store interface and the in-memory store (`broker.Store`, `store/mem.go`)

The operations of `broker.Store` as an interface, and `MemStore`, whose
methods each hold the store's lock throughout and so are atomic.
-/

namespace Hanko

open Bytes Interact

/-- The methods of `broker.Store`. -/
inductive StoreOp where
  | saveSigil (s : Sigil)
  | getSigil (id : Bytes)
  | saveCap (c : CapabilityToken)
  | getCap (id : Bytes)
  | nonceUsed (nonce : Option Bytes)
  | recordNonce (nonce : Option Bytes)
  | tryRecordNonce (nonce : Option Bytes)
  | isRevoked (id : Bytes)
  | revocationList
  | revoke (entry : RevocationEntry)

/-- What each method returns. -/
abbrev StoreOp.Ans : StoreOp → Type
  | .saveSigil _ => Except GoError Unit
  | .getSigil _ => Except GoError Sigil
  | .saveCap _ => Except GoError Unit
  | .getCap _ => Except GoError CapabilityToken
  | .nonceUsed _ => Bool
  | .recordNonce _ => Unit
  | .tryRecordNonce _ => Bool
  | .isRevoked _ => Bool
  | .revocationList => List RevocationEntry
  | .revoke _ => Except GoError Unit

abbrev StoreSig : Sig := ⟨StoreOp, StoreOp.Ans⟩

/-- The bytes of a nonce, `nil` being the empty string of bytes. -/
abbrev nonceBytes (nonce : Option Bytes) : Bytes := nonce.getD []

/-- `MemStore`. The index of revoked ids and the list of revocations belong
together. -/
structure MemStore where
  sigils : Bytes → Option Sigil
  caps : Bytes → Option CapabilityToken
  revs : List RevocationEntry
  /-- The revoked ids. -/
  revokedIDs : Bytes → Bool
  /-- The consumed nonces, in hexadecimal. -/
  nonces : Bytes → Bool
  /-- An id is revoked if the list has an entry for it. -/
  revoked_iff : ∀ id, revokedIDs id = true ↔ ∃ e ∈ revs, e.id = id

namespace MemStore

/-- `NewMemStore`. -/
def new : MemStore := ⟨fun _ => none, fun _ => none, [], fun _ => false, fun _ => false, by simp⟩

def saveSigil (m : MemStore) (s : Sigil) : MemStore :=
  { m with sigils := Function.update m.sigils s.id (some s) }

def getSigil (m : MemStore) (id : Bytes) : Except GoError Sigil :=
  match m.sigils id with
  | some s => .ok s
  | none => .error (.text (lit "store: sigil " ++ (id ++ lit " not found")))

def saveCap (m : MemStore) (c : CapabilityToken) : MemStore :=
  { m with caps := Function.update m.caps c.id (some c) }

def getCap (m : MemStore) (id : Bytes) : Except GoError CapabilityToken :=
  match m.caps id with
  | some c => .ok c
  | none => .error (.text (lit "store: cap " ++ (id ++ lit " not found")))

def hexEncodeNonce (nonce : Option Bytes) : Bytes := hexEncode (nonceBytes nonce)

def nonceUsed (m : MemStore) (nonce : Option Bytes) : Bool := m.nonces (hexEncodeNonce nonce)

def recordNonce (m : MemStore) (nonce : Option Bytes) : MemStore :=
  { m with nonces := Function.update m.nonces (hexEncodeNonce nonce) true }

/-- The check and the write are one step. -/
def tryRecordNonce (m : MemStore) (nonce : Option Bytes) : Bool × MemStore :=
  let key := hexEncodeNonce nonce
  if m.nonces key then (false, m) else (true, { m with nonces := Function.update m.nonces key true })

def isRevoked (m : MemStore) (id : Bytes) : Bool := m.revokedIDs id

def revocationList (m : MemStore) : List RevocationEntry := m.revs

def revoke (m : MemStore) (entry : RevocationEntry) : MemStore :=
  { m with
    revs := m.revs ++ [entry]
    revokedIDs := Function.update m.revokedIDs entry.id true
    revoked_iff := by
      intro id
      by_cases h : id = entry.id
      · simp [h]
      · simp [Function.update_of_ne h, m.revoked_iff, or_and_right, exists_or, Ne.symm h] }

/-- `MemStore` as a `broker.Store`. -/
def step : (o : StoreSig.Op) → MemStore → StoreSig.Ans o × MemStore
  | .saveSigil s, m => (.ok (), m.saveSigil s)
  | .getSigil id, m => (m.getSigil id, m)
  | .saveCap c, m => (.ok (), m.saveCap c)
  | .getCap id, m => (m.getCap id, m)
  | .nonceUsed n, m => (m.nonceUsed n, m)
  | .recordNonce n, m => ((), m.recordNonce n)
  | .tryRecordNonce n, m => m.tryRecordNonce n
  | .isRevoked id, m => (m.isRevoked id, m)
  | .revocationList, m => (m.revocationList, m)
  | .revoke e, m => (.ok (), m.revoke e)

end MemStore

end Hanko
