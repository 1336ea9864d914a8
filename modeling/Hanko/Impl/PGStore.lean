import Hanko.Impl.Postgres

/-!
# The nonces of the pgx store (`store/pgstore/pgstore.go`)

The replay record of `PGStore`: the methods `NonceUsed`, `RecordNonce` and
`TryRecordNonce` of `broker.Store`, each one statement, over the tables
`hanko_audit` and `consumed_nonces` of `migrationSQL`.
-/

namespace Hanko

open Bytes Interact

/-- The nonce methods of `broker.Store`. -/
inductive NonceOp where
  | nonceUsed (nonce : Option Bytes)
  | recordNonce (nonce : Option Bytes)
  | tryRecordNonce (nonce : Option Bytes)

abbrev NonceOp.Ans : NonceOp → Type
  | .nonceUsed _ => Bool
  | .recordNonce _ => Unit
  | .tryRecordNonce _ => Bool

/-- The nonce methods of `MemStore`. -/
def MemStore.nonceStep : (o : NonceOp) → MemStore → o.Ans × MemStore
  | .nonceUsed n, m => MemStore.step (.nonceUsed n) m
  | .recordNonce n, m => MemStore.step (.recordNonce n) m
  | .tryRecordNonce n, m => MemStore.step (.tryRecordNonce n) m

/-! ## The tables -/

/-- A row of `hanko_audit`, as far as it is read. -/
structure AuditRow where
  action : Bytes
  outcome : Bytes
  detail : Json

/-- The tables the nonces are in. -/
structure AuditDb where
  hankoAudit : List AuditRow
  consumedNonces : Bytes → Bool
  /-- `CHECK (outcome IN ('ok', 'denied', 'error'))`. -/
  outcomes : ∀ row ∈ hankoAudit, row.outcome ∈ [lit "ok", lit "denied", lit "error"]

/-- The statements of the nonce methods. -/
inductive AuditStmt where
  | existsAudit (action outcome nonce : Bytes)
  | insertAudit (action outcome detail : Bytes)
  | insertNonce (nonce : Option Bytes)

abbrev AuditStmt.Rows : AuditStmt → Type
  | .existsAudit .. => Bool
  | .insertAudit .. => Nat
  | .insertNonce _ => Nat

abbrev AuditSig : Sig := ⟨AuditStmt, fun o => Except PgError o.Rows⟩

/-- `detail->>'nonce'`, for a member that is a string. -/
def AuditRow.nonce (row : AuditRow) : Option Bytes :=
  match row.detail with
  | .obj kvs =>
    match kvs.lookup (lit "nonce") with
    | some (.str s) => some s
    | _ => none
  | _ => none

namespace AuditDb

/-- The schema, just created. -/
def empty : AuditDb := ⟨[], fun _ => false, by simp⟩

/-- `SELECT EXISTS(SELECT 1 FROM hanko_audit WHERE …)`. -/
def existsAudit (db : AuditDb) (action outcome nonce : Bytes) : Bool :=
  db.hankoAudit.any fun row => row.action = action ∧ row.outcome = outcome ∧ row.nonce = some nonce

/-- `INSERT INTO hanko_audit (action, outcome, detail)`. -/
def insertAudit (db : AuditDb) (action outcome detail : Bytes) : Except PgError (Nat × AuditDb) := do
  let action ← textParam action
  let outcome ← textParam outcome
  let detail ← jsonbParam detail
  if h : outcome ∈ [lit "ok", lit "denied", lit "error"] then
    return (1, { db with
      hankoAudit := db.hankoAudit ++ [⟨action, outcome, detail⟩]
      outcomes := by
        simp only [List.forall_mem_append, List.forall_mem_singleton]
        exact ⟨db.outcomes, h⟩ })
  else .error (sqlState "23514")

/-- `INSERT INTO consumed_nonces … ON CONFLICT (nonce) DO NOTHING`. -/
def insertNonce (db : AuditDb) (nonce : Option Bytes) : Except PgError (Nat × AuditDb) := do
  let nonce ← notNull nonce
  if db.consumedNonces nonce then return (0, db)
  else return (1, { db with consumedNonces := Function.update db.consumedNonces nonce true })

/-- What each statement does. -/
def step : (o : AuditSig.Op) → AuditDb → AuditSig.Ans o × AuditDb
  | .existsAudit action outcome nonce, db =>
    ((textParam nonce).map fun nonce => db.existsAudit action outcome nonce, db)
  | .insertAudit action outcome detail, db => commit db (db.insertAudit action outcome detail)
  | .insertNonce nonce, db => commit db (db.insertNonce nonce)

end AuditDb

/-! ## The store -/

namespace PGStore

/-- The audit log has a row of a verification with this nonce. -/
def nonceUsed (nonce : Option Bytes) : Prog AuditSig Bool := do
  let hexNonce := hexEncode (nonceBytes nonce)
  match ← Prog.call (S := AuditSig) (.existsAudit (lit "verify") (lit "ok") hexNonce) with
  | .ok used => return used
  | .error _ => return false

/-- Such a row is added to the audit log. -/
def recordNonce (nonce : Option Bytes) : Prog AuditSig Unit := do
  let hexNonce := hexEncode (nonceBytes nonce)
  let detailJSON := Json.marshal (.obj [(lit "nonce", .str hexNonce)])
  let _ ← Prog.call (S := AuditSig) (.insertAudit (lit "verify") (lit "ok") detailJSON)
  return ()

/-- An error is taken for "used". -/
def tryRecordNonce (nonce : Option Bytes) : Prog AuditSig Bool := do
  match ← Prog.call (S := AuditSig) (.insertNonce nonce) with
  | .ok rows => return rows = 1
  | .error _ => return false

/-- The nonce methods of `PGStore`. -/
def impl : (o : NonceOp) → Prog AuditSig o.Ans
  | .nonceUsed n => nonceUsed n
  | .recordNonce n => recordNonce n
  | .tryRecordNonce n => tryRecordNonce n

/-- A method, over a database that does not fail. -/
def nonceStep (o : NonceOp) (db : AuditDb) : o.Ans × AuditDb := (impl o).exec AuditDb.step db

end PGStore

end Hanko
