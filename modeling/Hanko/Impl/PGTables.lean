import Hanko.Impl.PGStore
import Hanko.Impl.System

/-!
# The pgx store (`store/pgstore/pgstore.go`)

All of `PGStore` that the broker uses: besides the nonces (`Impl.PGStore`), the sigils,
the caps and the revocations, over the tables of `migrationSQL`. They are not those of
`PgStore`: a row of `hanko_revocations` gets its time from the server, and names the
sigil that revoked, which has to exist.
-/

namespace Hanko

open Bytes Interact

/-! ## The tables -/

/-- A row of `hanko_revocations`. -/
structure HankoRevocation where
  targetType : Bytes
  targetID : Bytes
  reason : Bytes
  revokedAt : Int
  revokedBy : Bytes

/-- The tables, `hanko_sigils` and `hanko_caps` by their primary keys and
`hanko_revocations` in the order of its insertions. -/
structure HankoDb where
  /-- `hanko_audit` and `consumed_nonces`. -/
  audit : AuditDb
  hankoSigils : Bytes → Option SigilRow
  hankoCaps : Bytes → Option CapRow
  hankoRevocations : List HankoRevocation
  /-- What `now()` will return, in order. -/
  clock : Nat → Int
  /-- `sigil_id UUID NOT NULL REFERENCES hanko_sigils(id)`. -/
  caps_reference : ∀ id row, hankoCaps id = some row → (hankoSigils row.sigilID).isSome
  /-- `revoked_by UUID NOT NULL REFERENCES hanko_sigils(id)`. -/
  revocations_reference : ∀ row ∈ hankoRevocations, (hankoSigils row.revokedBy).isSome
  /-- `CHECK (target_type IN ('sigil', 'cap', 'attestation'))`. -/
  target_types : ∀ row ∈ hankoRevocations, row.targetType ∈ [lit "sigil", lit "cap", lit "attestation"]

/-- The statements of `PGStore`. -/
inductive HankoStmt where
  | nonces (o : AuditStmt)
  | upsertSigil (id subject : Bytes) (publicKey : Option Bytes) (createdAt : Time)
      (expiresAt : Option Time) (metadata : Bytes)
  | selectSigil (id : Bytes)
  | upsertCap (id sigilID scope : Bytes) (issuedAt expiresAt : Time) (nonce : Option Bytes)
  | selectCap (id : Bytes)
  | selectRevocations
  | existsRevocation (id : Bytes)
  | insertRevocation (targetType targetID reason revokedBy : Bytes)

abbrev HankoStmt.Rows : HankoStmt → Type
  | .nonces o => o.Rows
  | .upsertSigil .. => Nat
  | .selectSigil _ => Option (Bytes × SigilRow)
  | .upsertCap .. => Nat
  | .selectCap _ => Option (Bytes × CapRow)
  | .selectRevocations => List HankoRevocation
  | .existsRevocation _ => Bool
  | .insertRevocation .. => Nat

abbrev HankoSig : Sig := ⟨HankoStmt, fun o => Except PgError o.Rows⟩

namespace HankoDb

/-- Nothing but sigils in the tables. -/
def ofSigils (sigils : Bytes → Option SigilRow) (clock : Nat → Int) : HankoDb :=
  ⟨.empty, sigils, fun _ => none, [], clock, by simp, by simp, by simp⟩

/-- The schema, just created. -/
def empty (clock : Nat → Int) : HankoDb := .ofSigils (fun _ => none) clock

theorem isSome_update {db : HankoDb} {id u : Bytes} {row : SigilRow} (h : (db.hankoSigils u).isSome) :
    (Function.update db.hankoSigils id (some row) u).isSome := by
  by_cases hu : u = id
  · simp [hu]
  · rwa [Function.update_of_ne hu]

/-- `INSERT INTO hanko_sigils … ON CONFLICT (id) DO UPDATE`: `created_at` stays. -/
def upsertSigil (db : HankoDb) (id subject : Bytes) (publicKey : Option Bytes) (createdAt : Time)
    (expiresAt : Option Time) (metadata : Bytes) : Except PgError (Nat × HankoDb) := do
  let id ← uuidParam id
  let subject ← textParam subject
  let publicKey ← notNull publicKey
  let createdAt ← timeParam createdAt
  let expiresAt ← expiresAt.mapM timeParam
  let metadata ← jsonbParam metadata
  let createdAt := ((db.hankoSigils id).map SigilRow.createdAt).getD createdAt
  return (1, { db with
    hankoSigils := Function.update db.hankoSigils id (some ⟨subject, publicKey, createdAt, expiresAt, metadata⟩)
    caps_reference := fun c row h => isSome_update (db.caps_reference c row h)
    revocations_reference := fun row h => isSome_update (db.revocations_reference row h) })

/-- `INSERT INTO hanko_caps … ON CONFLICT (id) DO UPDATE`: `sigil_id` and `issued_at`
stay. -/
def upsertCap (db : HankoDb) (id sigilID scope : Bytes) (issuedAt expiresAt : Time) (nonce : Option Bytes) :
    Except PgError (Nat × HankoDb) := do
  let id ← uuidParam id
  let sigilID ← uuidParam sigilID
  let scope ← textParam scope
  let issuedAt ← timeParam issuedAt
  let expiresAt ← timeParam expiresAt
  let nonce ← notNull nonce
  let row := (db.hankoCaps id).elim ⟨sigilID, scope, issuedAt, expiresAt, nonce⟩ fun row =>
    { row with scope, expiresAt, nonce }
  if hs : (db.hankoSigils row.sigilID).isSome then
    return (1, { db with
      hankoCaps := Function.update db.hankoCaps id (some row)
      caps_reference := fun c r hr => by
        by_cases hc : c = id
        · subst hc
          obtain rfl : row = r := by simpa using hr
          exact hs
        · exact db.caps_reference c r (by simpa [Function.update_of_ne hc] using hr) })
  else .error (sqlState "23503")

/-- `INSERT INTO hanko_revocations (target_type, target_id, reason, revoked_by)`: the
time is `DEFAULT now()`. -/
def insertRevocation (db : HankoDb) (targetType targetID reason revokedBy : Bytes) :
    Except PgError (Nat × HankoDb) := do
  let targetType ← textParam targetType
  let targetID ← uuidParam targetID
  let reason ← textParam reason
  let revokedBy ← uuidParam revokedBy
  if ht : targetType ∈ [lit "sigil", lit "cap", lit "attestation"] then
    if hs : (db.hankoSigils revokedBy).isSome then
      return (1, { db with
        hankoRevocations := db.hankoRevocations ++ [⟨targetType, targetID, reason, db.clock 0, revokedBy⟩]
        clock := fun n => db.clock (n + 1)
        revocations_reference := by
          simp only [List.forall_mem_append, List.forall_mem_singleton]
          exact ⟨db.revocations_reference, hs⟩
        target_types := by
          simp only [List.forall_mem_append, List.forall_mem_singleton]
          exact ⟨db.target_types, ht⟩ })
    else .error (sqlState "23503")
  else .error (sqlState "23514")

/-- What each statement does. -/
def step : (o : HankoSig.Op) → HankoDb → HankoSig.Ans o × HankoDb
  | .nonces o, db => ((AuditDb.step o db.audit).1, { db with audit := (AuditDb.step o db.audit).2 })
  | .upsertSigil id subject publicKey createdAt expiresAt metadata, db =>
    commit db (db.upsertSigil id subject publicKey createdAt expiresAt metadata)
  | .selectSigil id, db => ((uuidParam id).map fun u => (db.hankoSigils u).map (u, ·), db)
  | .upsertCap id sigilID scope issuedAt expiresAt nonce, db =>
    commit db (db.upsertCap id sigilID scope issuedAt expiresAt nonce)
  | .selectCap id, db => ((uuidParam id).map fun u => (db.hankoCaps u).map (u, ·), db)
  | .selectRevocations, db => (.ok (db.hankoRevocations.insertionSort fun a b => b.revokedAt ≤ a.revokedAt), db)
  | .existsRevocation id, db =>
    ((uuidParam id).map fun u => db.hankoRevocations.any fun row => row.targetID = u, db)
  | .insertRevocation targetType targetID reason revokedBy, db =>
    commit db (db.insertRevocation targetType targetID reason revokedBy)

/-- A database whose statements may fail: with no effect, or with the effect
committed and the answer lost. -/
def Faulty : Handler HankoSig HankoDb := Handler.faulty step

end HankoDb

/-! ## The store -/

namespace PGStore

/-- `fmt.Errorf("pgstore.method: %w", err)`. -/
def methodError (method : String) (e : PgError) : GoError := .text (lit "pgstore." ++ (lit method ++ (lit ": " ++ e)))

/-- The kind of a value in an error of `json.Unmarshal`. -/
def kind : Json → Bytes
  | .null => lit "null"
  | .bool _ => lit "bool"
  | .num _ => lit "number"
  | .str _ => lit "string"
  | .arr _ => lit "array"
  | .obj _ => lit "object"

/-- `json.Unmarshal(metaJSON, &sig.Metadata)`: the entries, or the text of the error. -/
def unmarshalMetadata : Json → Except Bytes (List (Bytes × Bytes))
  | .null => .ok []
  | .obj kvs =>
    match kvs.find? fun kv => PgStore.scanEntry kv = none with
    | some kv => .error (lit "json: cannot unmarshal " ++ (kind kv.2 ++ lit " into Go value of type string"))
    | none => .ok (kvs.filterMap PgStore.scanEntry)
  | v => .error (lit "json: cannot unmarshal " ++ (kind v ++ lit " into Go value of type map[string]string"))

def saveSigil (s : Sigil) : Prog HankoSig (Except GoError Unit) := do
  let r ← .call (S := HankoSig) (.upsertSigil s.id s.subject s.publicKey s.createdAt s.expiresAt
    (Json.marshal (PgStore.metadataJson s.metadata)))
  return (r.map fun _ => ()).mapError (methodError "SaveSigil")

def getSigil (p : PgStore) (id : Bytes) : Prog HankoSig (Except GoError Sigil) := do
  match ← Prog.call (S := HankoSig) (.selectSigil id) with
  | .ok (some (u, row)) =>
    match unmarshalMetadata row.metadata with
    | .ok metadata =>
      return .ok ⟨uuidOut u, row.subject, some row.publicKey, p.scanTime row.createdAt,
        row.expiresAt.map p.scanTime, metadata⟩
    | .error e => return .error (methodError "GetSigil" (lit "unmarshal metadata: " ++ e))
  | .ok none => return .error (.text (lit "pgstore: sigil " ++ (id ++ lit " not found")))
  | .error e => return .error (methodError "GetSigil" e)

def saveCap (c : CapabilityToken) : Prog HankoSig (Except GoError Unit) := do
  let r ← .call (S := HankoSig) (.upsertCap c.id c.sigilID c.scope c.issuedAt c.expiresAt c.nonce)
  return (r.map fun _ => ()).mapError (methodError "SaveCap")

def getCap (p : PgStore) (id : Bytes) : Prog HankoSig (Except GoError CapabilityToken) := do
  match ← Prog.call (S := HankoSig) (.selectCap id) with
  | .ok (some (u, row)) =>
    return .ok ⟨uuidOut u, uuidOut row.sigilID, row.scope, p.scanTime row.issuedAt,
      p.scanTime row.expiresAt, some row.nonce⟩
  | .ok none => return .error (.text (lit "pgstore: cap " ++ (id ++ lit " not found")))
  | .error e => return .error (methodError "GetCap" e)

/-- The nonce methods, over all the tables. -/
def overTables {α : Type} (p : Prog AuditSig α) : Prog HankoSig α := p.interp fun o => .call (S := HankoSig) (.nonces o)

/-- An error is taken for an empty list. -/
def revocationList (p : PgStore) : Prog HankoSig (List RevocationEntry) := do
  match ← Prog.call (S := HankoSig) .selectRevocations with
  | .ok rows => return rows.map fun r =>
    ⟨uuidOut r.targetID, r.targetType, r.reason, p.scanTime r.revokedAt, uuidOut r.revokedBy⟩
  | .error _ => return []

/-- An error is taken for "not revoked". -/
def isRevoked (id : Bytes) : Prog HankoSig Bool := do
  match ← Prog.call (S := HankoSig) (.existsRevocation id) with
  | .ok found => return found
  | .error _ => return false

/-- The time of the entry is not stored. -/
def revoke (entry : RevocationEntry) : Prog HankoSig (Except GoError Unit) := do
  let r ← .call (S := HankoSig) (.insertRevocation entry.targetType entry.id entry.reason entry.revokedBy)
  return (r.map fun _ => ()).mapError (methodError "Revoke")

/-- `PGStore` as a `broker.Store`. The driver gives times in the local zone of the
process, as it does to a `PgStore`. -/
def store (p : PgStore) : (o : StoreSig.Op) → Prog HankoSig (StoreSig.Ans o)
  | .saveSigil s => saveSigil s
  | .getSigil id => getSigil p id
  | .saveCap c => saveCap c
  | .getCap id => getCap p id
  | .nonceUsed n => overTables (nonceUsed n)
  | .recordNonce n => overTables (recordNonce n)
  | .tryRecordNonce n => overTables (tryRecordNonce n)
  | .isRevoked id => isRevoked id
  | .revocationList => revocationList p
  | .revoke e => revoke e

end PGStore

/-- A program of the broker over a `PGStore`. -/
def overTables {α : Type} (p : Prog BrokerSig α) (pg : PgStore) : Prog (HankoSig.sum HostSig) α :=
  p.interp (Prog.lift HostSig (PGStore.store pg))

/-- A program of the broker, run alone over a `PGStore` whose database does not fail. -/
def runTables {α : Type} (p : Prog BrokerSig α) (pg : PgStore) (db : HankoDb) (w : Host) : α × (HankoDb × Host) :=
  (overTables p pg).exec (both HankoDb.step Host.step) (db, w)

/-- Programs of clients that run concurrently over one database, any statement of
which may fail. -/
def HankoHandler : Handler (HankoSig.sum HostSig) HankoDb := Handler.opened HostSig HankoDb.Faulty

end Hanko
