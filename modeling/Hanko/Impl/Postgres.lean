import Hanko.Framework.Transaction
import Hanko.Impl.Store

/-!
# The Postgres store (`store/postgres.go`, `migrations_sql/001_initial.sql`)

`PgStore` turns each method of `broker.Store` into one SQL statement. `Db` is
the database of the schema: its tables, primary keys, foreign key and checks,
and what each statement does to them. A statement may also fail for reasons
of its own, before or after it took effect (`Db.Faulty`).
-/

namespace Hanko

open Bytes Interact

/-! ## Column types -/

/-- The bytes of a UUID, read from its text: two digits for each, with a hyphen
allowed after every second byte but the last. `n` is the number of bytes that
are left. -/
def uuidBytes : Nat → Bytes → Option (Bytes × Bytes)
  | 0, s => some ([], s)
  | n + 1, a :: b :: s => do
    let x ← hexValue a
    let y ← hexValue b
    let s := if s.head? = some 45 ∧ n % 2 = 0 ∧ 0 < n then s.tail else s
    let (bs, s) ← uuidBytes n s
    return (UInt8.ofNat (16 * x + y) :: bs, s)
  | _ + 1, _ => none

/-- `uuid_in`: braces around the digits are allowed. -/
def uuidIn (s : Bytes) : Option Bytes :=
  if s.head? = some 123 then
    match uuidBytes 16 s.tail with
    | some (u, [125]) => some u
    | _ => none
  else
    match uuidBytes 16 s with
    | some (u, []) => some u
    | _ => none

/-- `uuid_out`, and `uuid.UUID.String`: the canonical text of a UUID. -/
def uuidOut (u : Bytes) : Bytes :=
  hexEncode (u.take 4) ++ 45 :: (hexEncode ((u.drop 4).take 2) ++ 45 :: (hexEncode ((u.drop 6).take 2) ++
    45 :: (hexEncode ((u.drop 8).take 2) ++ 45 :: hexEncode (u.drop 10))))

/-- The text of an error of the server or the driver. -/
abbrev PgError := Bytes

/-- An error the server reports with an SQLSTATE. -/
def sqlState (code : String) : PgError := lit "ERROR: (SQLSTATE " ++ (lit code ++ lit ")")

def uuidParam (s : Bytes) : Except PgError Bytes :=
  match uuidIn s with
  | some u => .ok u
  | none => .error (sqlState "22P02")

/-- A `TEXT`: valid UTF-8 without NUL. -/
def textParam (s : Bytes) : Except PgError Bytes :=
  if ValidUtf8 s ∧ 0 ∉ s then .ok s else .error (sqlState "22021")

/-- A `NOT NULL` column. -/
def notNull {α : Type} : Option α → Except PgError α
  | some a => .ok a
  | none => .error (sqlState "23502")

/-- A `TIMESTAMPTZ`: microseconds since 1970, from 4714-11-24 BC to the end of
the year 294276. -/
def timeParam (t : Time) : Except PgError Int :=
  if -210866803200 ≤ t.sec ∧ t.sec < 9224318016000 then .ok (t.sec * 1000000 + t.nsec.val / 1000)
  else .error (sqlState "22008")

mutual

/-- A `JSONB` cannot hold the character U+0000. -/
def noNul : Json → Bool
  | .null => true
  | .bool _ => true
  | .num _ => true
  | .str s => 0 ∉ s
  | .arr xs => noNulItems xs
  | .obj kvs => noNulMembers kvs

def noNulItems : List Json → Bool
  | [] => true
  | x :: xs => noNul x && noNulItems xs

def noNulMembers : List (Bytes × Json) → Bool
  | [] => true
  | (k, v) :: kvs => 0 ∉ k && noNul v && noNulMembers kvs

end

def jsonbParam (bs : Bytes) : Except PgError Json :=
  match Json.unmarshalAny bs with
  | some v => if noNul v then .ok v else .error (sqlState "22P05")
  | none => .error (sqlState "22P02")

/-! ## Tables -/

structure SigilRow where
  subject : Bytes
  publicKey : Bytes
  createdAt : Int
  expiresAt : Option Int
  metadata : Json

structure CapRow where
  sigilID : Bytes
  scope : Bytes
  issuedAt : Int
  expiresAt : Int
  nonce : Bytes

structure RevocationRow where
  targetType : Bytes
  reason : Bytes
  revokedAt : Int
  revokedBy : Bytes

/-- The tables, each by its primary key. `revocation_entries` is in the order
of its insertions. -/
structure Db where
  sigils : Bytes → Option SigilRow
  capabilityTokens : Bytes → Option CapRow
  revocationEntries : List (Bytes × RevocationRow)
  consumedNonces : Bytes → Bool
  /-- `sigil_id UUID NOT NULL REFERENCES sigils(id)`. -/
  references_sigils : ∀ id row, capabilityTokens id = some row → (sigils row.sigilID).isSome
  /-- `id UUID PRIMARY KEY`. -/
  revocation_keys : (revocationEntries.map Prod.fst).Nodup

/-- The statements of `PgStore`. -/
inductive Stmt where
  | upsertSigil (id subject : Bytes) (publicKey : Option Bytes) (createdAt : Time)
      (expiresAt : Option Time) (metadata : Bytes)
  | selectSigil (id : Bytes)
  | upsertCap (id sigilID scope : Bytes) (issuedAt expiresAt : Time) (nonce : Option Bytes)
  | selectCap (id : Bytes)
  | existsNonce (nonce : Option Bytes)
  | insertNonce (nonce : Option Bytes)
  | selectRevocations
  | existsRevocation (id : Bytes)
  | insertRevocation (id targetType reason : Bytes) (revokedAt : Time) (revokedBy : Bytes)

/-- What a statement returns: the rows it read, or how many it affected. -/
abbrev Stmt.Rows : Stmt → Type
  | .upsertSigil .. => Nat
  | .selectSigil _ => Option (Bytes × SigilRow)
  | .upsertCap .. => Nat
  | .selectCap _ => Option (Bytes × CapRow)
  | .existsNonce _ => Bool
  | .insertNonce _ => Nat
  | .selectRevocations => List (Bytes × RevocationRow)
  | .existsRevocation _ => Bool
  | .insertRevocation .. => Nat

abbrev SqlSig : Sig := ⟨Stmt, fun o => Except PgError o.Rows⟩

namespace Db

/-- The schema, just created. -/
def empty : Db := ⟨fun _ => none, fun _ => none, [], fun _ => false, by simp, by simp⟩

/-- `INSERT INTO sigils … ON CONFLICT (id) DO UPDATE`: `created_at` stays. -/
def upsertSigil (db : Db) (id subject : Bytes) (publicKey : Option Bytes) (createdAt : Time)
    (expiresAt : Option Time) (metadata : Bytes) : Except PgError Db := do
  let id ← uuidParam id
  let subject ← textParam subject
  let publicKey ← notNull publicKey
  let createdAt ← timeParam createdAt
  let expiresAt ← expiresAt.mapM timeParam
  let metadata ← jsonbParam metadata
  let createdAt := ((db.sigils id).map SigilRow.createdAt).getD createdAt
  return { db with
    sigils := Function.update db.sigils id (some ⟨subject, publicKey, createdAt, expiresAt, metadata⟩)
    references_sigils := fun c row h => by
      by_cases hid : row.sigilID = id
      · simp [hid]
      · simpa [Function.update_of_ne hid] using db.references_sigils c row h }

/-- `INSERT INTO capability_tokens … ON CONFLICT (id) DO UPDATE`: `sigil_id` and
`issued_at` stay. -/
def upsertCap (db : Db) (id sigilID scope : Bytes) (issuedAt expiresAt : Time) (nonce : Option Bytes) :
    Except PgError Db := do
  let id ← uuidParam id
  let sigilID ← uuidParam sigilID
  let scope ← textParam scope
  let issuedAt ← timeParam issuedAt
  let expiresAt ← timeParam expiresAt
  let nonce ← notNull nonce
  match h : db.capabilityTokens id with
  | some row =>
    return { db with
      capabilityTokens := Function.update db.capabilityTokens id
        (some { row with scope, expiresAt, nonce })
      references_sigils := fun c r hr => by
        by_cases hc : c = id
        · subst hc
          obtain rfl : _ = r := by simpa using hr
          exact db.references_sigils c row h
        · exact db.references_sigils c r (by simpa [Function.update_of_ne hc] using hr) }
  | none =>
    if hs : (db.sigils sigilID).isSome then
      return { db with
        capabilityTokens := Function.update db.capabilityTokens id
          (some ⟨sigilID, scope, issuedAt, expiresAt, nonce⟩)
        references_sigils := fun c r hr => by
          by_cases hc : c = id
          · subst hc
            obtain rfl : _ = r := by simpa using hr
            exact hs
          · exact db.references_sigils c r (by simpa [Function.update_of_ne hc] using hr) }
    else .error (sqlState "23503")

/-- `INSERT INTO consumed_nonces … ON CONFLICT DO NOTHING`: how many rows were
inserted. -/
def insertNonce (db : Db) (nonce : Option Bytes) : Except PgError (Nat × Db) := do
  let nonce ← notNull nonce
  if db.consumedNonces nonce then return (0, db)
  else return (1, { db with consumedNonces := Function.update db.consumedNonces nonce true })

/-- `INSERT INTO revocation_entries … ON CONFLICT (id) DO NOTHING`. -/
def insertRevocation (db : Db) (id targetType reason : Bytes) (revokedAt : Time) (revokedBy : Bytes) :
    Except PgError (Nat × Db) := do
  let id ← uuidParam id
  let targetType ← textParam targetType
  let reason ← textParam reason
  let revokedAt ← timeParam revokedAt
  let revokedBy ← textParam revokedBy
  if targetType = lit "sigil" ∨ targetType = lit "cap" ∨ targetType = lit "attestation" then
    if h : id ∈ db.revocationEntries.map Prod.fst then return (0, db)
    else
      return (1, { db with
        revocationEntries := db.revocationEntries ++ [(id, ⟨targetType, reason, revokedAt, revokedBy⟩)]
        revocation_keys := by
          rw [List.map_append, List.nodup_append]
          exact ⟨db.revocation_keys, by simp, by rintro a ha b hb rfl; simp_all⟩ })
  else .error (sqlState "23514")

/-- What each statement does. -/
def step : (o : SqlSig.Op) → Db → SqlSig.Ans o × Db
  | .upsertSigil id subject publicKey createdAt expiresAt metadata, db =>
    commit db ((db.upsertSigil id subject publicKey createdAt expiresAt metadata).map (1, ·))
  | .selectSigil id, db => ((uuidParam id).map fun u => (db.sigils u).map (u, ·), db)
  | .upsertCap id sigilID scope issuedAt expiresAt nonce, db =>
    commit db ((db.upsertCap id sigilID scope issuedAt expiresAt nonce).map (1, ·))
  | .selectCap id, db => ((uuidParam id).map fun u => (db.capabilityTokens u).map (u, ·), db)
  | .existsNonce nonce, db => (.ok (nonce.elim false db.consumedNonces), db)
  | .insertNonce nonce, db => commit db (db.insertNonce nonce)
  | .selectRevocations, db =>
    (.ok (db.revocationEntries.insertionSort fun a b => a.2.revokedAt ≤ b.2.revokedAt), db)
  | .existsRevocation id, db =>
    ((uuidParam id).map fun u => decide (u ∈ db.revocationEntries.map Prod.fst), db)
  | .insertRevocation id targetType reason revokedAt revokedBy, db =>
    commit db (db.insertRevocation id targetType reason revokedAt revokedBy)

/-- A database whose statements may fail: with no effect, or with the effect
committed and the answer lost. -/
def Faulty : Handler SqlSig Db := Handler.faulty step

end Db

/-! ## The store -/

/-- `PgStore`. The driver gives times in the local zone of the process, whose
offset at each instant is `localOffset`. -/
structure PgStore where
  localOffset : Int → Int

namespace PgStore

/-- A `TIMESTAMPTZ` as a `time.Time`. -/
def scanTime (p : PgStore) (us : Int) : Time :=
  ⟨us / 1000000, Fin.ofNat 1000000000 (us % 1000000 * 1000).toNat, p.localOffset (us / 1000000)⟩

/-- An entry of a `map[string]string`. -/
def scanEntry : Bytes × Json → Option (Bytes × Bytes)
  | (k, .str s) => some (k, s)
  | (k, .null) => some (k, [])
  | _ => none

/-- `json.Unmarshal(meta, &s.Metadata)`, and what takes its place if it fails. -/
def scanMetadata : Json → List (Bytes × Bytes)
  | .obj kvs => (kvs.mapM scanEntry).getD []
  | _ => []

def metadataJson (metadata : List (Bytes × Bytes)) : Json := .obj (metadata.map fun kv => (kv.1, .str kv.2))

/-- `fmt.Errorf("store: method id: %w", err)`. -/
def storeError (method : String) (id : Bytes) (e : PgError) : GoError :=
  .text (lit "store: " ++ (lit method ++ (lit " " ++ (id ++ (lit ": " ++ e)))))

def saveSigil (s : Sigil) : Prog SqlSig (Except GoError Unit) := do
  let r ← .call (S := SqlSig) (.upsertSigil s.id s.subject s.publicKey s.createdAt s.expiresAt
    (Json.marshal (metadataJson s.metadata)))
  return (r.map fun _ => ()).mapError (storeError "SaveSigil" s.id)

def getSigil (p : PgStore) (id : Bytes) : Prog SqlSig (Except GoError Sigil) := do
  match ← Prog.call (S := SqlSig) (.selectSigil id) with
  | .ok (some (u, row)) =>
    return .ok ⟨uuidOut u, row.subject, some row.publicKey, p.scanTime row.createdAt,
      row.expiresAt.map p.scanTime, scanMetadata row.metadata⟩
  | .ok none => return .error (.text (lit "store: sigil " ++ (id ++ lit " not found")))
  | .error e => return .error (storeError "GetSigil" id e)

def saveCap (c : CapabilityToken) : Prog SqlSig (Except GoError Unit) := do
  let r ← .call (S := SqlSig) (.upsertCap c.id c.sigilID c.scope c.issuedAt c.expiresAt c.nonce)
  return (r.map fun _ => ()).mapError (storeError "SaveCap" c.id)

def getCap (p : PgStore) (id : Bytes) : Prog SqlSig (Except GoError CapabilityToken) := do
  match ← Prog.call (S := SqlSig) (.selectCap id) with
  | .ok (some (u, row)) =>
    return .ok ⟨uuidOut u, uuidOut row.sigilID, row.scope, p.scanTime row.issuedAt,
      p.scanTime row.expiresAt, some row.nonce⟩
  | .ok none => return .error (.text (lit "store: cap " ++ (id ++ lit " not found")))
  | .error e => return .error (storeError "GetCap" id e)

/-- An error is taken for "not used". -/
def nonceUsed (nonce : Option Bytes) : Prog SqlSig Bool := do
  match ← Prog.call (S := SqlSig) (.existsNonce nonce) with
  | .ok used => return used
  | .error _ => return false

/-- An error is not looked at. -/
def recordNonce (nonce : Option Bytes) : Prog SqlSig Unit := do
  let _ ← Prog.call (S := SqlSig) (.insertNonce nonce)

def recordNonceStrict (nonce : Option Bytes) : Prog SqlSig (Except GoError Bool) := do
  match ← Prog.call (S := SqlSig) (.insertNonce nonce) with
  | .ok n => return .ok (n = 1)
  | .error e => return .error (.text (lit "store: RecordNonceStrict: " ++ e))

/-- An error is taken for a replay. -/
def tryRecordNonce (nonce : Option Bytes) : Prog SqlSig Bool := do
  match ← recordNonceStrict nonce with
  | .ok first => return first
  | .error _ => return false

/-- An error is taken for an empty list. -/
def revocationList (p : PgStore) : Prog SqlSig (List RevocationEntry) := do
  match ← Prog.call (S := SqlSig) .selectRevocations with
  | .ok rows => return rows.map fun r => ⟨uuidOut r.1, r.2.targetType, r.2.reason, p.scanTime r.2.revokedAt,
      r.2.revokedBy⟩
  | .error _ => return []

/-- `return err == nil && exists`: an error is taken for "not revoked". -/
def isRevoked (id : Bytes) : Prog SqlSig Bool := do
  match ← Prog.call (S := SqlSig) (.existsRevocation id) with
  | .ok found => return found
  | .error _ => return false

def revoke (entry : RevocationEntry) : Prog SqlSig (Except GoError Unit) := do
  let r ← .call (S := SqlSig) (.insertRevocation entry.id entry.targetType entry.reason entry.revokedAt
    entry.revokedBy)
  return (r.map fun _ => ()).mapError (storeError "Revoke" entry.id)

/-- `PgStore` as a `broker.Store`. -/
def impl (p : PgStore) : (o : StoreSig.Op) → Prog SqlSig (StoreSig.Ans o)
  | .saveSigil s => saveSigil s
  | .getSigil id => p.getSigil id
  | .saveCap c => saveCap c
  | .getCap id => p.getCap id
  | .nonceUsed n => nonceUsed n
  | .recordNonce n => recordNonce n
  | .tryRecordNonce n => tryRecordNonce n
  | .isRevoked id => isRevoked id
  | .revocationList => p.revocationList
  | .revoke e => revoke e

end PgStore

end Hanko
