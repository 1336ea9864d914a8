import Hanko.Impl.System
import Hanko.Proof.Envelope

/-!
# What the statements of the database do

Each statement changes one table; the others it leaves alone. Nothing removes a
consumed nonce or a revocation, not even a statement that fails
(`Faulty.extends`).
-/

namespace Hanko

open Bytes Interact

namespace Db

/-- The ids of the revoked sigils and caps. -/
def revokedKeys (db : Db) : List Bytes := db.revocationEntries.map Prod.fst

theorem uuidParam_eq_ok {s u : Bytes} : uuidParam s = .ok u ↔ uuidIn s = some u := by
  rw [uuidParam]
  cases uuidIn s <;> simp

theorem map_eq_ok_iff {ε α β : Type} {f : α → β} {r : Except ε α} {b : β} :
    r.map f = .ok b ↔ ∃ a, r = .ok a ∧ f a = b := by
  cases r <;> simp [Except.map]

variable {db db' : Db}

theorem upsertSigil_ok {id subject : Bytes} {publicKey : Option Bytes} {createdAt : Time}
    {expiresAt : Option Time} {metadata : Bytes}
    (h : db.upsertSigil id subject publicKey createdAt expiresAt metadata = .ok db') :
    (∃ u row, uuidIn id = some u ∧ db'.sigils = Function.update db.sigils u (some row)) ∧
      db'.revocationEntries = db.revocationEntries ∧ db'.consumedNonces = db.consumedNonces := by
  simp only [upsertSigil, except_bind_eq_ok, uuidParam_eq_ok] at h
  obtain ⟨u, hu, _, -, _, -, _, -, _, -, _, -, heq⟩ := h
  obtain rfl := Except.ok.inj heq
  exact ⟨⟨u, _, hu, rfl⟩, rfl, rfl⟩

theorem upsertCap_ok {id sigilID scope : Bytes} {issuedAt expiresAt : Time} {nonce : Option Bytes}
    (h : db.upsertCap id sigilID scope issuedAt expiresAt nonce = .ok db') :
    db'.sigils = db.sigils ∧ db'.revocationEntries = db.revocationEntries ∧
      db'.consumedNonces = db.consumedNonces := by
  simp only [upsertCap, except_bind_eq_ok] at h
  obtain ⟨u, -, _, -, _, -, _, -, _, -, _, -, heq⟩ := h
  split at heq
  · obtain rfl := Except.ok.inj heq
    exact ⟨rfl, rfl, rfl⟩
  · split at heq
    · obtain rfl := Except.ok.inj heq
      exact ⟨rfl, rfl, rfl⟩
    · cases heq

theorem insertNonce_some (db : Db) (n : Bytes) :
    db.insertNonce (some n) = .ok (if db.consumedNonces n then (0, db)
      else (1, { db with consumedNonces := Function.update db.consumedNonces n true })) := by
  change (if _ then _ else _) = _
  split <;> rfl

theorem insertRevocation_ok {id targetType reason revokedBy : Bytes} {revokedAt : Time} {k : Nat}
    (h : db.insertRevocation id targetType reason revokedAt revokedBy = .ok (k, db')) :
    (∃ u, uuidIn id = some u ∧ ∀ v, v ∈ db'.revokedKeys ↔ v ∈ db.revokedKeys ∨ v = u) ∧
      db'.sigils = db.sigils ∧ db'.consumedNonces = db.consumedNonces := by
  simp only [insertRevocation, except_bind_eq_ok, uuidParam_eq_ok] at h
  obtain ⟨u, hu, _, -, _, -, _, -, _, -, heq⟩ := h
  split at heq
  · split at heq
    · rename_i hmem
      obtain ⟨rfl, rfl⟩ := Prod.mk.inj (Except.ok.inj heq)
      refine ⟨⟨u, hu, fun v => ⟨.inl, ?_⟩⟩, rfl, rfl⟩
      rintro (hv | rfl)
      · exact hv
      · exact hmem
    · obtain ⟨rfl, rfl⟩ := Prod.mk.inj (Except.ok.inj heq)
      exact ⟨⟨u, hu, fun v => by simp [revokedKeys]⟩, rfl, rfl⟩
  · cases heq

/-! ## What is kept -/

/-- What was consumed or revoked still is. -/
structure Extends (db db' : Db) : Prop where
  consumedNonces : ∀ n, db.consumedNonces n = true → db'.consumedNonces n = true
  revokedKeys : ∀ u ∈ db.revokedKeys, u ∈ db'.revokedKeys

theorem Extends.refl (db : Db) : Extends db db := ⟨fun _ => id, fun _ => id⟩

/-- A change to the other tables. -/
theorem Extends.of_eq (hr : db'.revocationEntries = db.revocationEntries)
    (hn : db'.consumedNonces = db.consumedNonces) : Extends db db' :=
  ⟨fun n => by rw [hn]; exact id, fun u => by rw [Db.revokedKeys, Db.revokedKeys, hr]; exact id⟩

theorem step_extends {o : Stmt} {a : SqlSig.Ans o} (h : step o db = (a, db')) : Extends db db' := by
  cases o with
  | upsertSigil =>
    rcases commit_eq_iff.mp h with ⟨k, h, -⟩ | ⟨e, -, -, rfl⟩
    · obtain ⟨_, hok, heq⟩ := map_eq_ok_iff.mp h
      obtain ⟨-, rfl⟩ := Prod.mk.inj heq
      exact .of_eq (upsertSigil_ok hok).2.1 (upsertSigil_ok hok).2.2
    · exact .refl _
  | upsertCap =>
    rcases commit_eq_iff.mp h with ⟨k, h, -⟩ | ⟨e, -, -, rfl⟩
    · obtain ⟨_, hok, heq⟩ := map_eq_ok_iff.mp h
      obtain ⟨-, rfl⟩ := Prod.mk.inj heq
      exact .of_eq (upsertCap_ok hok).2.1 (upsertCap_ok hok).2.2
    · exact .refl _
  | insertNonce m =>
    rcases commit_eq_iff.mp h with ⟨k, h, -⟩ | ⟨e, -, -, rfl⟩
    · cases m with
      | none => cases h
      | some n =>
        rw [insertNonce_some] at h
        split at h
        · obtain ⟨-, rfl⟩ := Prod.mk.inj (Except.ok.inj h)
          exact .refl _
        · obtain ⟨-, rfl⟩ := Prod.mk.inj (Except.ok.inj h)
          refine ⟨fun k hk => ?_, fun _ => id⟩
          by_cases hkn : k = n
          · simp [hkn]
          · simpa [Function.update_of_ne hkn] using hk
    · exact .refl _
  | insertRevocation =>
    rcases commit_eq_iff.mp h with ⟨k, h, -⟩ | ⟨e, -, -, rfl⟩
    · obtain ⟨⟨u, -, hkeys⟩, -, hn⟩ := insertRevocation_ok h
      exact ⟨fun n => by rw [hn]; exact id, fun v hv => (hkeys v).mpr (.inl hv)⟩
    · exact .refl _
  | selectSigil | selectCap | existsNonce | selectRevocations | existsRevocation =>
    obtain ⟨-, rfl⟩ := Prod.mk.inj h
    exact .refl _

theorem Faulty.extends {o : Stmt} {a : SqlSig.Ans o} (h : Faulty o db a db') : Extends db db' :=
  faulty_keeps step Extends.refl step_extends h

/-- One row is reported for a nonce that is new. -/
theorem Faulty.insertNonce {m : Option Bytes} (h : Faulty (.insertNonce m) db (.ok 1) db') :
    ∃ n, m = some n ∧ db.consumedNonces n = false ∧ db'.consumedNonces n = true := by
  rcases commit_eq_iff.mp (faulty_ok h) with ⟨k, h, hk⟩ | ⟨e, -, h, -⟩
  · obtain rfl : 1 = k := Except.ok.inj hk
    cases m with
    | none => cases h
    | some n =>
      rw [insertNonce_some] at h
      split at h
      · cases h
      · rename_i hn
        obtain ⟨-, rfl⟩ := Prod.mk.inj (Except.ok.inj h)
        exact ⟨n, rfl, by simpa using hn, by simp⟩
  · cases h

/-- A revocation that was reported is there. -/
theorem Faulty.insertRevocation {id targetType reason revokedBy : Bytes} {revokedAt : Time} {k : Nat}
    (h : Faulty (.insertRevocation id targetType reason revokedAt revokedBy) db (.ok k) db') :
    ∃ u, uuidIn id = some u ∧ u ∈ db'.revokedKeys := by
  rcases commit_eq_iff.mp (faulty_ok h) with ⟨k, h, -⟩ | ⟨e, -, h, -⟩
  · obtain ⟨⟨u, hu, hkeys⟩, -, -⟩ := insertRevocation_ok h
    exact ⟨u, hu, (hkeys u).mpr (.inr rfl)⟩
  · cases h

/-- A lookup that does not fail finds a revocation that is there. -/
theorem Faulty.existsRevocation {id u : Bytes} {found : Bool} (hu : uuidIn id = some u)
    (h : Faulty (.existsRevocation id) db (.ok found) db') : found = true ↔ u ∈ db.revokedKeys := by
  obtain ⟨h, -⟩ := Prod.mk.inj (faulty_ok h)
  rw [uuidParam, hu] at h
  obtain rfl := Except.ok.inj h
  exact decide_eq_true_iff

/-- The statements are carried out by a database that may fail, and nothing else
changes its tables. -/
structure Behind {T : Sig} (H : Handler (SqlSig.sum T) Db) : Prop where
  faulty : ∀ {o db a db'}, H (.inl o) db a db' → Faulty o db a db'
  rest : ∀ {o db a db'}, H (.inr o) db a db' → db' = db

theorem Behind.extends {T : Sig} {H : Handler (SqlSig.sum T) Db} (hH : Behind H) {o : (SqlSig.sum T).Op}
    {a : (SqlSig.sum T).Ans o} (h : H o db a db') : Extends db db' := by
  cases o with
  | inl o => exact Faulty.extends (hH.faulty h)
  | inr o =>
    obtain rfl := hH.rest h
    exact .refl _

end Db

theorem pg_behind : Db.Behind PgHandler := ⟨id, id⟩

end Hanko
