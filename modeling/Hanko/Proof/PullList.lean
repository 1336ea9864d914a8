import Hanko.Proof.Interchange

/-!
# The pull list and the point check

External verifiers pull the list of revocations; the broker asks about one id
at a time. A `MemStore` keeps an index beside its list, and a `PgStore` reads
one table by two queries. After any operations the two say the same, and what
is once listed stays listed (`pull_list_agrees`).
-/

namespace Hanko

open Bytes Interact

section Views

variable {σ : Type} (step : (o : StoreSig.Op) → σ → StoreSig.Ans o × σ)

/-- The list of revocations has an entry for an id. -/
def Listed (s : σ) (id : Bytes) : Prop := ∃ e ∈ (step .revocationList s).1, e.id = id

/-- In the states that operations lead to from `s₀`, the point check and the
list agree on the ids that satisfy `P`, and no id is taken from the list. -/
structure ViewsAgree (s₀ : σ) (P : Bytes → Prop) : Prop where
  isRevoked : ∀ es s, Exec (Handler.graph step) s₀ es s → ∀ id, P id →
    ((step (.isRevoked id) s).1 = true ↔ Listed step s id)
  kept : ∀ es s fs s', Exec (Handler.graph step) s₀ es s → Exec (Handler.graph step) s fs s' →
    ∀ id, Listed step s id → Listed step s' id

end Views

/-! ## The `MemStore` -/

namespace MemStore

/-- An operation appends to the list, or leaves it as it is. -/
theorem step_revs (o : StoreOp) (m : MemStore) : m.revs <+: (step o m).2.revs := by
  cases o with
  | revoke e => exact List.prefix_append _ _
  | tryRecordNonce n =>
    simp only [step, tryRecordNonce]
    split <;> exact List.prefix_refl _
  | saveSigil | getSigil | saveCap | getCap | nonceUsed | recordNonce | isRevoked | revocationList =>
    exact List.prefix_refl _

theorem exec_revs {m m' : MemStore} {es : List (Event StoreSig)} (h : Exec (Handler.graph step) m es m') :
    m.revs <+: m'.revs := by
  refine h.invariant (I := fun m' => m.revs <+: m'.revs) (fun o s a s' hstep hs => ?_) (List.prefix_refl _)
  obtain rfl : (step o s).2 = s' := congrArg Prod.snd hstep
  exact hs.trans (step_revs o s)

theorem viewsAgree : ViewsAgree step new fun _ => True where
  isRevoked _ m _ id _ := m.revoked_iff id
  kept := by
    rintro _ m fs m' - h id ⟨e, he, hid⟩
    exact ⟨e, (exec_revs h).subset he, hid⟩

end MemStore

/-! ## The `PgStore` -/

theorem length_uuidBytes {n : Nat} {s u r : Bytes} (h : uuidBytes n s = some (u, r)) : u.length = n := by
  induction n generalizing s u r with
  | zero =>
    rw [uuidBytes, Option.some.injEq, Prod.mk.injEq] at h
    rw [← h.1, List.length_nil]
  | succ n ih =>
    cases s with
    | nil => cases h
    | cons a s =>
      cases s with
      | nil => cases h
      | cons b s =>
        simp only [uuidBytes, Option.bind_eq_bind, Option.bind_eq_some_iff, Option.pure_def, Option.some.injEq,
          Prod.mk.injEq, Prod.exists] at h
        obtain ⟨x, -, y, -, bs, r', hrec, rfl, -⟩ := h
        rw [List.length_cons, ih hrec]

/-- A UUID has sixteen bytes. -/
theorem length_uuidIn {s u : Bytes} (h : uuidIn s = some u) : u.length = 16 := by
  rw [uuidIn] at h
  split at h
  · split at h
    · rename_i hu
      exact Option.some.inj h ▸ length_uuidBytes hu
    · cases h
  · split at h
    · rename_i hu
      exact Option.some.inj h ▸ length_uuidBytes hu
    · cases h

namespace Db

/-- The ids of revocations are UUIDs. -/
def KeysAreUuids (db : Db) : Prop := ∀ u ∈ db.revokedKeys, u.length = 16

theorem step_keysAreUuids {o : Stmt} {db db' : Db} {a : SqlSig.Ans o} (h : step o db = (a, db'))
    (hdb : db.KeysAreUuids) : db'.KeysAreUuids := by
  cases o with
  | insertRevocation =>
    rcases commit_eq_iff.mp h with ⟨k, h, -⟩ | ⟨e, -, -, rfl⟩
    · obtain ⟨⟨u, hu, hkeys⟩, -, -⟩ := insertRevocation_ok h
      intro v hv
      rcases (hkeys v).mp hv with hv | rfl
      · exact hdb v hv
      · exact length_uuidIn hu
    · exact hdb
  | upsertSigil =>
    rcases commit_eq_iff.mp h with ⟨k, h, -⟩ | ⟨e, -, -, rfl⟩
    · obtain ⟨_, hok, heq⟩ := map_eq_ok_iff.mp h
      obtain ⟨-, rfl⟩ := Prod.mk.inj heq
      rwa [KeysAreUuids, revokedKeys, (upsertSigil_ok hok).2.1]
    · exact hdb
  | upsertCap =>
    rcases commit_eq_iff.mp h with ⟨k, h, -⟩ | ⟨e, -, -, rfl⟩
    · obtain ⟨_, hok, heq⟩ := map_eq_ok_iff.mp h
      obtain ⟨-, rfl⟩ := Prod.mk.inj heq
      rwa [KeysAreUuids, revokedKeys, (upsertCap_ok hok).2.1]
    · exact hdb
  | insertNonce m =>
    rcases commit_eq_iff.mp h with ⟨k, h, -⟩ | ⟨e, -, -, rfl⟩
    · cases m with
      | none => cases h
      | some n =>
        rw [insertNonce_some] at h
        split at h <;> obtain ⟨-, rfl⟩ := Prod.mk.inj (Except.ok.inj h) <;> exact hdb
    · exact hdb
  | selectSigil | selectCap | existsNonce | selectRevocations | existsRevocation =>
    obtain ⟨-, rfl⟩ := Prod.mk.inj h
    exact hdb

end Db

namespace PgStore

variable (p : PgStore)

/-- What every statement keeps, every operation of the store does. -/
theorem exec_invariant {I : Db → Prop} (hI : ∀ o db a db', Db.step o db = (a, db') → I db → I db')
    {db db' : Db} {es : List (Event StoreSig)} (h : Exec (Handler.graph p.step) db es db') (hdb : I db) :
    I db' := by
  refine h.invariant (fun o s a s' hstep hs => ?_) hdb
  obtain rfl : (p.step o s).2 = s' := congrArg Prod.snd hstep
  obtain ⟨_, -, hx⟩ := Prog.exec_ends Db.step (p.impl o) s
  exact hx.invariant hI hs

/-- The list has the canonical texts of the keys. -/
theorem listed_iff {db : Db} {id : Bytes} : Listed p.step db id ↔ ∃ u ∈ db.revokedKeys, uuidOut u = id := by
  have hlist : (p.step .revocationList db).1 = (db.revocationEntries.insertionSort
      fun a b => a.2.revokedAt ≤ b.2.revokedAt).map fun r => ⟨uuidOut r.1, r.2.targetType, r.2.reason,
        p.scanTime r.2.revokedAt, r.2.revokedBy⟩ := rfl
  rw [Listed, hlist, Db.revokedKeys]
  constructor
  · rintro ⟨e, he, rfl⟩
    obtain ⟨r, hr, rfl⟩ := List.mem_map.mp he
    exact ⟨r.1, List.mem_map_of_mem ((List.mem_insertionSort _).mp hr), rfl⟩
  · rintro ⟨u, hu, rfl⟩
    obtain ⟨r, hr, rfl⟩ := List.mem_map.mp hu
    exact ⟨_, List.mem_map_of_mem ((List.mem_insertionSort _).mpr hr), rfl⟩

theorem viewsAgree : ViewsAgree p.step Db.empty Canonical where
  isRevoked es db h id hid := by
    have hkeys : db.KeysAreUuids := p.exec_invariant (fun _ _ _ _ => Db.step_keysAreUuids) h nofun
    obtain ⟨found, hstep, hfound⟩ : ∃ found, p.step (.isRevoked id) db = (found, db) ∧ _ := p.step_isRevoked hid
    rw [hstep, hfound, p.listed_iff]
    constructor
    · rintro ⟨u, -, rfl, hu⟩
      exact ⟨u, hu, rfl⟩
    · rintro ⟨u, hu, rfl⟩
      exact ⟨u, hkeys u hu, rfl, hu⟩
  kept := by
    intro _ db fs db' _ h id hid
    obtain ⟨u, hu, rfl⟩ := p.listed_iff.mp hid
    have hu' : u ∈ db'.revokedKeys :=
      p.exec_invariant (fun _ _ _ _ hstep => (Db.step_extends hstep).revokedKeys u) h hu
    exact p.listed_iff.mpr ⟨u, hu', rfl⟩

end PgStore

/-- An id is revoked if the list has an entry for it, and stays in the list;
the list of a `MemStore` only grows at its end. -/
theorem pull_list_agrees :
    ViewsAgree MemStore.step MemStore.new (fun _ => True) ∧
    (∀ es m fs m', Exec (Handler.graph MemStore.step) MemStore.new es m →
      Exec (Handler.graph MemStore.step) m fs m' →
      (MemStore.step .revocationList m).1 <+: (MemStore.step .revocationList m').1) ∧
    ∀ p : PgStore, ViewsAgree p.step Db.empty Canonical :=
  ⟨MemStore.viewsAgree, fun _ _ _ _ _ h => MemStore.exec_revs h, PgStore.viewsAgree⟩

end Hanko
