import Hanko.Framework.Json.Jcs
import Hanko.Impl.PGStore
import Hanko.Proof.Verdict

/-!
# The replay record of the pgx store

The nonce methods of a store are to answer as one record of the nonces they
were given (`Coherent`). Those of `MemStore` do. In `PGStore` the table that
`RecordNonce` writes and `NonceUsed` reads is not the one `TryRecordNonce`
uses, so that its answers are those of one record only where the calls make
the two tables agree (`pgstore_coherent_iff`).
-/

namespace Hanko

open Bytes Interact

/-! ## The contract -/

/-- The call records the nonce `n`. -/
def NonceOp.Takes (n : Bytes) : NonceOp → Prop
  | .nonceUsed _ => False
  | .recordNonce m => nonceBytes m = n
  | .tryRecordNonce m => nonceBytes m = n

/-- One of the calls recorded `n`. -/
def Taken (before : List NonceOp) (n : Bytes) : Prop := ∃ o ∈ before, o.Takes n

/-- The answer of a call that was made after others. -/
def Honest (before : List NonceOp) : (o : NonceOp) → o.Ans → Prop
  | .nonceUsed n, a => a = true ↔ Taken before (nonceBytes n)
  | .recordNonce _, _ => True
  | .tryRecordNonce n, a => a = true ↔ ¬ Taken before (nonceBytes n)

section

variable {σ : Type} (step : (o : NonceOp) → σ → o.Ans × σ) (s : σ)

/-- The state after some calls. -/
def afterCalls (calls : List NonceOp) : σ := calls.foldl (fun s o => (step o s).2) s

theorem afterCalls_snoc (calls : List NonceOp) (o : NonceOp) :
    afterCalls step s (calls ++ [o]) = (step o (afterCalls step s calls)).2 := by
  simp [afterCalls]

/-- In a sequence of calls, every answer is that of one record. -/
def Coherent (calls : List NonceOp) : Prop :=
  ∀ before o rest, calls = before ++ o :: rest → Honest before o (step o (afterCalls step s before)).1

end

theorem taken_snoc {before : List NonceOp} {o : NonceOp} {n : Bytes} :
    Taken (before ++ [o]) n ↔ Taken before n ∨ o.Takes n := by
  simp [Taken, or_and_right, exists_or]

/-! ## In memory -/

theorem MemStore.nonceUsed_congr (m : MemStore) {n k : Option Bytes} (h : nonceBytes k = nonceBytes n) :
    m.nonceUsed k = m.nonceUsed n := by
  rw [nonceUsed, nonceUsed, hexEncodeNonce, hexEncodeNonce, h]

/-- One call. -/
theorem MemStore.nonceUsed_nonceStep (m : MemStore) (o : NonceOp) (n : Option Bytes) :
    (nonceStep o m).2.nonceUsed n = true ↔ m.nonceUsed n = true ∨ o.Takes (nonceBytes n) := by
  cases o with
  | nonceUsed k => simp [nonceStep, step, NonceOp.Takes]
  | recordNonce k =>
    rw [NonceOp.Takes, eq_comm (a := nonceBytes k)]
    exact m.nonceUsed_recordNonce k n
  | tryRecordNonce k =>
    simp only [nonceStep, step, tryRecordNonce_eq, NonceOp.Takes]
    split
    · rename_i hused
      refine ⟨.inl, fun h => h.elim id fun heq => ?_⟩
      rw [m.nonceUsed_congr heq.symm, hused]
    · rw [nonceUsed_recordNonce, eq_comm (a := nonceBytes n)]

theorem MemStore.nonceUsed_after (calls : List NonceOp) (n : Option Bytes) :
    (afterCalls nonceStep new calls).nonceUsed n = true ↔ Taken calls (nonceBytes n) := by
  induction calls using List.reverseRecOn with
  | nil => simp [afterCalls, new, nonceUsed, Taken]
  | append_singleton calls o ih => rw [afterCalls_snoc, taken_snoc, nonceUsed_nonceStep, ih]

/-- `MemStore` keeps one record. -/
theorem MemStore.coherent (calls : List NonceOp) : Coherent nonceStep new calls := by
  rintro before o rest rfl
  cases o with
  | nonceUsed n => exact nonceUsed_after before n
  | recordNonce n => trivial
  | tryRecordNonce n =>
    have hused := nonceUsed_after before n
    simp only [Honest, nonceStep, step, tryRecordNonce_eq, ← hused]
    split <;> simp_all

/-! ## In the database -/

theorem plain_hexEncode (bs : Bytes) : Json.Plain (hexEncode bs) := by
  have hdigit : ∀ d < 16, Json.isPlain (hexDigit d) = true := by decide
  simp only [Json.Plain, hexEncode, List.mem_flatMap, List.mem_cons, List.not_mem_nil, or_false]
  rintro c ⟨b, -, rfl | rfl⟩
  · exact hdigit _ (Nat.div_lt_of_lt_mul (UInt8.toNat_lt b))
  · exact hdigit _ (Nat.mod_lt _ (by decide))

theorem zero_notMem_hexEncode (bs : Bytes) : 0 ∉ hexEncode bs := fun h => absurd (plain_hexEncode bs 0 h) (by decide)

theorem textParam_hexEncode (bs : Bytes) : textParam (hexEncode bs) = .ok (hexEncode bs) :=
  if_pos ⟨valid_of_isPlain (plain_hexEncode bs), zero_notMem_hexEncode bs⟩

namespace PGStore

/-- What `RecordNonce` puts in `detail`. -/
def detail (n : Bytes) : Json := .obj [(lit "nonce", .str (hexEncode n))]

theorem jsonbParam_detail (n : Bytes) : jsonbParam (Json.marshal (detail n)) = .ok (detail n) := by
  have hp : Json.Proper (detail n) :=
    ⟨by simp, valid_lit _, valid_of_isPlain (plain_hexEncode n), trivial⟩
  have hnul : noNul (detail n) = true := by
    simp only [detail, noNul, noNulMembers, zero_notMem_hexEncode]
    decide
  rw [jsonbParam, Json.unmarshalAny_marshal hp (show 1 ≤ Json.maxNestingDepth by decide)]
  exact if_pos hnul

/-- The audit log has the nonce. -/
def Audited (db : AuditDb) (n : Bytes) : Prop := db.existsAudit (lit "verify") (lit "ok") (hexEncode n) = true

theorem nonceStep_nonceUsed (n : Option Bytes) (db : AuditDb) :
    nonceStep (.nonceUsed n) db = (db.existsAudit (lit "verify") (lit "ok") (hexEncode (nonceBytes n)), db) := by
  simp only [nonceStep, impl, nonceUsed, Prog.call, Prog.bind_eq, Prog.ask_bind, Prog.ret_bind, Prog.exec_ask,
    AuditDb.step, textParam_hexEncode]
  rfl

theorem insertAudit_detail (db : AuditDb) (n : Bytes) :
    ∃ db', db.insertAudit (lit "verify") (lit "ok") (Json.marshal (detail n)) = .ok (1, db') ∧
      db'.hankoAudit = db.hankoAudit ++ [⟨lit "verify", lit "ok", detail n⟩] ∧
      db'.consumedNonces = db.consumedNonces := by
  have hverify : textParam (lit "verify") = .ok (lit "verify") := if_pos ⟨valid_lit _, by decide⟩
  have hok : textParam (lit "ok") = .ok (lit "ok") := if_pos ⟨valid_lit _, by decide⟩
  rw [AuditDb.insertAudit, hverify, hok, jsonbParam_detail]
  have hcheck : lit "ok" ∈ [lit "ok", lit "denied", lit "error"] := List.mem_cons_self
  simp only [bind, Except.bind, hcheck, ↓reduceDIte]
  exact ⟨_, rfl, rfl, rfl⟩

theorem nonceStep_recordNonce (n : Option Bytes) (db : AuditDb) :
    (nonceStep (.recordNonce n) db).2.hankoAudit =
        db.hankoAudit ++ [⟨lit "verify", lit "ok", detail (nonceBytes n)⟩] ∧
      (nonceStep (.recordNonce n) db).2.consumedNonces = db.consumedNonces := by
  obtain ⟨db', hinsert, haudit, hconsumed⟩ := insertAudit_detail db (nonceBytes n)
  have hstep : (nonceStep (.recordNonce n) db).2 = db' := by
    simp only [nonceStep, impl, recordNonce, Prog.call, Prog.bind_eq, Prog.ask_bind, Prog.ret_bind, Prog.exec_ask,
      AuditDb.step]
    rw [← detail, hinsert]
    rfl
  rw [hstep]
  exact ⟨haudit, hconsumed⟩

theorem nonceStep_tryRecordNonce_none (db : AuditDb) : nonceStep (.tryRecordNonce none) db = (false, db) := rfl

theorem nonceStep_tryRecordNonce_some (n : Bytes) (db : AuditDb) :
    nonceStep (.tryRecordNonce (some n)) db =
      (!db.consumedNonces n, { db with consumedNonces := Function.update db.consumedNonces n true }) := by
  cases hn : db.consumedNonces n with
  | false =>
    have hinsert : db.insertNonce (some n) =
        .ok (1, { db with consumedNonces := Function.update db.consumedNonces n true }) :=
      if_neg (by simp [hn])
    simp only [nonceStep, impl, tryRecordNonce, Prog.call, Prog.bind_eq, Prog.ask_bind, Prog.ret_bind,
      Prog.exec_ask, AuditDb.step, hinsert]
    rfl
  | true =>
    have hinsert : db.insertNonce (some n) = .ok (0, db) := if_pos hn
    have hsame : Function.update db.consumedNonces n true = db.consumedNonces :=
      Function.update_eq_self_iff.mpr hn.symm
    simp only [nonceStep, impl, tryRecordNonce, Prog.call, Prog.bind_eq, Prog.ask_bind, Prog.ret_bind,
      Prog.exec_ask, AuditDb.step, hinsert, hsame]
    rfl

/-- One call: what is in the audit log. -/
theorem audited_nonceStep (o : NonceOp) (db : AuditDb) (n : Bytes) :
    Audited (nonceStep o db).2 n ↔ Audited db n ∨ ∃ k, o = .recordNonce k ∧ nonceBytes k = n := by
  cases o with
  | nonceUsed k => simp [nonceStep_nonceUsed]
  | recordNonce k =>
    have hrow : ((⟨lit "verify", lit "ok", detail (nonceBytes k)⟩ : AuditRow).nonce = some (hexEncode n)) ↔
        nonceBytes k = n := by
      rw [← hexEncode_injective.eq_iff (a := nonceBytes k)]
      exact Option.some_inj
    simp [Audited, AuditDb.existsAudit, (nonceStep_recordNonce k db).1, hrow]
  | tryRecordNonce k =>
    cases k with
    | none => simp [nonceStep_tryRecordNonce_none]
    | some b => simp [nonceStep_tryRecordNonce_some, Audited, AuditDb.existsAudit]

/-- One call: what is in `consumed_nonces`. -/
theorem consumed_nonceStep (o : NonceOp) (db : AuditDb) (n : Bytes) :
    (nonceStep o db).2.consumedNonces n = true ↔ db.consumedNonces n = true ∨ o = .tryRecordNonce (some n) := by
  cases o with
  | nonceUsed k => simp [nonceStep_nonceUsed]
  | recordNonce k => simp [(nonceStep_recordNonce k db).2]
  | tryRecordNonce k =>
    cases k with
    | none => simp [nonceStep_tryRecordNonce_none]
    | some b =>
      rw [nonceStep_tryRecordNonce_some]
      by_cases h : n = b
      · simp [h]
      · simp [Function.update_of_ne h, Ne.symm h]

variable (calls : List NonceOp) (n : Bytes)

theorem audited_after :
    Audited (afterCalls nonceStep .empty calls) n ↔ ∃ k, .recordNonce k ∈ calls ∧ nonceBytes k = n := by
  induction calls using List.reverseRecOn with
  | nil => simp [afterCalls, Audited, AuditDb.existsAudit, AuditDb.empty]
  | append_singleton calls o ih =>
    rw [afterCalls_snoc, audited_nonceStep, ih]
    simp only [List.mem_append, List.mem_singleton, or_and_right, exists_or, eq_comm]

theorem consumed_after :
    (afterCalls nonceStep .empty calls).consumedNonces n = true ↔ .tryRecordNonce (some n) ∈ calls := by
  induction calls using List.reverseRecOn with
  | nil => simp [afterCalls, AuditDb.empty]
  | append_singleton calls o ih =>
    rw [afterCalls_snoc, consumed_nonceStep, ih, List.mem_append, List.mem_singleton, eq_comm (b := o)]

end PGStore

/-! ## Where the tables agree -/

/-- The calls before `o` have put its nonce in the table `o` looks at, if they
have recorded it at all. A nil nonce is in no table. -/
def NonceOp.Covered (before : List NonceOp) : NonceOp → Prop
  | .nonceUsed n => Taken before (nonceBytes n) → ∃ k, .recordNonce k ∈ before ∧ nonceBytes k = nonceBytes n
  | .recordNonce _ => True
  | .tryRecordNonce (some n) => Taken before n → .tryRecordNonce (some n) ∈ before
  | .tryRecordNonce none => Taken before []

theorem Taken.of_mem {before : List NonceOp} {o : NonceOp} (h : o ∈ before) {n : Bytes} (ho : o.Takes n) :
    Taken before n :=
  ⟨o, h, ho⟩

theorem PGStore.honest_iff (before : List NonceOp) (o : NonceOp) :
    Honest before o (nonceStep o (afterCalls nonceStep .empty before)).1 ↔ o.Covered before := by
  cases o with
  | nonceUsed n =>
    rw [nonceStep_nonceUsed, Honest, NonceOp.Covered]
    have haudited := audited_after before (nonceBytes n)
    rw [Audited] at haudited
    rw [haudited]
    exact ⟨Iff.mpr, fun h => ⟨fun ⟨k, hk, heq⟩ => .of_mem hk heq, h⟩⟩
  | recordNonce n => exact Iff.rfl
  | tryRecordNonce n =>
    cases n with
    | none => simp [nonceStep_tryRecordNonce_none, Honest, NonceOp.Covered]
    | some n =>
      have hconsumed := consumed_after before n
      rw [nonceStep_tryRecordNonce_some, Honest, NonceOp.Covered, Bool.not_eq_true', ← Bool.not_eq_true, hconsumed,
        not_iff_not]
      exact ⟨Iff.mpr, fun h => ⟨fun hk => .of_mem hk rfl, h⟩⟩

/-- The answers of `PGStore` in a sequence of calls are those of one record if
every call finds the nonces that were recorded in the table it looks at. -/
theorem pgstore_coherent_iff (calls : List NonceOp) :
    Coherent PGStore.nonceStep .empty calls ↔
      ∀ before o rest, calls = before ++ o :: rest → o.Covered before :=
  forall₃_congr fun before o _ => forall_congr' fun _ => PGStore.honest_iff before o

/-- Two calls that both look at the audit table. -/
theorem pgstore_coherent_sample :
    Coherent PGStore.nonceStep .empty [.recordNonce (some [7]), .nonceUsed (some [7])] := by
  refine (pgstore_coherent_iff _).mpr fun before o rest h => ?_
  rcases before with _ | ⟨_, _ | ⟨_, before⟩⟩
  · obtain ⟨rfl, -⟩ := List.cons.inj h
    trivial
  · simp only [List.cons_append, List.nil_append, List.cons.injEq] at h
    obtain ⟨rfl, rfl, -⟩ := h
    exact fun _ => ⟨some [7], List.mem_cons_self, rfl⟩
  · simp at h

/-- A nonce that `TryRecordNonce` took is unused to `NonceUsed`, one that
`RecordNonce` took is free to `TryRecordNonce`, and the nil nonce never is. -/
theorem pgstore_records_disagree :
    (PGStore.nonceStep (.nonceUsed (some [7]))
      (afterCalls PGStore.nonceStep .empty [.tryRecordNonce (some [7])])).1 = false ∧
    (PGStore.nonceStep (.tryRecordNonce (some [7]))
      (afterCalls PGStore.nonceStep .empty [.recordNonce (some [7])])).1 = true ∧
    (PGStore.nonceStep (.tryRecordNonce none) .empty).1 = false ∧
    ¬ Coherent PGStore.nonceStep .empty [.tryRecordNonce (some [7]), .nonceUsed (some [7])] ∧
    ¬ Coherent PGStore.nonceStep .empty [.recordNonce (some [7]), .tryRecordNonce (some [7])] ∧
    ¬ Coherent PGStore.nonceStep .empty [.tryRecordNonce none] := by
  refine ⟨by rw [PGStore.nonceStep_nonceUsed]; rfl, ?_, rfl, fun h => ?_, fun h => ?_, fun h => ?_⟩
  · have hnot : (afterCalls PGStore.nonceStep .empty [.recordNonce (some [7])]).consumedNonces [7] = false := by
      rw [← Bool.not_eq_true, PGStore.consumed_after]
      simp
    rw [PGStore.nonceStep_tryRecordNonce_some, hnot]
    rfl
  · obtain ⟨k, hk, -⟩ := (PGStore.honest_iff [.tryRecordNonce (some [7])] _).mp (h [_] _ [] rfl)
      (.of_mem List.mem_cons_self rfl)
    simp at hk
  · have hk := (PGStore.honest_iff [.recordNonce (some [7])] _).mp (h [_] _ [] rfl)
      (.of_mem List.mem_cons_self rfl)
    simp at hk
  · obtain ⟨o, ho, -⟩ := (PGStore.honest_iff [] _).mp (h [] _ [] rfl)
    cases ho

end Hanko
