import Hanko.Proof.Issue
import Hanko.Proof.Postgres

/-!
# The two stores are interchangeable

Both stores implement the ledger (`Spec.Ledger`), the `PgStore` for operations
whose arguments the columns of the schema can hold (`Allowed`). A call of the
broker with such arguments asks only such operations, and looks at their answers
no closer than the ledger determines them (`Call.sim`). So a sequence of calls
returns the same over both (`stores_interchangeable`).
-/

namespace Hanko

open Bytes Interact

/-! ## Texts of UUIDs -/

theorem hexDigit_ne : ∀ n < 16, hexDigit n ≠ 45 ∧ hexDigit n ≠ 123 := by decide

theorem hexEncode_cons (b : UInt8) (bs : Bytes) :
    hexEncode (b :: bs) = hexDigit (b.toNat / 16) :: hexDigit (b.toNat % 16) :: hexEncode bs := rfl

/-- A byte is read from its digits; a hyphen that may follow is skipped. -/
theorem uuidBytes_cons (n : Nat) (b : UInt8) (s : Bytes) :
    uuidBytes (n + 1) (hexDigit (b.toNat / 16) :: hexDigit (b.toNat % 16) :: s) =
      (uuidBytes n (if s.head? = some 45 ∧ n % 2 = 0 ∧ 0 < n then s.tail else s)).map fun r =>
        (b :: r.1, r.2) := by
  have hb := b.toNat_lt
  rw [uuidBytes, hexValue_hexDigit _ (by omega), hexValue_hexDigit _ (by omega)]
  simp only [Option.bind_eq_bind, Option.bind_some, Option.pure_def, byte_of_digits, Option.map_eq_bind]
  rfl

theorem head?_hexEncode_ne (bs : Bytes) : (hexEncode bs).head? ≠ some 45 ∧ (hexEncode bs).head? ≠ some 123 := by
  cases bs with
  | nil => exact ⟨nofun, nofun⟩
  | cons b bs =>
    have hb := b.toNat_lt
    obtain ⟨h₁, h₂⟩ := hexDigit_ne (b.toNat / 16) (by omega)
    exact ⟨fun h => h₁ (Option.some.inj h), fun h => h₂ (Option.some.inj h)⟩

/-- A last group of digits. -/
theorem uuidBytes_last (bs : Bytes) : uuidBytes bs.length (hexEncode bs) = some (bs, []) := by
  induction bs with
  | nil => rfl
  | cons b bs ih =>
    rw [List.length_cons, hexEncode_cons, uuidBytes_cons, if_neg (fun h => (head?_hexEncode_ne bs).1 h.1), ih]
    rfl

/-- A group of digits before a hyphen. -/
theorem uuidBytes_group {k n : Nat} (hn : n % 2 = 0 ∧ 0 < n) (bs : Bytes) (hbs : bs.length = k + 1) (s : Bytes) :
    uuidBytes (k + 1 + n) (hexEncode bs ++ 45 :: s) = (uuidBytes n s).map fun r => (bs ++ r.1, r.2) := by
  induction k generalizing bs with
  | zero =>
    obtain ⟨b, rfl⟩ := List.length_eq_one_iff.mp hbs
    rw [Nat.zero_add, Nat.add_comm, hexEncode_cons]
    exact (uuidBytes_cons n b _).trans (by rw [if_pos ⟨rfl, hn⟩]; rfl)
  | succ k ih =>
    obtain ⟨b, bs, rfl⟩ := List.exists_cons_of_length_eq_add_one hbs
    have hlen : bs.length = k + 1 := Nat.succ.inj hbs
    have hhead : (hexEncode bs ++ 45 :: s).head? ≠ some 45 := by
      obtain ⟨c, bs', rfl⟩ := List.exists_cons_of_length_eq_add_one hlen
      exact (head?_hexEncode_ne (c :: bs')).1
    rw [show k + 1 + 1 + n = k + 1 + n + 1 by omega, hexEncode_cons, List.cons_append, List.cons_append,
      uuidBytes_cons, if_neg (fun h => hhead h.1), ih bs hlen, Option.map_map]
    rfl

/-- A UUID is read back from its canonical text. -/
theorem uuidIn_uuidOut {u : Bytes} (hu : u.length = 16) : uuidIn (uuidOut u) = some u := by
  have hlast : uuidBytes 6 (hexEncode (u.drop 10)) = some (u.drop 10, []) := by
    have hlen : (u.drop 10).length = 6 := by simp [hu]
    rw [← hlen]
    exact uuidBytes_last _
  have h₈ (s : Bytes) := uuidBytes_group (k := 1) (n := 6) (by decide) ((u.drop 8).take 2) (by simp [hu]) s
  have h₆ (s : Bytes) := uuidBytes_group (k := 1) (n := 8) (by decide) ((u.drop 6).take 2) (by simp [hu]) s
  have h₄ (s : Bytes) := uuidBytes_group (k := 1) (n := 10) (by decide) ((u.drop 4).take 2) (by simp [hu]) s
  have h₀ (s : Bytes) := uuidBytes_group (k := 3) (n := 12) (by decide) (u.take 4) (by simp [hu]) s
  have hhead : (uuidOut u).head? ≠ some 123 := by
    obtain ⟨b, bs, hb⟩ := List.exists_cons_of_length_eq_add_one (show (u.take 4).length = 3 + 1 by simp [hu])
    rw [uuidOut, hb]
    exact (head?_hexEncode_ne (b :: bs)).2
  have hbytes : u.take 4 ++ ((u.drop 4).take 2 ++ ((u.drop 6).take 2 ++ ((u.drop 8).take 2 ++ u.drop 10))) = u := by
    have hgroup (n : Nat) : (u.drop n).take 2 ++ u.drop (n + 2) = u.drop n := by
      rw [← List.drop_drop, List.take_append_drop]
    rw [hgroup 8, hgroup 6, hgroup 4, List.take_append_drop]
  simp only [Nat.reduceAdd] at h₀ h₄ h₆ h₈
  rw [uuidIn, if_neg hhead, uuidOut, h₀, h₄, h₆, h₈, hlast]
  simp only [Option.map_some, hbytes]

/-- The canonical text of a UUID. -/
def Canonical (id : Bytes) : Prop := ∃ u, u.length = 16 ∧ uuidOut u = id

/-- The canonical texts of the UUIDs that satisfy `P`. -/
def named (P : Bytes → Prop) : Set Bytes := {id | ∃ u, u.length = 16 ∧ uuidOut u = id ∧ P u}

theorem mem_named {P : Bytes → Prop} {u : Bytes} (hu : u.length = 16) : uuidOut u ∈ named P ↔ P u := by
  constructor
  · rintro ⟨v, hv, heq, hP⟩
    have hread := congrArg uuidIn heq
    rw [uuidIn_uuidOut hv, uuidIn_uuidOut hu] at hread
    exact Option.some.inj hread ▸ hP
  · exact fun hP => ⟨u, hu, rfl, hP⟩

theorem named_insert {P Q : Bytes → Prop} {u : Bytes} (hu : u.length = 16) (h : ∀ v, Q v ↔ P v ∨ v = u) :
    named Q = insert (uuidOut u) (named P) := by
  ext id
  constructor
  · rintro ⟨v, hv, rfl, hQ⟩
    rcases (h v).mp hQ with hP | rfl
    · exact .inr ⟨v, hv, rfl, hP⟩
    · exact .inl rfl
  · rintro (rfl | ⟨v, hv, rfl, hP⟩)
    · exact ⟨u, hu, rfl, (h u).mpr (.inr rfl)⟩
    · exact ⟨v, hv, rfl, (h v).mpr (.inl hP)⟩

/-! ## What the columns hold -/

/-- A string that a `TEXT` can hold. -/
def IsText (s : Bytes) : Prop := ValidUtf8 s ∧ 0 ∉ s

/-- A time that a `TIMESTAMPTZ` can hold. -/
def Time.InRange (t : Time) : Prop := -210866803200 ≤ t.sec ∧ t.sec < 9224318016000

/-- A `map[string]string` that a `JSONB` can hold. -/
def IsJsonb (metadata : List (Bytes × Bytes)) : Prop :=
  (metadata.map Prod.fst).Nodup ∧ ∀ kv ∈ metadata, IsText kv.1 ∧ IsText kv.2

theorem uuidParam_uuidOut {u : Bytes} (hu : u.length = 16) : uuidParam (uuidOut u) = .ok u :=
  Db.uuidParam_eq_ok.mpr (uuidIn_uuidOut hu)

theorem textParam_eq {s : Bytes} (h : IsText s) : textParam s = .ok s := if_pos h

theorem timeParam_eq {t : Time} (h : t.InRange) : timeParam t = .ok (t.sec * 1000000 + t.nsec.val / 1000) := if_pos h

theorem mapM_timeParam {t : Option Time} (h : ∀ x ∈ t, x.InRange) : ∃ us, t.mapM timeParam = .ok us := by
  cases t with
  | none => exact ⟨none, rfl⟩
  | some t => exact ⟨some _, by rw [Option.mapM_some, timeParam_eq (h t rfl)]; rfl⟩

theorem noNulMembers_iff {kvs : List (Bytes × Json)} :
    noNulMembers kvs = true ↔ ∀ kv ∈ kvs, 0 ∉ kv.1 ∧ noNul kv.2 = true := by
  induction kvs with
  | nil => simp [noNulMembers]
  | cons kv kvs ih => simp [noNulMembers, ih]

theorem jsonbParam_metadata {metadata : List (Bytes × Bytes)} (h : IsJsonb metadata) :
    ∃ v, jsonbParam (Json.marshal (PgStore.metadataJson metadata)) = .ok v := by
  obtain ⟨hkeys, htexts⟩ := h
  have hproper : Json.Proper (PgStore.metadataJson metadata) := by
    refine ⟨by simpa [Function.comp_def] using hkeys, Json.properMembers_iff.mpr fun kv hkv => ?_⟩
    obtain ⟨x, hx, rfl⟩ := List.mem_map.mp hkv
    exact ⟨(htexts x hx).1.1, (htexts x hx).2.1⟩
  have hdepth : Json.depth (PgStore.metadataJson metadata) ≤ Json.maxNestingDepth := by
    have hmembers : Json.depthMembers (metadata.map fun kv => (kv.1, .str kv.2)) ≤ 1 := by
      refine Json.depthMembers_le_iff.mpr fun kv hkv => ?_
      obtain ⟨x, -, rfl⟩ := List.mem_map.mp hkv
      exact Nat.zero_le _
    simp only [PgStore.metadataJson, Json.depth, Json.maxNestingDepth]
    omega
  have hnul : noNul (Json.sortKeys (PgStore.metadataJson metadata)) = true := by
    simp only [PgStore.metadataJson, Json.sortKeys, Json.sortMembers_eq, noNul, noNulMembers_iff,
      List.mem_insertionSort, List.mem_map]
    rintro _ ⟨_, ⟨x, hx, rfl⟩, rfl⟩
    exact ⟨(htexts x hx).1.2, by simpa [noNul, Json.sortKeys] using (htexts x hx).2.2⟩
  refine ⟨Json.sortKeys (PgStore.metadataJson metadata), ?_⟩
  rw [jsonbParam, Json.unmarshalAny_marshal hproper hdepth]
  exact if_pos hnul

/-! ## Statements that succeed -/

namespace Db

variable (db : Db)

theorem exists_upsertSigil (key : Bytes) {u subject : Bytes} {createdAt : Time} {expiresAt : Option Time}
    {metadata : List (Bytes × Bytes)} (hu : u.length = 16) (hsubject : IsText subject)
    (hcreated : createdAt.InRange) (hexpires : ∀ t ∈ expiresAt, t.InRange) (hmetadata : IsJsonb metadata) :
    ∃ db', db.upsertSigil (uuidOut u) subject (some key) createdAt expiresAt
      (Json.marshal (PgStore.metadataJson metadata)) = .ok db' := by
  obtain ⟨us, hus⟩ := mapM_timeParam hexpires
  obtain ⟨v, hv⟩ := jsonbParam_metadata hmetadata
  rw [upsertSigil, uuidParam_uuidOut hu, textParam_eq hsubject, timeParam_eq hcreated, hus, hv]
  exact ⟨_, rfl⟩

theorem exists_upsertCap (nonce : Bytes) {u v scope : Bytes} {issuedAt expiresAt : Time} (hu : u.length = 16)
    (hv : v.length = 16) (hscope : IsText scope) (hissued : issuedAt.InRange) (hexpires : expiresAt.InRange)
    (hsigil : (db.sigils v).isSome) :
    ∃ db', db.upsertCap (uuidOut u) (uuidOut v) scope issuedAt expiresAt (some nonce) = .ok db' := by
  rw [upsertCap, uuidParam_uuidOut hu, uuidParam_uuidOut hv, textParam_eq hscope, timeParam_eq hissued,
    timeParam_eq hexpires]
  simp only [notNull, bind, Except.bind]
  split
  · exact ⟨_, rfl⟩
  · rw [dif_pos hsigil]
    exact ⟨_, rfl⟩

theorem exists_insertRevocation {u targetType reason revokedBy : Bytes} {revokedAt : Time} (hu : u.length = 16)
    (htype : targetType = lit "sigil" ∨ targetType = lit "cap") (hreason : IsText reason)
    (hrevoked : revokedAt.InRange) (hby : IsText revokedBy) :
    ∃ k db', db.insertRevocation (uuidOut u) targetType reason revokedAt revokedBy = .ok (k, db') := by
  have htext : IsText targetType := by
    rcases htype with rfl | rfl
    · exact ⟨valid_lit _, by decide⟩
    · exact ⟨valid_lit _, by decide⟩
  have hcheck : targetType = lit "sigil" ∨ targetType = lit "cap" ∨ targetType = lit "attestation" :=
    htype.imp_right .inl
  rw [insertRevocation, uuidParam_uuidOut hu, textParam_eq htext, textParam_eq hreason, timeParam_eq hrevoked,
    textParam_eq hby]
  simp only [bind, Except.bind, if_pos hcheck]
  split
  · exact ⟨_, _, rfl⟩
  · exact ⟨_, _, rfl⟩

/-- What the tables mean. -/
def ledger : Ledger where
  sigils := named fun u => (db.sigils u).isSome
  revoked := named (· ∈ db.revokedKeys)
  consumed := {n | db.consumedNonces n}

end Db

/-! ## The `PgStore` implements the ledger -/

/-- An operation whose arguments the schema accepts. The broker asks no others. -/
def Allowed : StoreOp → Ledger → Prop
  | .saveSigil s, _ => Canonical s.id ∧ IsText s.subject ∧ s.publicKey.isSome ∧ s.createdAt.InRange ∧
    (∀ t ∈ s.expiresAt, t.InRange) ∧ IsJsonb s.metadata
  | .getSigil id, _ => Canonical id
  | .saveCap c, L => Canonical c.id ∧ c.sigilID ∈ L.sigils ∧ Canonical c.sigilID ∧ IsText c.scope ∧
    c.issuedAt.InRange ∧ c.expiresAt.InRange ∧ c.nonce.isSome
  | .tryRecordNonce n, _ => n.isSome
  | .isRevoked id, _ => Canonical id
  | .revoke e, _ => Canonical e.id ∧ (e.targetType = lit "sigil" ∨ e.targetType = lit "cap") ∧ IsText e.reason ∧
    e.revokedAt.InRange ∧ IsText e.revokedBy
  | _, _ => False

/-- An operation of a `PgStore`, run alone. -/
def PgStore.step (p : PgStore) (o : StoreSig.Op) (db : Db) : StoreSig.Ans o × Db := (p.impl o).exec Db.step db

namespace PgStore

variable (p : PgStore) {db : Db}

theorem step_saveSigil {s : Sigil} (hP : Allowed (.saveSigil s) db.ledger) :
    ∃ db', p.step (.saveSigil s) db = (.ok (), db') ∧
      db'.ledger = { db.ledger with sigils := insert s.id db.ledger.sigils } := by
  obtain ⟨id, subject, publicKey, createdAt, expiresAt, metadata⟩ := s
  obtain ⟨⟨u, hu, rfl⟩, hsubject, hkey, hcreated, hexpires, hmetadata⟩ := hP
  obtain ⟨key, rfl⟩ := Option.isSome_iff_exists.mp hkey
  obtain ⟨db', hok⟩ := db.exists_upsertSigil key hu hsubject hcreated hexpires hmetadata
  obtain ⟨⟨v, row, hv, hsigils⟩, hrevoked, hconsumed⟩ := Db.upsertSigil_ok hok
  obtain rfl : u = v := Option.some.inj ((uuidIn_uuidOut hu).symm.trans hv)
  refine ⟨db', ?_, Ledger.ext (named_insert hu fun w => ?_) ?_ ?_⟩
  · simp only [step, impl, saveSigil, Prog.call, Prog.bind_eq, Prog.ask_bind, Prog.exec_ask, Db.step, hok]
    rfl
  · rw [hsigils]
    by_cases hw : w = u <;> simp [hw]
  · simp only [Db.ledger, Db.revokedKeys, hrevoked]
  · simp only [Db.ledger, hconsumed]

theorem step_getSigil {id : Bytes} (hP : Canonical id) :
    (∃ s, p.step (.getSigil id) db = (.ok s, db)) ∧ id ∈ db.ledger.sigils ∨
      p.step (.getSigil id) db = (.error (Ledger.sigilNotFound id), db) ∧ id ∉ db.ledger.sigils := by
  obtain ⟨u, hu, rfl⟩ := hP
  have hmem : uuidOut u ∈ db.ledger.sigils ↔ (db.sigils u).isSome := mem_named hu
  simp only [step, impl, getSigil, Prog.call, Prog.bind_eq, Prog.ask_bind, Prog.ret_bind, Prog.exec_ask, Db.step,
    uuidParam_uuidOut hu, Except.map, hmem]
  cases db.sigils u with
  | none => exact .inr ⟨rfl, nofun⟩
  | some row => exact .inl ⟨⟨_, rfl⟩, rfl⟩

theorem step_saveCap {c : CapabilityToken} (hP : Allowed (.saveCap c) db.ledger) :
    ∃ db', p.step (.saveCap c) db = (.ok (), db') ∧ db'.ledger = db.ledger := by
  obtain ⟨id, sigilID, scope, issuedAt, expiresAt, nonce⟩ := c
  obtain ⟨⟨u, hu, rfl⟩, hsigil, ⟨v, hv, rfl⟩, hscope, hissued, hexpires, hnonce⟩ := hP
  obtain ⟨nonce, rfl⟩ := Option.isSome_iff_exists.mp hnonce
  obtain ⟨db', hok⟩ := db.exists_upsertCap nonce hu hv hscope hissued hexpires ((mem_named hv).mp hsigil)
  obtain ⟨hsigils, hrevoked, hconsumed⟩ := Db.upsertCap_ok hok
  refine ⟨db', ?_, ?_⟩
  · simp only [step, impl, saveCap, Prog.call, Prog.bind_eq, Prog.ask_bind, Prog.exec_ask, Db.step, hok]
    rfl
  · simp only [Db.ledger, Db.revokedKeys, hsigils, hrevoked, hconsumed]

theorem step_tryRecordNonce (n : Bytes) :
    ((p.step (.tryRecordNonce (some n)) db).1 = true ↔ n ∉ db.ledger.consumed) ∧
      (p.step (.tryRecordNonce (some n)) db).2.ledger =
        { db.ledger with consumed := insert n db.ledger.consumed } := by
  simp only [step, impl, tryRecordNonce, recordNonceStrict, Prog.call, Prog.bind_eq, Prog.ask_bind, Prog.exec_ask,
    Db.step, Db.insertNonce_some]
  by_cases hn : db.consumedNonces n = true
  · have hmem : n ∈ db.ledger.consumed := hn
    simp only [hn, ↓reduceIte, Set.insert_eq_of_mem hmem]
    exact ⟨⟨fun h => absurd h Bool.false_ne_true, fun h => absurd hmem h⟩, rfl⟩
  · have hmem : n ∉ db.ledger.consumed := hn
    simp only [hn]
    refine ⟨⟨fun _ => hmem, fun _ => rfl⟩, Ledger.ext rfl rfl ?_⟩
    ext k
    change Function.update db.consumedNonces n true k = true ↔ k = n ∨ db.consumedNonces k = true
    by_cases hk : k = n <;> simp [hk]

theorem step_isRevoked {id : Bytes} (hP : Canonical id) :
    ∃ found, p.step (.isRevoked id) db = (found, db) ∧ (found = true ↔ id ∈ db.ledger.revoked) := by
  obtain ⟨u, hu, rfl⟩ := hP
  refine ⟨decide (u ∈ db.revokedKeys), ?_, ?_⟩
  · simp only [step, impl, isRevoked, Prog.call, Prog.bind_eq, Prog.ask_bind, Prog.exec_ask, Db.step,
      uuidParam_uuidOut hu]
    rfl
  · rw [decide_eq_true_eq]
    exact (mem_named hu).symm

theorem step_revoke {e : RevocationEntry} (hP : Allowed (.revoke e) db.ledger) :
    ∃ db', p.step (.revoke e) db = (.ok (), db') ∧
      db'.ledger = { db.ledger with revoked := insert e.id db.ledger.revoked } := by
  obtain ⟨id, targetType, reason, revokedAt, revokedBy⟩ := e
  obtain ⟨⟨u, hu, rfl⟩, htype, hreason, hrevoked, hby⟩ := hP
  obtain ⟨k, db', hok⟩ := db.exists_insertRevocation hu htype hreason hrevoked hby
  obtain ⟨⟨v, hv, hkeys⟩, hsigils, hconsumed⟩ := Db.insertRevocation_ok hok
  obtain rfl : u = v := Option.some.inj ((uuidIn_uuidOut hu).symm.trans hv)
  refine ⟨db', ?_, Ledger.ext ?_ (named_insert hu hkeys) ?_⟩
  · simp only [step, impl, revoke, Prog.call, Prog.bind_eq, Prog.ask_bind, Prog.exec_ask, Db.step, hok]
    rfl
  · simp only [Db.ledger, hsigils]
  · simp only [Db.ledger, hconsumed]

theorem implements : Implements Ledger.Step Allowed p.step Db.ledger := by
  intro o db hP
  cases o with
  | saveSigil s =>
    obtain ⟨db', hstep, hledger⟩ := p.step_saveSigil hP
    rw [hstep]
    exact ⟨rfl, hledger⟩
  | getSigil id =>
    rcases p.step_getSigil hP with ⟨⟨s, hstep⟩, hmem⟩ | ⟨hstep, hmem⟩
    · rw [hstep]
      exact ⟨rfl, .inl ⟨⟨s, rfl⟩, hmem⟩⟩
    · rw [hstep]
      exact ⟨rfl, .inr ⟨rfl, hmem⟩⟩
  | saveCap c =>
    obtain ⟨db', hstep, hledger⟩ := p.step_saveCap hP
    rw [hstep]
    exact ⟨rfl, hledger⟩
  | tryRecordNonce n =>
    obtain ⟨n, rfl⟩ := Option.isSome_iff_exists.mp hP
    exact p.step_tryRecordNonce n
  | isRevoked id =>
    obtain ⟨found, hstep, hfound⟩ := p.step_isRevoked hP
    rw [hstep]
    exact ⟨rfl, hfound⟩
  | revoke e =>
    obtain ⟨db', hstep, hledger⟩ := p.step_revoke hP
    rw [hstep]
    exact ⟨rfl, hledger⟩
  | getCap | nonceUsed | recordNonce | revocationList => exact hP.elim

end PgStore

theorem MemStore.implements : Implements Ledger.Step Allowed MemStore.step MemStore.ledger :=
  fun o m _ => MemStore.refines o m _ _ rfl

/-- Operations of a `PgStore` next to the surroundings, for programs of the broker. -/
theorem runPg_eq {α : Type} (q : Prog BrokerSig α) (p : PgStore) (db : Db) (w : Host) :
    runPg q p db w = q.exec (both p.step Host.step) (db, w) := by
  rw [runPg, overPg, Prog.exec_interp]
  congr 1
  funext o s
  obtain ⟨db, w⟩ := s
  cases o with
  | inl o => exact Prog.exec_inl Db.step Host.step (p.impl o) db w
  | inr o => rfl

/-! ## What the broker looks at -/

/-- Answers between which the broker does not tell: of `GetSigil` it looks at no
more than whether there is a sigil. -/
def Alike : (o : BrokerSig.Op) → BrokerSig.Ans o → BrokerSig.Ans o → Prop
  | .inl (.getSigil _), a, b => (∃ s s', a = .ok s ∧ b = .ok s') ∨ a = b
  | .inl (.getCap _), _, _ => True
  | .inl .revocationList, _, _ => True
  | _, a, b => a = b

/-- The ledger and the surroundings. -/
abbrev System : Handler BrokerSig (Ledger × Host) := Ledger.Step.beside Host.step

theorem ledger_det {o : StoreOp} {L L₁ L₂ : Ledger} {a b : o.Ans} (h₁ : Ledger.Step o L a L₁)
    (h₂ : Ledger.Step o L b L₂) : Alike (.inl o) a b ∧ L₁ = L₂ := by
  cases o with
  | saveSigil | saveCap | revoke =>
    obtain ⟨rfl, rfl⟩ := h₁
    obtain ⟨rfl, rfl⟩ := h₂
    exact ⟨rfl, rfl⟩
  | getSigil id =>
    obtain ⟨rfl, h₁⟩ := h₁
    obtain ⟨rfl, h₂⟩ := h₂
    refine ⟨?_, rfl⟩
    rcases h₁ with ⟨⟨s, rfl⟩, hmem⟩ | ⟨rfl, hmem⟩
    · rcases h₂ with ⟨⟨s', rfl⟩, -⟩ | ⟨-, hnot⟩
      · exact .inl ⟨s, s', rfl, rfl⟩
      · exact absurd hmem hnot
    · rcases h₂ with ⟨-, hmem'⟩ | ⟨rfl, -⟩
      · exact absurd hmem' hmem
      · exact .inr rfl
  | getCap | revocationList =>
    obtain rfl := h₁
    obtain rfl := h₂
    exact ⟨trivial, rfl⟩
  | nonceUsed | isRevoked =>
    obtain ⟨rfl, h₁⟩ := h₁
    obtain ⟨rfl, h₂⟩ := h₂
    exact ⟨Bool.eq_iff_iff.mpr (h₁.trans h₂.symm), rfl⟩
  | recordNonce =>
    obtain rfl := h₁
    obtain rfl := h₂
    exact ⟨rfl, rfl⟩
  | tryRecordNonce =>
    obtain ⟨h₁, rfl⟩ := h₁
    obtain ⟨h₂, rfl⟩ := h₂
    exact ⟨Bool.eq_iff_iff.mpr (h₁.trans h₂.symm), rfl⟩

/-- They determine the answers, as far as the broker looks at them. -/
theorem system_det : ∀ (o : BrokerSig.Op) (t : Ledger × Host) (a b : BrokerSig.Ans o) (t₁ t₂ : Ledger × Host),
    System o t a t₁ → System o t b t₂ → Alike o a b ∧ t₁ = t₂
  | .inl o, t, a, b, t₁, t₂, ⟨h₁, hw₁⟩, ⟨h₂, hw₂⟩ => by
    obtain ⟨halike, hL⟩ := ledger_det h₁ h₂
    exact ⟨halike, Prod.ext hL (hw₁.trans hw₂.symm)⟩
  | .inr o, t, a, b, t₁, t₂, ⟨h₁, hL₁⟩, ⟨h₂, hL₂⟩ => by
    obtain ⟨hans, hw⟩ := Prod.mk.inj (h₁.symm.trans h₂)
    exact ⟨hans, Prod.ext (hL₁.trans hL₂.symm) hw⟩

/-- A program that returns the same over all stores. -/
abbrev Same {α : Type} (L : Ledger) (w : Host) (p q : Prog BrokerSig α) : Prop :=
  Sim System (onFirst Allowed) Alike (L, w) p q

theorem same_host {α : Type} {L : Ledger} {w : Host} {o : HostOp} {k k' : o.Ans → Prog BrokerSig α}
    (h : Same L (Host.step o w).2 (k (Host.step o w).1) (k' (Host.step o w).1)) :
    Same L w (.ask (S := BrokerSig) (.inr o) k) (.ask (S := BrokerSig) (.inr o) k') := by
  refine .ask trivial ?_
  rintro a b ⟨L', w'⟩ ⟨hstep, rfl⟩ hab
  obtain rfl : a = b := hab
  rw [hstep] at h
  exact h

theorem same_store {α : Type} {L : Ledger} {w : Host} {o : StoreOp} {k k' : o.Ans → Prog BrokerSig α}
    (hP : Allowed o L)
    (h : ∀ a b L', Ledger.Step o L a L' → Alike (.inl o) a b → Same L' w (k a) (k' b)) :
    Same L w (.ask (S := BrokerSig) (.inl o) k) (.ask (S := BrokerSig) (.inl o) k') := by
  refine .ask hP ?_
  rintro a b ⟨L', w'⟩ ⟨hstep, rfl⟩ hab
  exact h a b L' hstep hab

/-! ## The calls -/

/-- Surroundings whose clock readings and uuids the schema accepts. -/
structure Host.WellFormed (w : Host) : Prop where
  clock : ∀ n, (w.clock n).InRange
  uuids : ∀ n, Canonical (w.uuids n)

theorem Host.WellFormed.step {w : Host} (hw : w.WellFormed) (o : HostOp) : (Host.step o w).2.WellFormed := by
  cases o with
  | timeNow => exact ⟨fun n => hw.clock (n + 1), hw.uuids⟩
  | newUUID => exact ⟨hw.clock, fun n => hw.uuids (n + 1)⟩
  | _ => exact ⟨hw.clock, hw.uuids⟩

/-- The six calls of the broker, with arguments that the schema accepts. -/
def Call.WellFormed : Call → Prop
  | .issueSigil subject pubKey expiresAt metadata =>
    IsText subject ∧ pubKey.isSome ∧ (∀ t ∈ expiresAt, t.InRange) ∧ IsJsonb (metadata.getD [])
  | .issueCap sigilID scope expiresAt => Canonical sigilID ∧ IsText scope ∧ expiresAt.InRange
  | .issueAttestation .. => True
  | .verifyAttestation env => Canonical env.sigilID ∧ ∀ c ∈ env.capList, Canonical c.id ∧ c.nonce.isSome
  | .revokeSigil id reason revokedBy => Canonical id ∧ IsText reason ∧ IsText revokedBy
  | .revokeCap id reason revokedBy => Canonical id ∧ IsText reason ∧ IsText revokedBy
  | .bootstrapOIDC _ => False
  | .adminRevoke _ => False

section Calls

variable {L : Ledger} {w : Host}

theorem issueSigil_same {b : Broker} {subject : Bytes} {pubKey : Option Bytes} {expiresAt : Option Time}
    {metadata : Option (List (Bytes × Bytes))} (hw : w.WellFormed)
    (h : (Call.issueSigil subject pubKey expiresAt metadata).WellFormed) :
    Same L w (b.issueSigil subject pubKey expiresAt metadata) (b.issueSigil subject pubKey expiresAt metadata) := by
  obtain ⟨hsubject, hkey, hexpires, hmetadata⟩ := h
  refine same_host (same_host (same_store ⟨hw.uuids 0, hsubject, hkey, hw.clock 0, hexpires, hmetadata⟩ ?_))
  rintro a a' L' ⟨rfl, rfl⟩ hab
  obtain rfl : .ok () = a' := hab
  refine same_host (same_host (same_host ?_))
  change Same _ _ (if b.metrics then _ else _) (if b.metrics then _ else _)
  split
  · exact same_host (.ret _ _)
  · exact .ret _ _

theorem issueCap_same {sigilID scope : Bytes} {expiresAt : Time} (hw : w.WellFormed)
    (h : (Call.issueCap sigilID scope expiresAt).WellFormed) :
    Same L w (Broker.issueCap sigilID scope expiresAt) (Broker.issueCap sigilID scope expiresAt) := by
  obtain ⟨hid, hscope, hexpires⟩ := h
  refine same_store hid ?_
  rintro a a' L' ⟨rfl, hfound⟩ hab
  rcases hfound with ⟨⟨s, rfl⟩, hmem⟩ | ⟨rfl, -⟩
  · obtain ⟨s', rfl⟩ : ∃ s', a' = .ok s' := by
      rcases hab with ⟨_, s', -, rfl⟩ | rfl
      · exact ⟨s', rfl⟩
      · exact ⟨s, rfl⟩
    have hw' := hw.step .generateNonce
    refine same_host ?_
    generalize (Host.step .generateNonce w).1 = nonce
    generalize (Host.step .generateNonce w).2 = w' at hw' ⊢
    cases nonce with
    | error e => exact .ret _ _
    | ok nonce =>
      refine same_host (same_host (same_store
        ⟨hw'.uuids 0, hmem, hid, hscope, hw'.clock 0, hexpires, rfl⟩ ?_))
      rintro a a' L' ⟨rfl, rfl⟩ hab
      obtain rfl : .ok () = a' := hab
      exact .ret _ _
  · rcases hab with ⟨_, _, herr, -⟩ | rfl
    · cases herr
    · exact .ret _ _

/-- Issuing an attestation does not ask the store. -/
theorem issueAttestation_same (sigilID : Bytes) (caps : Option (List CapabilityToken)) (expiresAt : Time) :
    Same L w (Broker.issueAttestation sigilID caps expiresAt) (Broker.issueAttestation sigilID caps expiresAt) := by
  rw [issueAttestation_eq]
  refine same_host ?_
  generalize (Host.step .timeNow w).1 = t
  by_cases hm : (unsigned sigilID caps t expiresAt).Marshals
  · rw [signEnvelope_of_marshals hm]
    exact same_host (.ret _ _)
  · obtain ⟨e, he⟩ := signEnvelope_of_not_marshals hm
    rw [he]
    exact .ret _ _

/-- A program that goes on if a time has not passed. -/
theorem same_unexpired {α : Type} {expiresAt : Time} {a : α} {p : Prog BrokerSig α} (h : ∀ w', Same L w' p p) :
    Same L w (.ask (S := BrokerSig) (.inr .timeNow) fun now => if Time.after now expiresAt then .ret a else p)
      (.ask (S := BrokerSig) (.inr .timeNow) fun now => if Time.after now expiresAt then .ret a else p) := by
  refine same_host ?_
  split
  · exact .ret _ _
  · exact h _

theorem verifyCaps_same {cs : List CapabilityToken} (h : ∀ c ∈ cs, Canonical c.id ∧ c.nonce.isSome) :
    Same L w (Broker.verifyCaps cs) (Broker.verifyCaps cs) := by
  induction cs generalizing L w with
  | nil => exact same_host (.ret _ _)
  | cons c cs ih =>
    obtain ⟨⟨hid, hnonce⟩, hcs⟩ := List.forall_mem_cons.mp h
    refine same_store hid ?_
    rintro a a' L' ⟨rfl, -⟩ hab
    obtain rfl : a = a' := hab
    cases a with
    | true => exact same_host (.ret _ _)
    | false =>
      refine same_unexpired fun w' => same_store hnonce ?_
      rintro a a' L' - hab
      obtain rfl : a = a' := hab
      cases a with
      | true => exact ih hcs
      | false => exact .ret _ _

theorem verifyAttestation_same {b : Broker} {env : AttestationEnvelope}
    (h : (Call.verifyAttestation env).WellFormed) :
    Same L w (b.verifyAttestation env) (b.verifyAttestation env) := by
  obtain ⟨hid, hcaps⟩ := h
  by_cases hv : b.SignatureValid env
  · rw [Broker.verifyAttestation_of_valid hv]
    refine same_store hid ?_
    rintro a a' L' ⟨rfl, -⟩ hab
    obtain rfl : a = a' := hab
    cases a with
    | true => exact same_host (.ret _ _)
    | false => exact same_unexpired fun w' => verifyCaps_same hcaps
  · rw [Broker.verifyAttestation_of_not_valid hv]
    exact .ret _ _

theorem revokeSigil_same {b : Broker} {id reason revokedBy : Bytes} (hw : w.WellFormed)
    (h : (Call.revokeSigil id reason revokedBy).WellFormed) :
    Same L w (b.revokeSigil id reason revokedBy) (b.revokeSigil id reason revokedBy) := by
  obtain ⟨hid, hreason, hby⟩ := h
  refine same_host (same_store ⟨hid, .inl rfl, hreason, hw.clock 0, hby⟩ ?_)
  rintro a a' L' ⟨rfl, -⟩ hab
  obtain rfl : .ok () = a' := hab
  exact same_host (same_host (same_host (.ret _ _)))

theorem revokeCap_same {id reason revokedBy : Bytes} (hw : w.WellFormed)
    (h : (Call.revokeCap id reason revokedBy).WellFormed) :
    Same L w (Broker.revokeCap id reason revokedBy) (Broker.revokeCap id reason revokedBy) := by
  obtain ⟨hid, hreason, hby⟩ := h
  refine same_host (same_store ⟨hid, .inr rfl, hreason, hw.clock 0, hby⟩ ?_)
  rintro a a' L' ⟨rfl, -⟩ hab
  obtain rfl : .ok () = a' := hab
  exact .ret _ _

theorem Same.map {α β : Type} (f : α → β) {p q : Prog BrokerSig α} (h : Same L w p q) :
    Same L w (f <$> p) (f <$> q) := by
  rw [Prog.map_eq, Prog.map_eq]
  exact Sim.bind (I := fun _ => True) h trivial (fun _ _ _ _ _ _ _ => trivial) fun t a _ => .ret t (f a)

theorem Call.same {S : Service} {call : Call} (hw : w.WellFormed) (h : call.WellFormed) :
    Same L w (call.prog S) (call.prog S) := by
  cases call with
  | issueSigil => exact (issueSigil_same hw h).map _
  | issueCap => exact (issueCap_same hw h).map _
  | issueAttestation => exact (issueAttestation_same ..).map _
  | verifyAttestation => exact (verifyAttestation_same h).map _
  | revokeSigil => exact (revokeSigil_same hw h).map _
  | revokeCap => exact (revokeCap_same hw h).map _
  | bootstrapOIDC | adminRevoke => exact h.elim

theorem all_same {S : Service} {calls : List Call} (hw : w.WellFormed) (h : ∀ call ∈ calls, call.WellFormed) :
    Same L w (.all (calls.map (Call.prog S))) (.all (calls.map (Call.prog S))) := by
  induction calls generalizing L w with
  | nil => exact .ret _ _
  | cons call calls ih =>
    obtain ⟨hcall, hcalls⟩ := List.forall_mem_cons.mp h
    rw [List.map_cons, Prog.all]
    refine Sim.bind (I := fun t => t.2.WellFormed) (call.same hw hcall) hw ?_ fun t r ht => ?_
    · rintro (o | o) t a t' - ⟨hstep, hrest⟩ ht
      · rw [hrest]
        exact ht
      · rw [← (Prod.ext_iff.mp hstep).2]
        exact ht.step o
    · exact Sim.bind (I := fun _ => True) (ih ht hcalls) trivial (fun _ _ _ _ _ _ _ => trivial)
        fun t rs _ => .ret t (r :: rs)

end Calls

theorem Db.ledger_empty : Db.empty.ledger = MemStore.new.ledger := by
  refine Ledger.ext ?_ ?_ rfl
  · ext id
    exact ⟨fun ⟨_, _, _, h⟩ => (nomatch h), nofun⟩
  · ext id
    exact ⟨fun ⟨_, _, _, h⟩ => (nomatch h), nofun⟩

/-- The two stores are interchangeable: a sequence of calls with arguments that
the schema accepts returns the same over a new `MemStore` and over a `PgStore`
with new tables, given the same uuids, nonces and clock readings. -/
theorem stores_interchangeable (S : Service) (p : PgStore) (calls : List Call) (w : Host)
    (hcalls : ∀ call ∈ calls, call.WellFormed) (hw : w.WellFormed) :
    (runMem (.all (calls.map (Call.prog S))) .new w).1 = (runPg (.all (calls.map (Call.prog S))) p .empty w).1 := by
  have hsame := all_same (L := MemStore.new.ledger) (S := S) hw hcalls
  rw [runPg_eq]
  exact (hsame.exec_eq (MemStore.implements.beside Host.step) (p.implements.beside Host.step) system_det
    (s := (.new, w)) (w := (.empty, w)) rfl (Prod.ext Db.ledger_empty rfl)).1

namespace Sample

theorem canonical_uuid (n : Nat) : Canonical (uuid n) := ⟨_, rfl, rfl⟩

theorem isText_lit {s : String} (h : 0 ∉ lit s) : IsText (lit s) := ⟨valid_lit s, h⟩

theorem noon_inRange : noon.InRange := ⟨by decide, by decide⟩

theorem host_wellFormed (n : Nat) : (host n).WellFormed where
  clock _ := noon_inRange
  uuids _ := canonical_uuid _

/-- A sigil is issued, with a cap; an envelope of it is verified, before and after
it is revoked. -/
def lifecycle : List Call :=
  [.issueSigil (lit "alice") (some []) none none, .issueCap (uuid 1) (lit "read") evening, .verifyAttestation env,
    .revokeSigil (uuid 1) (lit "stolen") (lit "admin"), .verifyAttestation env]

theorem lifecycle_wellFormed : ∀ call ∈ lifecycle, call.WellFormed := by
  have henv : (Call.verifyAttestation env).WellFormed :=
    ⟨canonical_uuid 1, List.forall_mem_singleton.mpr ⟨canonical_uuid 2, rfl⟩⟩
  simp only [lifecycle, List.forall_mem_cons]
  refine ⟨⟨isText_lit (by decide), rfl, nofun, List.nodup_nil, nofun⟩,
    ⟨canonical_uuid 1, isText_lit (by decide), by decide, by decide⟩, henv,
    ⟨canonical_uuid 1, isText_lit (by decide), isText_lit (by decide)⟩, henv, nofun⟩

end Sample

theorem stores_interchangeable_sample :
    (runMem (.all (Sample.lifecycle.map (Call.prog Sample.service))) .new (Sample.host 1)).1 =
      (runPg (.all (Sample.lifecycle.map (Call.prog Sample.service))) ⟨fun _ => 0⟩ .empty (Sample.host 1)).1 :=
  stores_interchangeable _ _ _ _ Sample.lifecycle_wellFormed (Sample.host_wellFormed 1)

end Hanko
