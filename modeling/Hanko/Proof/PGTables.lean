import Hanko.Impl.PGTables
import Hanko.Proof.Interchange
import Hanko.Proof.Replay
import Hanko.Proof.Revocation

/-!
# The pgx store under the broker

What the broker's guarantees become over a `PGStore`, whichever statements of its
database fail:

* `pgstore_replay_safe`: no nonce is accepted twice, by the primary key of
  `consumed_nonces`. The audit log, which `NonceUsed` and `RecordNonce` go by, has no
  part in it;
* `pgstore_revocation_final`: a revocation that returned was made by a sigil that the
  store knows, and is final for all verifications whose lookups do not fail;
* `pgstore_interchangeable`: if revocations are made by known sigils, and caps issued
  for known ones, all calls return what they return over a `MemStore`.
-/

namespace Hanko

open Bytes Interact

namespace HankoDb

variable {db db' : HankoDb}

/-- The ids of the revoked sigils and caps. -/
def revokedKeys (db : HankoDb) : List Bytes := db.hankoRevocations.map HankoRevocation.targetID

/-! ## What each statement does -/

theorem upsertSigil_ok {id subject : Bytes} {publicKey : Option Bytes} {createdAt : Time} {expiresAt : Option Time}
    {metadata : Bytes} {k : Nat} (h : db.upsertSigil id subject publicKey createdAt expiresAt metadata = .ok (k, db')) :
    (∃ u row, uuidIn id = some u ∧ jsonbParam metadata = .ok row.metadata ∧
      db'.hankoSigils = Function.update db.hankoSigils u (some row)) ∧
      db'.hankoRevocations = db.hankoRevocations ∧ db'.audit = db.audit := by
  simp only [upsertSigil, except_bind_eq_ok, Db.uuidParam_eq_ok] at h
  obtain ⟨u, hu, _, -, _, -, _, -, _, -, _, hmetadata, heq⟩ := h
  obtain ⟨-, rfl⟩ := Prod.mk.inj (Except.ok.inj heq)
  exact ⟨⟨u, _, hu, hmetadata, rfl⟩, rfl, rfl⟩

theorem upsertCap_ok {id sigilID scope : Bytes} {issuedAt expiresAt : Time} {nonce : Option Bytes} {k : Nat}
    (h : db.upsertCap id sigilID scope issuedAt expiresAt nonce = .ok (k, db')) :
    db'.hankoSigils = db.hankoSigils ∧ db'.hankoRevocations = db.hankoRevocations ∧ db'.audit = db.audit := by
  simp only [upsertCap, except_bind_eq_ok] at h
  obtain ⟨u, -, _, -, _, -, _, -, _, -, _, -, heq⟩ := h
  split at heq
  · obtain ⟨-, rfl⟩ := Prod.mk.inj (Except.ok.inj heq)
    exact ⟨rfl, rfl, rfl⟩
  · cases heq

theorem insertRevocation_ok {targetType targetID reason revokedBy : Bytes} {k : Nat}
    (h : db.insertRevocation targetType targetID reason revokedBy = .ok (k, db')) :
    (∃ u, uuidIn targetID = some u ∧ ∀ v, v ∈ db'.revokedKeys ↔ v ∈ db.revokedKeys ∨ v = u) ∧
      (∃ v, uuidIn revokedBy = some v ∧ (db.hankoSigils v).isSome) ∧
      db'.hankoSigils = db.hankoSigils ∧ db'.audit = db.audit := by
  simp only [insertRevocation, except_bind_eq_ok, Db.uuidParam_eq_ok] at h
  obtain ⟨_, -, u, hu, _, -, v, hv, heq⟩ := h
  split at heq
  · split at heq
    · next hs =>
      obtain ⟨-, rfl⟩ := Prod.mk.inj (Except.ok.inj heq)
      exact ⟨⟨u, hu, fun w => by simp [revokedKeys]⟩, ⟨v, hv, hs⟩, rfl, rfl⟩
    · cases heq
  · cases heq

theorem audit_insertNonce_some (db : AuditDb) (n : Bytes) :
    db.insertNonce (some n) = .ok (if db.consumedNonces n then (0, db)
      else (1, { db with consumedNonces := Function.update db.consumedNonces n true })) := by
  change (if _ then _ else _) = _
  split <;> rfl

theorem audit_consumed (o : AuditStmt) (db : AuditDb) {n : Bytes} (hn : db.consumedNonces n = true) :
    (AuditDb.step o db).2.consumedNonces n = true := by
  cases o with
  | existsAudit => exact hn
  | insertAudit action outcome detail =>
    rw [AuditDb.step, AuditDb.insertAudit]
    cases textParam action with
    | error e => exact hn
    | ok action =>
      cases textParam outcome with
      | error e => exact hn
      | ok outcome =>
        cases jsonbParam detail with
        | error e => exact hn
        | ok detail =>
          simp only [bind, Except.bind]
          split
          · exact hn
          · exact hn
  | insertNonce m =>
    cases m with
    | none => exact hn
    | some k =>
      rw [AuditDb.step, audit_insertNonce_some]
      by_cases hk : db.consumedNonces k = true
      · simpa [commit, hk] using hn
      · by_cases hkn : n = k
        · simp [commit, hk, hkn]
        · simpa [commit, hk, Function.update_of_ne hkn] using hn

/-! ## What is kept -/

/-- What was consumed, revoked or registered still is. -/
structure Extends (db db' : HankoDb) : Prop where
  consumedNonces : ∀ n, db.audit.consumedNonces n = true → db'.audit.consumedNonces n = true
  revokedKeys : ∀ u ∈ db.revokedKeys, u ∈ db'.revokedKeys
  hankoSigils : ∀ u, (db.hankoSigils u).isSome → (db'.hankoSigils u).isSome

theorem Extends.refl (db : HankoDb) : Extends db db := ⟨fun _ => id, fun _ => id, fun _ => id⟩

theorem step_extends {o : HankoStmt} {a : HankoSig.Ans o} (h : step o db = (a, db')) : Extends db db' := by
  cases o with
  | nonces o =>
    obtain ⟨-, rfl⟩ := Prod.mk.inj h
    exact ⟨fun n => audit_consumed o db.audit, fun _ => id, fun _ => id⟩
  | upsertSigil =>
    rcases commit_eq_iff.mp h with ⟨k, h, -⟩ | ⟨e, -, -, rfl⟩
    · obtain ⟨⟨u, row, -, -, hsigils⟩, hrevoked, haudit⟩ := upsertSigil_ok h
      refine ⟨fun n => by rw [haudit]; exact id, fun u => ?_, fun v hv => hsigils ▸ isSome_update hv⟩
      rw [HankoDb.revokedKeys, HankoDb.revokedKeys, hrevoked]
      exact id
    · exact .refl _
  | upsertCap =>
    rcases commit_eq_iff.mp h with ⟨k, h, -⟩ | ⟨e, -, -, rfl⟩
    · obtain ⟨hsigils, hrevoked, haudit⟩ := upsertCap_ok h
      refine ⟨fun n => by rw [haudit]; exact id, fun u => ?_, fun v => by rw [hsigils]; exact id⟩
      rw [HankoDb.revokedKeys, HankoDb.revokedKeys, hrevoked]
      exact id
    · exact .refl _
  | insertRevocation =>
    rcases commit_eq_iff.mp h with ⟨k, h, -⟩ | ⟨e, -, -, rfl⟩
    · obtain ⟨⟨u, -, hkeys⟩, -, hsigils, haudit⟩ := insertRevocation_ok h
      exact ⟨fun n => by rw [haudit]; exact id, fun v hv => (hkeys v).mpr (.inl hv), fun v => by rw [hsigils]; exact id⟩
    · exact .refl _
  | selectSigil | selectCap | selectRevocations | existsRevocation =>
    obtain ⟨-, rfl⟩ := Prod.mk.inj h
    exact .refl _

theorem Faulty.extends {o : HankoStmt} {a : HankoSig.Ans o} (h : Faulty o db a db') : Extends db db' :=
  faulty_keeps step Extends.refl step_extends h

/-- One row is reported for a nonce that is new. -/
theorem Faulty.insertNonce {m : Option Bytes} (h : Faulty (.nonces (.insertNonce m)) db (.ok 1) db') :
    ∃ n, m = some n ∧ db.audit.consumedNonces n = false ∧ db'.audit.consumedNonces n = true := by
  have hstep := faulty_ok h
  obtain ⟨hans, rfl⟩ := Prod.mk.inj hstep
  cases m with
  | none => cases hans
  | some n =>
    by_cases hn : db.audit.consumedNonces n = true
    · rw [AuditDb.step, audit_insertNonce_some, if_pos hn] at hans
      cases hans
    · refine ⟨n, rfl, by simpa using hn, ?_⟩
      simp [AuditDb.step, audit_insertNonce_some, commit, hn]

/-- A revocation that was reported is there, and the sigil that revoked is known. -/
theorem Faulty.insertRevocation {targetType targetID reason revokedBy : Bytes} {k : Nat}
    (h : Faulty (.insertRevocation targetType targetID reason revokedBy) db (.ok k) db') :
    (∃ u, uuidIn targetID = some u ∧ u ∈ db'.revokedKeys) ∧
      ∃ v, uuidIn revokedBy = some v ∧ (db'.hankoSigils v).isSome := by
  rcases commit_eq_iff.mp (faulty_ok h) with ⟨k, h, -⟩ | ⟨e, -, h, -⟩
  · obtain ⟨⟨u, hu, hkeys⟩, ⟨v, hv, hknown⟩, hsigils, -⟩ := insertRevocation_ok h
    exact ⟨⟨u, hu, (hkeys u).mpr (.inr rfl)⟩, v, hv, hsigils ▸ hknown⟩
  · cases h

/-- A lookup that does not fail finds a revocation that is there. -/
theorem Faulty.existsRevocation {id u : Bytes} {found : Bool} (hu : uuidIn id = some u)
    (h : Faulty (.existsRevocation id) db (.ok found) db') : found = true ↔ u ∈ db.revokedKeys := by
  obtain ⟨h, -⟩ := Prod.mk.inj (faulty_ok h)
  rw [uuidParam, hu] at h
  obtain rfl := Except.ok.inj h
  simp [revokedKeys]

end HankoDb

theorem hankoHandler_extends {o : (HankoSig.sum HostSig).Op} {a : (HankoSig.sum HostSig).Ans o} {db db' : HankoDb}
    (h : HankoHandler o db a db') : db.Extends db' := by
  rcases o with o | o
  · exact HankoDb.Faulty.extends h
  · obtain rfl : db' = db := h
    exact .refl _

/-! ## Replay -/

/-- The statement inserted the nonce, and said so. -/
def consumes (nonce : Option Bytes) : Event (HankoSig.sum HostSig) → Bool
  | ⟨.inl (.nonces (.insertNonce m)), .ok 1⟩ => decide (m = nonce)
  | _ => false

theorem recordsNonces_tables (pg : PgStore) : RecordsNonces (Prog.lift HostSig (PGStore.store pg)) consumes := by
  intro m gs h
  obtain ⟨ans, fs, rfl, hret⟩ := (ends_ask (S := HankoSig.sum HostSig) (o := .inl (.nonces (.insertNonce m)))).mp h
  cases ans with
  | error e => cases (ends_ret.mp hret).2
  | ok k =>
    obtain rfl : k = 1 := of_decide_eq_true (ends_ret.mp hret).2.symm
    exact ⟨_, List.mem_cons_self, decide_eq_true rfl⟩

theorem hanko_nonceTable : NonceTable HankoHandler consumes fun n db => db.audit.consumedNonces n = true where
  kept n o db a db' hstep hn := (hankoHandler_extends hstep).consumedNonces n hn
  new := by
    rintro m ⟨o, a⟩ db db' hins hstep
    unfold consumes at hins
    split at hins
    · rename_i m' heq
      obtain rfl := of_decide_eq_true hins
      cases heq
      obtain ⟨n, rfl, hbefore, hafter⟩ := HankoDb.Faulty.insertNonce hstep
      exact ⟨n, rfl, by simp [hbefore], hafter⟩
    · cases hins

/-- Over a `PGStore`, whatever clients do concurrently and whichever statements fail, no
nonce is accepted twice. -/
theorem pgstore_replay_safe {ι : Type} [DecidableEq ι] (S : Service) (pg : PgStore)
    (ps ps' : ι → Prog (HankoSig.sum HostSig) Reply) (db db' : HankoDb) (tr : List (ι × Event (HankoSig.sum HostSig)))
    (h : Run HankoHandler ps db tr ps' db') :
    NoReplay fun i env => ps i = overTables ((Call.verifyAttestation env).prog S) pg ∧ ps' i = .ret (.err none) := by
  refine noReplay_of_primaryKey (hanko_nonceTable.primaryKey h.exec) ?_
  rintro i env ⟨hi, hr⟩
  obtain ⟨es, hes, hcov⟩ := Ends.of_interp (hi ▸ h.ends hr)
  obtain ⟨r, hes, heq⟩ := ends_map.mp hes
  cases heq
  exact ⟨_, _, es, _, recordsNonces_tables pg, hes, hcov, .refl _⟩

namespace Sample

theorem runTables_refines : Refines (Handler.graph (both HankoDb.step Host.step)) HankoHandler Prod.fst :=
  Refines.both fun _ _ _ _ h => .inl h

/-- The sigil of the sample is in the table. -/
def registered : HankoDb :=
  .ofSigils (Function.update (fun _ => none) (List.replicate 15 0 ++ [1])
    (some ⟨lit "alice", [], 0, none, .obj []⟩)) fun _ => 0

end Sample

/-- An envelope that is verified twice. -/
theorem pgstore_replay_safe_sample : ∃ tr ps' db', Run HankoHandler
    (fun _ : Bool => overTables ((Call.verifyAttestation Sample.env).prog Sample.service) ⟨fun _ => 0⟩)
    Sample.registered tr ps' db' ∧ ps' false = .ret (.err none) ∧ ps' true ≠ .ret (.err none) := by
  have hmem : ([7] : Bytes) ∈ Sample.env.nonces := List.mem_cons_self
  obtain ⟨es, es', _, _, -, h, h'⟩ := Run.two Sample.runTables_refines
    (fun _ : Bool => overTables ((Call.verifyAttestation Sample.env).prog Sample.service) ⟨fun _ => 0⟩)
    (Sample.registered, Sample.host 0) (show false ≠ true by decide) (a := .err none)
    (by rw [Sample.verify_env]; rfl) rfl
  refine ⟨_, _, _, h.append h', rfl, fun hacc => ?_⟩
  exact (pgstore_replay_safe Sample.service _ _ _ _ _ _ (h.append h')).once false true _ _ (by decide) ⟨rfl, rfl⟩
    ⟨rfl, hacc⟩ _ hmem hmem

/-! ## Revocation -/

/-- A call that has revoked `id` in the name of `revokedBy`, by what it returned. -/
def Call.RevokedBy (id revokedBy : Bytes) : Call → Reply → Prop
  | .revokeSigil sigilID _ actor, .err none => sigilID = id ∧ actor = revokedBy
  | .revokeCap capID _ actor, .err none => capID = id ∧ actor = revokedBy
  | .adminRevoke r, .http (some resp) =>
    resp.status = 204 ∧ ∃ req, decodeRevokeRequest r.body = some req ∧ req.sigilID = id ∧ req.revokedBy = revokedBy
  | _, _ => False

theorem Call.RevokedBy.ends {S : Service} {call : Call} {reply : Reply} {id revokedBy : Bytes}
    (hcall : call.RevokedBy id revokedBy reply) {es : List (Event BrokerSig)} (h : (call.prog S).Ends es reply) :
    ∃ entry : RevocationEntry, entry.id = id ∧ entry.revokedBy = revokedBy ∧
      storeEvent (.revoke entry) (.ok ()) ∈ es := by
  unfold Call.RevokedBy at hcall
  split at hcall
  · obtain ⟨r, hr, heq⟩ := ends_map.mp h
    cases heq
    obtain ⟨rfl, rfl⟩ := hcall
    exact revokeSigil_ends hr
  · obtain ⟨r, hr, heq⟩ := ends_map.mp h
    cases heq
    obtain ⟨rfl, rfl⟩ := hcall
    exact revokeCap_ends hr
  · obtain ⟨resp, hresp, heq⟩ := ends_map.mp h
    cases heq
    obtain ⟨hstatus, req, hreq, rfl, rfl⟩ := hcall
    obtain ⟨req', hreq', es', hsub, hrevoke⟩ := adminRevoke_ends hresp hstatus
    obtain rfl : req = req' := Option.some.inj (hreq.symm.trans hreq')
    obtain ⟨entry, hid, hby, he⟩ := revokeSigil_ends hrevoke
    exact ⟨entry, hid, hby, hsub he⟩
  · exact hcall.elim

/-- A row for the id is in `hanko_revocations`. -/
def HankoDb.HasRevocation (id : Bytes) (db : HankoDb) : Prop := ∃ u, uuidIn id = some u ∧ u ∈ db.revokedKeys

/-- A row for the id is in `hanko_sigils`. -/
def HankoDb.HasSigil (id : Bytes) (db : HankoDb) : Prop := ∃ u, uuidIn id = some u ∧ (db.hankoSigils u).isSome

section Runs

variable {ι : Type} [DecidableEq ι] {S : Service} {pg : PgStore} {ps ps₁ ps' : ι → Prog (HankoSig.sum HostSig) Reply}
  {db db₁ db' : HankoDb} {tr tr' : List (ι × Event (HankoSig.sum HostSig))}

/-- What the statement of a revocation that returned leaves in the tables. -/
theorem revoke_tables {pg : PgStore} {entry : RevocationEntry} {gs : List (Event (HankoSig.sum HostSig))}
    (h : (Prog.lift HostSig (PGStore.store pg) (.inl (.revoke entry))).Ends gs (.ok ())) :
    ∃ g ∈ gs, ∀ db db', HankoHandler g.op db g.ans db' → db'.HasRevocation entry.id ∧ db'.HasSigil entry.revokedBy := by
  obtain ⟨ans, fs, rfl, hans⟩ := (ends_ask (S := HankoSig.sum HostSig) (o := .inl (.insertRevocation
    entry.targetType entry.id entry.reason entry.revokedBy))).mp h
  cases ans with
  | error e => cases (ends_ret.mp hans).2
  | ok k => exact ⟨_, List.mem_cons_self, fun db db' hstep => HankoDb.Faulty.insertRevocation hstep⟩

theorem hanko_revocationTable (pg : PgStore) :
    RevocationTable (Prog.lift HostSig (PGStore.store pg)) HankoHandler HankoDb.HasRevocation
      fun id g => ∃ e, g = ⟨.inl (.existsRevocation id), .error e⟩ where
  kept := by
    rintro id o db a db' hstep ⟨u, hu, hmem⟩
    exact ⟨u, hu, (hankoHandler_extends hstep).revokedKeys u hmem⟩
  written := by
    intro entry gs h
    obtain ⟨g, hg, hset⟩ := revoke_tables h
    exact ⟨g, hg, fun db db' hstep => (hset db db' hstep).1⟩
  found := by
    intro id gs h
    obtain ⟨ans, fs, rfl, hans⟩ := (ends_ask (S := HankoSig.sum HostSig) (o := .inl (.existsRevocation id))).mp h
    refine ⟨_, List.mem_cons_self, ?_⟩
    cases ans with
    | error e => exact .inl ⟨e, rfl⟩
    | ok found =>
      obtain rfl : false = found := (ends_ret.mp hans).2
      right
      rintro db db' ⟨u, hu, hkey⟩ hstep
      exact absurd ((HankoDb.Faulty.existsRevocation hu hstep).mpr hkey) (by decide)

/-- The sigil in whose name a revocation returned is in the table. -/
theorem hasSigil_of_covers {es : List (Event BrokerSig)} {fs tr : List (Event (HankoSig.sum HostSig))}
    (h : Exec HankoHandler db tr db') (hcov : Covers (Prog.lift HostSig (PGStore.store pg)) es fs) (hfs : fs ⊆ tr)
    {entry : RevocationEntry} (he : storeEvent (.revoke entry) (.ok ()) ∈ es) : db'.HasSigil entry.revokedBy := by
  refine h.established_of_covers (I := HankoDb.HasSigil entry.revokedBy) ?_ hcov hfs he ?_
  · rintro o db a db' hstep ⟨u, hu, hknown⟩
    exact ⟨u, hu, (hankoHandler_extends hstep).hankoSigils u hknown⟩
  · intro gs hgs
    obtain ⟨g, hg, hset⟩ := revoke_tables hgs
    exact ⟨g, hg, fun db db' hstep => (hset db db' hstep).2⟩

/-- Over a `PGStore`, whatever clients do concurrently and whichever statements fail: a
revocation that returned was made in the name of a sigil that is in the table, and a verification
that starts afterwards, of an envelope with the revoked sigil or cap, is not accepted unless
one of its lookups fails. A revoker the table does not have (such as the name of a tool) can
revoke nothing. -/
theorem pgstore_revocation_final (h : Run HankoHandler ps db tr ps₁ db₁)
    (h' : Run HankoHandler ps₁ db₁ tr' ps' db') (i j : ι)
    (call : Call) (reply : Reply) (id revokedBy : Bytes) (env : AttestationEnvelope)
    (hcall : call.RevokedBy id revokedBy reply) (hi : ps i = overTables (call.prog S) pg) (hret : ps₁ i = .ret reply)
    (hj : ps j = overTables ((Call.verifyAttestation env).prog S) pg) (hstart : of j tr = [])
    (hid : id = env.sigilID ∨ ∃ c ∈ env.capList, id = c.id) :
    db₁.HasSigil revokedBy ∧
      ((∀ e, (j, ⟨.inl (.existsRevocation id), .error e⟩) ∉ tr') → ps' j ≠ .ret (.err none)) := by
  obtain ⟨es, hes, hcov⟩ := Ends.of_interp (hi ▸ h.ends hret)
  obtain ⟨entry, rfl, rfl, he⟩ := hcall.ends hes
  have hsub := (of_sublist i tr).subset
  refine ⟨hasSigil_of_covers h.exec hcov hsub he, fun hlookup hacc => ?_⟩
  have hrevoked := (hanko_revocationTable pg).has h.exec hcov hsub he
  obtain ⟨es', hes', hcov'⟩ := Ends.of_interp (hj ▸ (h.append h').ends hacc)
  obtain ⟨r, hes', hr⟩ := ends_map.mp hes'
  cases hr
  rw [of_append, hstart, List.nil_append] at hcov'
  obtain ⟨g, hg, e, rfl⟩ := (hanko_revocationTable pg).failed h'.exec hrevoked hes' hcov' (of_sublist j tr').subset hid
  exact hlookup e (mem_of.mp hg)

end Runs

namespace Sample

/-- The sigil of an envelope revokes itself, and then the envelope is verified. -/
def revokeItself (verify : Bool) : Prog (HankoSig.sum HostSig) Reply :=
  overTables ((bif verify then .verifyAttestation env
    else .revokeSigil (uuid 1) (lit "stolen") (uuid 1) : Call).prog service) ⟨fun _ => 0⟩

end Sample

/-- The lookups answer, and the envelope is not accepted. -/
theorem pgstore_revocation_final_sample : ∃ tr ps₁ db₁ tr' ps' db',
    Run HankoHandler Sample.revokeItself Sample.registered tr ps₁ db₁ ∧ Run HankoHandler ps₁ db₁ tr' ps' db' ∧
      ps₁ false = .ret (.err none) ∧ db₁.HasSigil (Sample.uuid 1) ∧ ps' true ≠ .ret (.err none) := by
  obtain ⟨es, es', _, _, hx, h, h'⟩ :=
    Run.two Sample.runTables_refines Sample.revokeItself (Sample.registered, Sample.host 0)
    (show false ≠ true by decide) (a := .err none) rfl rfl
  obtain ⟨hknown, hfinal⟩ := pgstore_revocation_final (S := Sample.service) h h' false true
    (.revokeSigil (Sample.uuid 1) (lit "stolen") (Sample.uuid 1)) (.err none) (Sample.uuid 1) (Sample.uuid 1) Sample.env
    ⟨rfl, rfl⟩ rfl rfl rfl (of_map_ne (by decide) es) (.inl rfl)
  refine ⟨_, _, _, _, _, _, h, h', rfl, hknown, hfinal fun e he => ?_⟩
  obtain ⟨_, he, heq⟩ := List.mem_map.mp he
  cases heq
  refine hx.forall_mem (I := fun _ => True) (fun _ _ _ _ _ _ => trivial) trivial
    (P := fun e' => e' ≠ ⟨.inl (.existsRevocation (Sample.uuid 1)), .error e⟩) ?_ _ (List.mem_append_right _ he) rfl
  rintro _ ⟨db, w⟩ s - hstep rfl
  cases (Prod.mk.inj hstep).1

/-! ## The ledger of the tables -/

theorem unmarshalAny_metadata {metadata : List (Bytes × Bytes)} (h : IsJsonb metadata) :
    Json.unmarshalAny (Json.marshal (PgStore.metadataJson metadata)) =
      some (Json.sortKeys (PgStore.metadataJson metadata)) := by
  obtain ⟨hkeys, htexts⟩ := h
  refine Json.unmarshalAny_marshal
    ⟨by simpa [Function.comp_def] using hkeys, Json.properMembers_iff.mpr fun kv hkv => ?_⟩ ?_
  · obtain ⟨x, hx, rfl⟩ := List.mem_map.mp hkv
    exact ⟨(htexts x hx).1.1, (htexts x hx).2.1⟩
  · have hmembers : Json.depthMembers (metadata.map fun kv => (kv.1, .str kv.2)) ≤ 1 := by
      refine Json.depthMembers_le_iff.mpr fun kv hkv => ?_
      obtain ⟨x, -, rfl⟩ := List.mem_map.mp hkv
      exact Nat.zero_le _
    simp only [PgStore.metadataJson, Json.depth, Json.maxNestingDepth]
    omega

/-- A row whose metadata can be read. -/
def SigilRow.Readable (row : SigilRow) : Prop := ∃ metadata, PGStore.unmarshalMetadata row.metadata = .ok metadata

theorem readable_of_metadata {metadata : List (Bytes × Bytes)} (h : IsJsonb metadata) {row : SigilRow}
    (hrow : jsonbParam (Json.marshal (PgStore.metadataJson metadata)) = .ok row.metadata) : row.Readable := by
  rw [jsonbParam, unmarshalAny_metadata h] at hrow
  dsimp only at hrow
  split at hrow
  · rw [SigilRow.Readable, ← Except.ok.inj hrow, PgStore.metadataJson, Json.sortKeys, PGStore.unmarshalMetadata]
    have hfind : ((Json.sortMembers (metadata.map fun kv => (kv.1, Json.str kv.2))).insertionSort Json.KeyLe).find?
        (fun kv => PgStore.scanEntry kv = none) = none := by
      simp only [List.find?_eq_none, Json.sortMembers_eq, List.mem_insertionSort, List.mem_map]
      rintro _ ⟨_, ⟨x, -, rfl⟩, rfl⟩
      simp [Json.sortKeys, PgStore.scanEntry]
    rw [hfind]
    exact ⟨_, rfl⟩
  · cases hrow

/-- What the tables mean. A sigil is known if it can be read. -/
def HankoDb.ledger (db : HankoDb) : Ledger where
  sigils := named fun u => ∃ row, db.hankoSigils u = some row ∧ row.Readable
  revoked := named (· ∈ db.revokedKeys)
  consumed := {n | db.audit.consumedNonces n}

/-- The sigil an operation rests on is known: the one a cap is for, and the one that
revokes. -/
def Known : StoreOp → Ledger → Prop
  | .getSigil id, L => id ∈ L.sigils
  | .revoke e, L => e.revokedBy ∈ L.sigils
  | _, _ => True

/-- An operation of a `PGStore`, run alone. -/
def PGStore.step (p : PgStore) (o : StoreSig.Op) (db : HankoDb) : StoreSig.Ans o × HankoDb :=
  (PGStore.store p o).exec HankoDb.step db

namespace PGStore

variable (p : PgStore) {db : HankoDb}

theorem step_saveSigil {s : Sigil} (hP : Allowed (.saveSigil s) db.ledger) :
    ∃ db', step p (.saveSigil s) db = (.ok (), db') ∧
      db'.ledger = { db.ledger with sigils := insert s.id db.ledger.sigils } := by
  obtain ⟨id, subject, publicKey, createdAt, expiresAt, metadata⟩ := s
  obtain ⟨⟨u, hu, rfl⟩, hsubject, hkey, hcreated, hexpires, hmetadata⟩ := hP
  obtain ⟨key, rfl⟩ := Option.isSome_iff_exists.mp hkey
  obtain ⟨us, hus⟩ := mapM_timeParam hexpires
  obtain ⟨v, hv⟩ := jsonbParam_metadata hmetadata
  obtain ⟨db', hok⟩ : ∃ db', db.upsertSigil (uuidOut u) subject (some key) createdAt expiresAt
      (Json.marshal (PgStore.metadataJson metadata)) = .ok (1, db') := by
    rw [HankoDb.upsertSigil, uuidParam_uuidOut hu, textParam_eq hsubject, timeParam_eq hcreated, hus, hv]
    exact ⟨_, rfl⟩
  obtain ⟨⟨w, row, hw, hrow, hsigils⟩, hrevoked, haudit⟩ := HankoDb.upsertSigil_ok hok
  obtain rfl : u = w := Option.some.inj ((uuidIn_uuidOut hu).symm.trans hw)
  have hreadable := readable_of_metadata hmetadata hrow
  refine ⟨db', ?_, Ledger.ext (named_insert hu fun w => ?_) ?_ ?_⟩
  · simp only [step, store, saveSigil, Prog.call, Prog.bind_eq, Prog.ask_bind, Prog.exec_ask, HankoDb.step, hok]
    rfl
  · rw [hsigils]
    by_cases hw : w = u
    · simp [hw, hreadable]
    · simp [hw]
  · simp only [HankoDb.ledger, HankoDb.revokedKeys, hrevoked]
  · simp only [HankoDb.ledger, haudit]

theorem step_getSigil {id : Bytes} (hid : id ∈ db.ledger.sigils) : ∃ s, step p (.getSigil id) db = (.ok s, db) := by
  obtain ⟨u, hu, rfl, row, hrow, metadata, hmetadata⟩ := hid
  simp only [step, store, getSigil, Prog.call, Prog.bind_eq, Prog.ask_bind, Prog.ret_bind, Prog.exec_ask, HankoDb.step,
    uuidParam_uuidOut hu, Except.map, hrow, Option.map_some, hmetadata]
  exact ⟨_, rfl⟩

theorem step_saveCap {c : CapabilityToken} (hP : Allowed (.saveCap c) db.ledger) :
    ∃ db', step p (.saveCap c) db = (.ok (), db') ∧ db'.ledger = db.ledger := by
  obtain ⟨id, sigilID, scope, issuedAt, expiresAt, nonce⟩ := c
  obtain ⟨⟨u, hu, rfl⟩, hsigil, ⟨v, hv, rfl⟩, hscope, hissued, hexpires, hnonce⟩ := hP
  obtain ⟨nonce, rfl⟩ := Option.isSome_iff_exists.mp hnonce
  obtain ⟨row, hrow, -⟩ := (mem_named hv).mp hsigil
  obtain ⟨db', hok⟩ : ∃ db',
    db.upsertCap (uuidOut u) (uuidOut v) scope issuedAt expiresAt (some nonce) = .ok (1, db') := by
    rw [HankoDb.upsertCap, uuidParam_uuidOut hu, uuidParam_uuidOut hv, textParam_eq hscope, timeParam_eq hissued,
      timeParam_eq hexpires]
    simp only [notNull, bind, Except.bind]
    rw [dif_pos]
    · exact ⟨_, rfl⟩
    · cases hcap : db.hankoCaps u with
      | none => exact Option.isSome_iff_exists.mpr ⟨row, hrow⟩
      | some cap => exact db.caps_reference u cap hcap
  obtain ⟨hsigils, hrevoked, haudit⟩ := HankoDb.upsertCap_ok hok
  refine ⟨db', ?_, ?_⟩
  · simp only [step, store, saveCap, Prog.call, Prog.bind_eq, Prog.ask_bind, Prog.exec_ask, HankoDb.step, hok]
    rfl
  · simp only [HankoDb.ledger, HankoDb.revokedKeys, hsigils, hrevoked, haudit]

theorem step_tryRecordNonce (n : Bytes) :
    ((step p (.tryRecordNonce (some n)) db).1 = true ↔ n ∉ db.ledger.consumed) ∧
      (step p (.tryRecordNonce (some n)) db).2.ledger = { db.ledger with consumed := insert n db.ledger.consumed } := by
  have hstep : step p (.tryRecordNonce (some n)) db =
      if db.audit.consumedNonces n then (false, db)
      else (true, { db with
        audit := { db.audit with consumedNonces := Function.update db.audit.consumedNonces n true } }) := by
    by_cases hn : db.audit.consumedNonces n = true
    · simp only [step, store, overTables, tryRecordNonce, Prog.call, Prog.bind_eq, Prog.ask_bind, Prog.interp,
        Prog.exec_ask, HankoDb.step, AuditDb.step, HankoDb.audit_insertNonce_some, if_pos hn]
      rfl
    · simp only [step, store, overTables, tryRecordNonce, Prog.call, Prog.bind_eq, Prog.ask_bind, Prog.interp,
        Prog.exec_ask, HankoDb.step, AuditDb.step, HankoDb.audit_insertNonce_some, if_neg hn]
      rfl
  rw [hstep]
  by_cases hn : db.audit.consumedNonces n = true
  · have hmem : n ∈ db.ledger.consumed := hn
    rw [if_pos hn, Set.insert_eq_of_mem hmem]
    exact ⟨⟨fun h => absurd h Bool.false_ne_true, fun h => absurd hmem h⟩, rfl⟩
  · have hmem : n ∉ db.ledger.consumed := hn
    rw [if_neg hn]
    refine ⟨⟨fun _ => hmem, fun _ => rfl⟩, Ledger.ext rfl rfl ?_⟩
    ext k
    change Function.update db.audit.consumedNonces n true k = true ↔ k = n ∨ db.audit.consumedNonces k = true
    by_cases hk : k = n <;> simp [hk]

theorem step_isRevoked {id : Bytes} (hP : Canonical id) :
    ∃ found, step p (.isRevoked id) db = (found, db) ∧ (found = true ↔ id ∈ db.ledger.revoked) := by
  obtain ⟨u, hu, rfl⟩ := hP
  refine ⟨db.hankoRevocations.any fun row => row.targetID = u, ?_, ?_⟩
  · simp only [step, store, isRevoked, Prog.call, Prog.bind_eq, Prog.ask_bind, Prog.exec_ask, HankoDb.step,
      uuidParam_uuidOut hu]
    rfl
  · refine Iff.trans ?_ (mem_named hu).symm
    simp [HankoDb.revokedKeys]

theorem step_revoke {e : RevocationEntry} (hP : Allowed (.revoke e) db.ledger) (hF : Known (.revoke e) db.ledger) :
    ∃ db', step p (.revoke e) db = (.ok (), db') ∧
      db'.ledger = { db.ledger with revoked := insert e.id db.ledger.revoked } := by
  obtain ⟨id, targetType, reason, revokedAt, revokedBy⟩ := e
  obtain ⟨⟨u, hu, rfl⟩, htype, hreason, -, -⟩ := hP
  obtain ⟨v, hv, rfl, row, hrow, -⟩ := hF
  have htext : IsText targetType := by
    rcases htype with rfl | rfl
    · exact ⟨valid_lit _, by decide⟩
    · exact ⟨valid_lit _, by decide⟩
  have hcheck : targetType ∈ [lit "sigil", lit "cap", lit "attestation"] := by
    rcases htype with rfl | rfl <;> simp
  obtain ⟨db', hok⟩ : ∃ db', db.insertRevocation targetType (uuidOut u) reason (uuidOut v) = .ok (1, db') := by
    rw [HankoDb.insertRevocation, uuidParam_uuidOut hu, uuidParam_uuidOut hv, textParam_eq htext, textParam_eq hreason]
    simp only [bind, Except.bind]
    rw [dif_pos hcheck, dif_pos (Option.isSome_iff_exists.mpr ⟨row, hrow⟩)]
    exact ⟨_, rfl⟩
  obtain ⟨⟨w, hw, hkeys⟩, -, hsigils, haudit⟩ := HankoDb.insertRevocation_ok hok
  obtain rfl : u = w := Option.some.inj ((uuidIn_uuidOut hu).symm.trans hw)
  refine ⟨db', ?_, Ledger.ext ?_ (named_insert hu hkeys) ?_⟩
  · simp only [step, store, revoke, Prog.call, Prog.bind_eq, Prog.ask_bind, Prog.exec_ask, HankoDb.step, hok]
    rfl
  · simp only [HankoDb.ledger, hsigils]
  · simp only [HankoDb.ledger, haudit]

theorem implements : Implements Ledger.Step (fun o L => Allowed o L ∧ Known o L) (step p) HankoDb.ledger := by
  rintro o db ⟨hP, hF⟩
  cases o with
  | saveSigil s =>
    obtain ⟨db', hstep, hledger⟩ := step_saveSigil p hP
    rw [hstep]
    exact ⟨rfl, hledger⟩
  | getSigil id =>
    obtain ⟨s, hstep⟩ := step_getSigil p hF
    rw [hstep]
    exact ⟨rfl, .inl ⟨⟨s, rfl⟩, hF⟩⟩
  | saveCap c =>
    obtain ⟨db', hstep, hledger⟩ := step_saveCap p hP
    rw [hstep]
    exact ⟨rfl, hledger⟩
  | tryRecordNonce n =>
    obtain ⟨n, rfl⟩ := Option.isSome_iff_exists.mp hP
    exact step_tryRecordNonce p n
  | isRevoked id =>
    obtain ⟨found, hstep, hfound⟩ := step_isRevoked p hP
    rw [hstep]
    exact ⟨rfl, hfound⟩
  | revoke e =>
    obtain ⟨db', hstep, hledger⟩ := step_revoke p hP hF
    rw [hstep]
    exact ⟨rfl, hledger⟩
  | getCap | nonceUsed | recordNonce | revocationList => exact hP.elim

end PGStore

/-! ## Calls -/

/-- The sigils that a call rests on are known. -/
def Call.Founded (L : Ledger) : Call → Prop
  | .issueCap sigilID _ _ => sigilID ∈ L.sigils
  | .revokeSigil _ _ revokedBy => revokedBy ∈ L.sigils
  | .revokeCap _ _ revokedBy => revokedBy ∈ L.sigils
  | _ => True

/-- The questions that rest on sigils of the set. -/
def RestsOn (sigils : Set Bytes) : BrokerSig.Op → Prop
  | .inl (.getSigil id) => id ∈ sigils
  | .inl (.revoke e) => e.revokedBy ∈ sigils
  | _ => True

theorem Call.Founded.asks {S : Service} {L : Ledger} {call : Call} (hf : call.Founded L) (hw : call.WellFormed) :
    (call.prog S).Asks (RestsOn L.sigils) := by
  cases call with
  | issueSigil subject pubKey expiresAt metadata =>
    refine asks_bind (p := S.broker.issueSigil ..)
      ⟨trivial, fun _ => ⟨trivial, fun _ => ⟨trivial, fun saved => ?_⟩⟩⟩ fun _ => trivial
    cases saved with
    | error e => trivial
    | ok u =>
      refine ⟨trivial, fun _ => ⟨trivial, fun _ => ⟨trivial, fun _ => ?_⟩⟩⟩
      change Prog.Asks _ (if S.broker.metrics then _ else _)
      split
      · exact ⟨trivial, fun _ => trivial⟩
      · trivial
  | issueCap sigilID scope expiresAt =>
    refine asks_bind (p := Broker.issueCap ..) ⟨hf, fun found => ?_⟩ fun _ => trivial
    cases found with
    | error e => trivial
    | ok s =>
      refine ⟨trivial, fun nonce => ?_⟩
      cases nonce with
      | error e => trivial
      | ok nonce =>
        refine ⟨trivial, fun _ => ⟨trivial, fun _ => ⟨trivial, fun saved => ?_⟩⟩⟩
        cases saved <;> trivial
  | issueAttestation sigilID caps expiresAt =>
    rw [Call.prog, issueAttestation_eq]
    refine asks_bind (p := .ask _ _) ⟨trivial, fun t => ?_⟩ fun _ => trivial
    dsimp only
    by_cases hm : (unsigned sigilID caps t expiresAt).Marshals
    · rw [signEnvelope_of_marshals hm]
      exact ⟨trivial, fun _ => trivial⟩
    · obtain ⟨e, he⟩ := signEnvelope_of_not_marshals hm
      rw [he]
      trivial
  | verifyAttestation env =>
    refine asks_bind ((S.broker.verifyAttestation_asks env).mono fun o ho => ?_) fun _ => trivial
    rcases o with o | o
    · cases o with
      | isRevoked | tryRecordNonce => trivial
      | _ => exact ho.elim
    · trivial
  | revokeSigil id reason revokedBy =>
    refine asks_bind (p := S.broker.revokeSigil ..) ⟨trivial, fun _ => ⟨hf, fun saved => ?_⟩⟩ fun _ => trivial
    cases saved with
    | error e => trivial
    | ok u => exact ⟨trivial, fun _ => ⟨trivial, fun _ => ⟨trivial, fun _ => trivial⟩⟩⟩
  | revokeCap id reason revokedBy =>
    refine asks_bind (p := Broker.revokeCap ..) ⟨trivial, fun _ => ⟨hf, fun saved => ?_⟩⟩ fun _ => trivial
    cases saved <;> trivial
  | bootstrapOIDC | adminRevoke => exact hw.elim

theorem ledger_sigils_grow {o : StoreOp} {L L' : Ledger} {a : o.Ans} (h : Ledger.Step o L a L') :
    L.sigils ⊆ L'.sigils := by
  cases o with
  | saveSigil s =>
    obtain ⟨-, rfl⟩ := h
    exact Set.subset_insert _ _
  | tryRecordNonce | saveCap | revoke => obtain ⟨-, rfl⟩ := h; exact subset_rfl
  | getSigil | nonceUsed | isRevoked => obtain ⟨rfl, -⟩ := h; exact subset_rfl
  | getCap | recordNonce | revocationList => obtain rfl := h; exact subset_rfl

/-- A call that rests on known sigils asks only for what either store can do. -/
theorem Call.founded_same {S : Service} {call : Call} {L : Ledger} {w : Host} (hw : w.WellFormed) (h : call.WellFormed)
    (hf : call.Founded L) :
    Sim System (onFirst fun o L => Allowed o L ∧ Known o L) Alike (L, w) (call.prog S) (call.prog S) := by
  refine (call.same hw h).restrict (I := fun t => L.sigils ⊆ t.1.sigils) (hf.asks h) subset_rfl ?_ ?_
  · rintro (o | o) t a t' ⟨hstep, hrest⟩ ht
    · exact ht.trans (ledger_sigils_grow hstep)
    · rwa [hrest]
  · rintro (o | o) t ho ht hP
    · refine ⟨hP, ?_⟩
      cases o with
      | getSigil id => exact ht ho
      | revoke e => exact ht ho
      | _ => trivial
    · trivial

theorem MemStore.implements_founded :
    Implements Ledger.Step (fun o L => Allowed o L ∧ Known o L) MemStore.step MemStore.ledger :=
  fun o m _ => MemStore.refines o m _ _ rfl

theorem runTables_eq {α : Type} (q : Prog BrokerSig α) (p : PgStore) (db : HankoDb) (w : Host) :
    runTables q p db w = q.exec (both (PGStore.step p) Host.step) (db, w) := by
  rw [runTables, overTables, Prog.exec_interp]
  congr 1
  funext o s
  obtain ⟨db, w⟩ := s
  cases o with
  | inl o => exact Prog.exec_inl HankoDb.step Host.step (PGStore.store p o) db w
  | inr o => rfl

theorem exec_host_wellFormed {α : Type} (q : Prog BrokerSig α) (m : MemStore) {w : Host} (hw : w.WellFormed) :
    (q.exec (both MemStore.step Host.step) (m, w)).2.2.WellFormed := by
  induction q generalizing m w with
  | ret a => exact hw
  | ask o k ih =>
    rcases o with o | o
    · exact ih _ _ hw
    · exact ih _ _ (hw.step o)

/-- Calls each of which rests on sigils that the store knows by then. -/
def FoundedRun (S : Service) : List Call → MemStore → Host → Prop
  | [], _, _ => True
  | call :: calls, m, w => call.Founded m.ledger ∧
    FoundedRun S calls (runMem (call.prog S) m w).2.1 (runMem (call.prog S) m w).2.2

/-- The pgx store is interchangeable with the in-memory store for calls that rest on known
sigils: from states that mean the same, a sequence of calls with arguments that the
schema accepts, in which caps are issued for known sigils and revocations are made by known
sigils, returns the same over both, given the same uuids, nonces and clock readings. -/
theorem pgstore_interchangeable (S : Service) (p : PgStore) (calls : List Call) (m : MemStore) (db : HankoDb) (w : Host)
    (hledger : db.ledger = m.ledger) (hcalls : ∀ call ∈ calls, call.WellFormed) (hw : w.WellFormed)
    (hfounded : FoundedRun S calls m w) :
    (runMem (.all (calls.map (Call.prog S))) m w).1 = (runTables (.all (calls.map (Call.prog S))) p db w).1 := by
  rw [runTables_eq, runMem]
  induction calls generalizing m db w with
  | nil => rfl
  | cons call calls ih =>
    obtain ⟨hcall, hcalls⟩ := List.forall_mem_cons.mp hcalls
    obtain ⟨hf, hrun⟩ := hfounded
    obtain ⟨hreply, hstate⟩ := (call.founded_same (S := S) hw hcall hf).exec_eq
      (MemStore.implements_founded.beside Host.step) ((PGStore.implements p).beside Host.step) system_det
      (s := (m, w)) (w := (db, w)) rfl (Prod.ext hledger rfl)
    have hw' := exec_host_wellFormed (call.prog S) m hw
    obtain ⟨hmeans, hhost⟩ := Prod.mk.inj hstate
    rw [List.map_cons, Prog.exec_all_cons, Prog.exec_all_cons, List.cons.injEq]
    refine ⟨hreply, ?_⟩
    have hrest := ih _ ((call.prog S).exec (both (PGStore.step p) Host.step) (db, w)).2.1 _ hmeans.symm hcalls hw' hrun
    have hthere : (((call.prog S).exec (both (PGStore.step p) Host.step) (db, w)).2.1,
        ((call.prog S).exec (both MemStore.step Host.step) (m, w)).2.2) =
        ((call.prog S).exec (both (PGStore.step p) Host.step) (db, w)).2 := Prod.ext rfl hhost
    rw [hthere] at hrest
    exact hrest

theorem HankoDb.ledger_empty (clock : Nat → Int) : (HankoDb.empty clock).ledger = MemStore.new.ledger := by
  refine Ledger.ext ?_ ?_ rfl
  · ext id
    refine iff_of_false ?_ (by simp [MemStore.new, MemStore.ledger])
    rintro ⟨_, _, _, _, h, _⟩
    cases h
  · ext id
    refine iff_of_false ?_ (by simp [MemStore.new, MemStore.ledger])
    rintro ⟨_, _, _, h⟩
    cases h

namespace Sample

/-- A sigil is issued, with a cap; it revokes itself, and an envelope of it is verified. -/
def selfRevoked : List Call :=
  [.issueSigil (lit "alice") (some []) none none, .issueCap (uuid 1) (lit "read") evening,
    .revokeSigil (uuid 1) (lit "stolen") (uuid 1), .verifyAttestation env]

theorem selfRevoked_wellFormed : ∀ call ∈ selfRevoked, call.WellFormed := by
  have hascii : (uuid 1).all (fun c => c < 128) = true := rfl
  have htext : IsText (uuid 1) :=
    ⟨valid_of_ascii fun c hc => of_decide_eq_true (List.all_eq_true.mp hascii c hc), by decide⟩
  simp only [selfRevoked, List.forall_mem_cons]
  exact ⟨⟨isText_lit (by decide), rfl, by simp, List.nodup_nil, by simp⟩,
    ⟨canonical_uuid 1, isText_lit (by decide), by decide, by decide⟩,
    ⟨canonical_uuid 1, isText_lit (by decide), htext⟩,
    ⟨canonical_uuid 1, List.forall_mem_singleton.mpr ⟨canonical_uuid 2, rfl⟩⟩, List.forall_mem_nil _⟩

end Sample

theorem pgstore_interchangeable_sample :
    (runMem (.all (Sample.selfRevoked.map (Call.prog Sample.service))) .new (Sample.host 1)).1 =
      (runTables (.all (Sample.selfRevoked.map (Call.prog Sample.service))) ⟨fun _ => 0⟩ (.empty fun _ => 0)
        (Sample.host 1)).1 :=
  pgstore_interchangeable _ _ _ _ _ _ (HankoDb.ledger_empty _) Sample.selfRevoked_wellFormed (Sample.host_wellFormed 1)
    ⟨trivial, rfl, rfl, trivial, trivial⟩

end Hanko
