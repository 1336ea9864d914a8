import Hanko.Proof.Interchange
import Hanko.Proof.Standalone

/-!
# Issue and verify

The envelope that `issue attestation` prints is accepted by `verify`: a process
with the key of the one that issued it reads it from the output of that process,
and finds no fault with it, unless something in it is revoked, expired or used
(`issued_attestation_verifies`).

* `issued_ends`: what a process that issues an envelope has signed and printed;
* `verifySigned_clear`: a verification over a ledger that has nothing against it;
* `exec_seen`: the database, as far as a verification looks at it, is such a
  ledger.
-/

namespace Hanko

open Bytes Interact

/-- A database that does not fail. -/
def SoundProc : Handler ProcSig Db := Handler.opened SysSig (Handler.graph Db.step)

/-- What a verification sees of the tables. Ids may be spelled in any way. -/
def Db.seen (db : Db) : Ledger := ⟨∅, {id | db.HasRevocation id}, {n | db.consumedNonces n = true}⟩

namespace Cli

variable {c : Cli}

/-! ## The database -/

theorem through_inl {priv : Bytes} {o : StoreOp} {a : o.Ans} {db db' : Db}
    (h : SoundProc.through (c.pgImpl priv) (.inl o) db a db') : c.pg.step o db = (a, db') := by
  obtain ⟨es, hes, hx⟩ := h
  obtain ⟨fs, hfs, rfl⟩ := ends_inl.mp hes
  exact Ends.exec_eq hfs (exec_opened_inl.mp hx)

theorem through_inr {priv : Bytes} {o : HostOp} {a : o.Ans} {db db' : Db}
    (h : SoundProc.through (c.pgImpl priv) (.inr o) db a db') : db' = db := by
  obtain ⟨es, hes, hx⟩ := h
  cases o with
  | sign message =>
    obtain ⟨rfl, -⟩ := ends_ret.mp hes
    exact exec_nil_iff.mp hx
  | publish subject payload =>
    obtain ⟨rfl, -⟩ := ends_ret.mp hes
    exact exec_nil_iff.mp hx
  | _ =>
    obtain ⟨b, es', rfl, hret⟩ := ends_ask.mp hes
    obtain ⟨rfl, -⟩ := ends_ret.mp hret
    obtain ⟨db₁, hstep, hx₁⟩ := exec_cons_iff.mp hx
    exact (exec_nil_iff.mp hx₁).trans hstep

theorem step_isRevoked_seen (p : PgStore) (id : Bytes) (db : Db) :
    (p.step (.isRevoked id) db).2 = db ∧ ((p.step (.isRevoked id) db).1 = true ↔ id ∈ db.seen.revoked) := by
  have hseen : id ∈ db.seen.revoked ↔ ∃ u, uuidIn id = some u ∧ u ∈ db.revokedKeys := Iff.rfl
  simp only [PgStore.step, PgStore.impl, PgStore.isRevoked, Prog.call, Prog.bind_eq, Prog.ask_bind,
    Prog.exec_ask, Db.step, uuidParam, hseen]
  cases uuidIn id with
  | none => exact ⟨rfl, iff_of_false Bool.false_ne_true (by simp)⟩
  | some u =>
    refine ⟨rfl, ?_⟩
    simp only [Option.some.injEq, exists_eq_left']
    exact decide_eq_true_iff

theorem step_tryRecordNonce_seen (p : PgStore) (n : Bytes) (db : Db) :
    ((p.step (.tryRecordNonce (some n)) db).1 = true ↔ n ∉ db.seen.consumed) ∧
      (p.step (.tryRecordNonce (some n)) db).2.seen = { db.seen with consumed := insert n db.seen.consumed } := by
  have hseen : n ∈ db.seen.consumed ↔ db.consumedNonces n = true := Iff.rfl
  simp only [PgStore.step, PgStore.impl, PgStore.tryRecordNonce, PgStore.recordNonceStrict, Prog.call, Prog.bind_eq,
    Prog.ask_bind, Prog.exec_ask, Db.step, Db.insertNonce_some]
  by_cases hn : db.consumedNonces n = true
  · rw [if_pos hn, Set.insert_eq_of_mem (hseen.mpr hn)]
    exact ⟨iff_of_false Bool.false_ne_true fun h => h hn, rfl⟩
  · rw [if_neg hn]
    refine ⟨iff_of_true rfl hn, Ledger.ext rfl rfl ?_⟩
    ext k
    change Function.update db.consumedNonces n true k = true ↔ k = n ∨ db.consumedNonces k = true
    by_cases hk : k = n <;> simp [hk]

/-- What a verification asks of the store, for caps that have nonces. -/
def Lookup : BrokerSig.Op → Prop
  | .inl (.isRevoked _) => True
  | .inl (.tryRecordNonce n) => n.isSome
  | .inl _ => False
  | .inr _ => True

theorem through_seen {priv : Bytes} {o : BrokerSig.Op} {a : BrokerSig.Ans o} {db db' : Db} (hlookup : Lookup o)
    (h : SoundProc.through (c.pgImpl priv) o db a db') : LedgerHandler o db.seen a db'.seen := by
  cases o with
  | inr o => exact congrArg Db.seen (through_inr h)
  | inl o =>
    have hstep := through_inl h
    cases o with
    | isRevoked id =>
      obtain ⟨hdb, hfound⟩ := step_isRevoked_seen c.pg id db
      rw [hstep] at hdb hfound
      exact ⟨congrArg Db.seen hdb, hfound⟩
    | tryRecordNonce n =>
      obtain ⟨n, rfl⟩ := Option.isSome_iff_exists.mp hlookup
      have hnonce := step_tryRecordNonce_seen c.pg n db
      rw [hstep] at hnonce
      exact hnonce
    | _ => exact hlookup.elim

theorem exec_seen {priv : Bytes} {es : List (Event BrokerSig)} {fs : List (Event ProcSig)} {db db' : Db}
    (hc : Covers (c.pgImpl priv) es fs) (hx : Exec SoundProc db fs db') (hes : ∀ e ∈ es, Lookup e.op) :
    Exec LedgerHandler db.seen es db'.seen :=
  ((hc.exec hx).restrict hes).refine fun _ _ _ _ h => through_seen h.2 h.1

/-! ## A verification that nothing stands against -/

/-- The envelope has no nonce twice, and the ledger has none of them; nothing of
it is revoked. -/
structure Clear (env : AttestationEnvelope) (L : Ledger) : Prop where
  sigil : env.sigilID ∉ L.revoked
  caps : ∀ cap ∈ env.capList, cap.id ∉ L.revoked
  nonces : ∀ n ∈ env.nonces, n ∉ L.consumed
  distinct : env.nonces.Nodup

/-- At none of the times anything of the envelope has expired. -/
def Unexpired (env : AttestationEnvelope) (ts : List Time) : Prop :=
  ∀ t ∈ ts, t.after env.expiresAt = false ∧ ∀ cap ∈ env.capList, t.after cap.expiresAt = false

theorem mem_hostReadings {es : List (Event BrokerSig)} {t : Time} (h : hostEvent .timeNow t ∈ es) :
    t ∈ hostReadings es :=
  List.mem_filterMap.mpr ⟨⟨.timeNow, t⟩, List.mem_filterMap.mpr ⟨_, h, rfl⟩, rfl⟩

/-- A verification revokes nothing, and records nonces only as their first user. -/
theorem verifySigned_onStore {env : AttestationEnvelope} {es : List (Event BrokerSig)} {r : Option GoError}
    (h : (Broker.verifySigned env).Ends es r) {e : Event BrokerSig} (he : e ∈ es) :
    (∀ id, ¬ OnStore (Ledger.Revokes id) e) ∧ ∀ n, OnStore (Ledger.Records n) e → wins n e = true := by
  obtain ⟨o | o, a⟩ := e
  · have hstore := Broker.verifySigned_store h he
    constructor
    · rintro id ⟨entry, _, -, heq⟩
      cases heq
      rcases hstore with ⟨_, heq⟩ | ⟨_, -, heq⟩ <;> cases heq
    · rintro n (⟨m, -, heq⟩ | ⟨m, hm, heq⟩)
      · cases heq
        rcases hstore with ⟨_, heq⟩ | ⟨_, -, heq⟩ <;> cases heq
      · cases heq
        exact wins_iff.mpr ⟨m, hm, rfl⟩
  · exact ⟨fun _ => id, fun _ => False.elim⟩

theorem verifySigned_clear {env : AttestationEnvelope} {es : List (Event BrokerSig)}
    {r : Option GoError} {L L' : Ledger}
    (h : (Broker.verifySigned env).Ends es r) (hx : Exec LedgerHandler L es L') (hclear : Clear env L)
    (htimes : Unexpired env (hostReadings es)) : r = none := by
  have hunrevoked : ∀ id ∉ L.revoked, storeEvent (.isRevoked id) true ∉ es := fun id hid =>
    exec_not_revoked hx hid fun e he => (verifySigned_onStore h he).1 id
  have hclean : Broker.Clean env es :=
    { revoked := by
        intro id hid
        refine ⟨?_, fun cap hcap => ?_⟩
        · rintro rfl
          exact hunrevoked _ hclear.sigil hid
        · rintro rfl
          exact hunrevoked _ (hclear.caps cap hcap) hid
      expired := fun t ht => htimes t (mem_hostReadings ht) }
  rcases Broker.verifySigned_verdict h hclean with hnone | ⟨-, cap, hcap, hlost⟩
  · exact hnone
  · -- nobody but the verification itself can have used the nonce it lost
    have hmem : nonceBytes cap.nonce ∈ env.nonces := List.mem_map.mpr ⟨cap, hcap, rfl⟩
    obtain ⟨e, he, hrec⟩ := exec_recorded hx hlost (hclear.nonces _ hmem)
    have hzero := Broker.not_wins_of_lost h hclear.distinct hlost
    exact absurd ((verifySigned_onStore h he).2 _ hrec) (List.countP_eq_zero.mp hzero e he)

/-! ## The process that verifies -/

/-- The readings of the clock by a broker over Postgres are those of its
process. -/
theorem covers_readings_pg {priv : Bytes} {es : List (Event BrokerSig)} {fs : List (Event ProcSig)}
    (h : Covers (c.pgImpl priv) es fs) : readings fs = hostReadings es := by
  induction h with
  | nil => rfl
  | @cons e es gs fs hg _ ih =>
    rw [readings] at ih
    rw [readings, List.filterMap_append, ih]
    obtain ⟨o | o, a⟩ := e
    · obtain ⟨hs, -, rfl⟩ := ends_inl.mp hg
      have hnone : (hs.map fun e => (⟨.inl e.op, e.ans⟩ : Event ProcSig)).filterMap readingOf = [] := by
        simp [List.filterMap_eq_nil_iff, readingOf]
      rw [hnone]
      rfl
    · have hhead : gs.filterMap readingOf = (hostReadingOf ⟨o, a⟩).toList := hostImpl_readings hg
      rw [hhead]
      change _ = List.filterMap hostReadingOf (⟨o, a⟩ :: rights es)
      cases hread : hostReadingOf ⟨o, a⟩ with
      | none =>
        rw [List.filterMap_cons_none hread]
        rfl
      | some t =>
        rw [List.filterMap_cons_some hread]
        rfl

/-- The question is not for the database. -/
def OnSystem : ProcSig.Op → Prop
  | .inl _ => False
  | .inr _ => True

/-- What is asked of the system leaves the database as it is. -/
theorem exec_system {es : List (Event ProcSig)} {db db' : Db} (hes : ∀ e ∈ es, OnSystem e.op)
    (hx : Exec SoundProc db es db') : db' = db := by
  refine (hx.restrict hes).invariant (I := fun d => d = db) ?_ rfl
  rintro (o | o) d a d' ⟨hstep, hsys⟩ rfl
  · exact hsys.elim
  · exact hstep

theorem start_system (flag : Bytes) : (c.start flag).run.Asks OnSystem := by
  have hstartup : ∀ o, Startup o → OnSystem o := by
    rintro (o | o) h
    · exact h
    · trivial
  refine asks_exceptBind ((openStore_startup flag).mono hstartup) fun store => asks_exceptBind ?_ fun _ => asks_ret _
  refine asks_exceptBind (keyPath_startup.mono hstartup) fun path => asks_exceptBind (asks_sys trivial) fun file => ?_
  cases file.result path with
  | error e => exact asks_ret _
  | ok raw =>
    dsimp only
    cases parseKey raw <;> exact asks_ret _

theorem onSystem_input {e : Event ProcSig} (h : (inputOf e).isSome) : OnSystem e.op := by
  obtain ⟨o | o, a⟩ := e
  · cases h
  · trivial

/-- The part of a process that its broker runs, over Postgres. -/
theorem withBroker_connected {α : Type} {flag : Bytes} {p : Broker → Prog BrokerSig (Except Output α)}
    {es : List (Event ProcSig)} {r : Except Output α} {priv : Bytes} (h : (c.withBroker flag p).run.Ends es r)
    (hconnected : Connected es) (hkey : KeyRead es priv) :
    ∃ es₁ es₂ bs, es = es₁ ++ es₂ ∧ (∀ e ∈ es₁, OnSystem e.op) ∧ readings es₁ = [] ∧
      (p (c.newBroker priv)).Ends bs r ∧ Covers (c.pgImpl priv) bs es₂ := by
  rcases withBroker_ends.mp h with ⟨out, hstart, rfl⟩ | ⟨es₁, es₂, store, priv', rfl, hstart, hbroker⟩
  · obtain ⟨_, heq⟩ := (start_key hstart priv).mp hkey
    cases heq
  obtain rfl := store_eq_pg hstart hbroker hconnected
  obtain ⟨_, heq⟩ := (start_key hstart priv).mp ((keyRead_append.mp hkey).resolve_right (runBroker_not_keyRead hbroker))
  cases heq
  obtain ⟨bs, hbs, hcov⟩ := runBroker_pg hbroker
  exact ⟨es₁, es₂, bs, rfl, fun e he => Path.asks hstart (start_system flag) e he, start_readings hstart, hbs, hcov⟩

/-- A process `verify` that has opened the database, with the key `priv`. -/
theorem verify_clear {args : List Bytes} {es : List (Event ProcSig)} {ended : Ended} {env : AttestationEnvelope}
    {priv : Bytes} {db db' : Db} (h : (c.main args).Ends es ended)
    (hcommand : (extractStoreFlag args).1.head? = some (lit "verify"))
    (hgiven : (es.head?.bind inputOf).bind unmarshalEnvelope = some env) (hconnected : Connected es)
    (hkey : KeyRead es.tail priv) (hvalid : (c.newBroker priv).SignatureValid env)
    (hnonces : ∀ cap ∈ env.capList, cap.nonce.isSome) (hx : Exec SoundProc db es db') (hclear : Clear env db.seen)
    (htimes : Unexpired env (readings es)) : ended = .exited (prints (lit "OK\n")) := by
  obtain ⟨rest, hmain⟩ := main_verify (c := c) hcommand
  rw [hmain] at h
  obtain ⟨r, hr, rfl⟩ := ends_map.mp h
  obtain ⟨e, es', rfl, hinput, hverify⟩ := runVerify_given hr hgiven
  have hconnected' : Connected es' := by
    rcases List.mem_cons.mp hconnected with rfl | hc
    · cases hinput
    · exact hc
  obtain ⟨es₁, es₂, bs, rfl, hsystem, hquiet, hbs, hcov⟩ := withBroker_connected hverify hconnected' hkey
  obtain ⟨v, hv, rfl⟩ := ends_map.mp hbs
  rw [Broker.verifyAttestation_of_valid hvalid] at hv
  -- the database is as it was when the broker starts
  rw [← List.cons_append] at hx
  obtain ⟨db₁, hx₁, hx₂⟩ := exec_append_iff.mp hx
  obtain rfl := exec_system (List.forall_mem_cons.mpr ⟨onSystem_input hinput, hsystem⟩) hx₁
  have hlookup : ∀ e ∈ bs, Lookup e.op := by
    rintro ⟨o | o, a⟩ he
    · rcases Broker.verifySigned_store hv he with ⟨id, rfl⟩ | ⟨cap, hcap, rfl⟩
      · trivial
      · exact hnonces cap hcap
    · trivial
  have hreadings : readings (e :: (es₁ ++ es₂)) = hostReadings bs := by
    rw [readings] at hquiet
    rw [readings, List.filterMap_cons_none (readingOf_input hinput), List.filterMap_append, hquiet]
    exact covers_readings_pg hcov
  rw [hreadings] at htimes
  rw [verifySigned_clear hv (exec_seen hcov hx₂ hlookup) hclear htimes]
  rfl

/-! ## The process that issues -/

theorem attestationFlag_failed {arg : Bytes}
    {set : Bytes → AttestationFlags → Except Output AttestationFlags} {v : Bytes}
    {f : AttestationFlags} {out : Output} (hset : attestationFlag arg = some set) (h : set v f = .error out) :
    out.Failed := by
  rw [attestationFlag] at hset
  split_ifs at hset <;> cases hset <;> cases h

theorem required_failed {value : Bytes} {msg : String} {out : Output} (h : required value msg = .error out) :
    out.Failed := by
  rw [required] at h
  split at h
  · cases h
    exact failed_die _
  · cases h

theorem parseTTL_failed {s : Bytes} {out : Output} (h : c.parseTTL s = .error out) : out.Failed := by
  rw [parseTTL] at h
  split at h
  · cases h
  · cases h
    exact failed_die _

theorem bind_failed {α β : Type} {x : Except Output α} {f : α → Except Output β} {out : Output}
    (hx : ∀ out, x = .error out → out.Failed) (hf : ∀ a out, f a = .error out → out.Failed)
    (h : x >>= f = .error out) : out.Failed := by
  cases x with
  | error out' =>
    cases h
    exact hx out rfl
  | ok a => exact hf a out h

theorem parseIssueAttestation_failed {args : List Bytes} {out : Output}
    (h : c.parseIssueAttestation args = .error out) :
    out.Failed := by
  have hflags : ∀ out, parseFlags attestationFlag ignored args ⟨[], [], []⟩ = .error out → out.Failed :=
    parseFlags_failed (fun _ _ _ _ _ => attestationFlag_failed) (fun _ _ h => by cases h) args _
  refine bind_failed hflags (fun f _ => bind_failed (fun _ => required_failed) fun _ _ =>
    bind_failed (fun _ => required_failed) fun _ _ => bind_failed (fun _ => parseTTL_failed) fun ttl out h => ?_) h
  cases h

/-- The caps are those the store gives for the ids, in their order. -/
theorem resolveCaps_ends {cids : List Bytes} {es : List (Event BrokerSig)} {r : Except Output (List CapabilityToken)}
    (h : (resolveCaps cids).Ends es r) :
    (∃ out, r = .error out ∧ out.Failed) ∨
      ∃ found : List (Bytes × CapabilityToken), r = .ok (found.map Prod.snd) ∧
        es = found.map fun p => storeEvent (.getCap p.1) (.ok p.2) := by
  induction cids generalizing es r with
  | nil =>
    obtain ⟨rfl, rfl⟩ := ends_ret.mp h
    exact .inr ⟨[], rfl, rfl⟩
  | cons cid cids ih =>
    obtain ⟨a, es₁, rfl, h₁⟩ := ends_ask.mp h
    cases a with
    | error e =>
      obtain ⟨-, rfl⟩ := ends_ret.mp h₁
      exact .inl ⟨_, rfl, failed_die _⟩
    | ok cap =>
      obtain ⟨es₂, es₃, caps, rfl, hrest, hret⟩ := (ends_bind (p := resolveCaps cids)).mp h₁
      rcases ih hrest with ⟨out, rfl, hout⟩ | ⟨found, rfl, rfl⟩
      · obtain ⟨-, rfl⟩ := ends_ret.mp hret
        exact .inl ⟨out, rfl, hout⟩
      · obtain ⟨rfl, rfl⟩ := ends_ret.mp hret
        refine .inr ⟨(cid, cap) :: found, rfl, ?_⟩
        rw [List.append_nil]
        rfl

/-- What `issue attestation` has done when it prints an envelope. -/
theorem issueResolved_ends {sigilID : Bytes} {capIDs : List Bytes} {ttl : Duration} {es : List (Event BrokerSig)}
    {r : Except Output Output} (h : (issueResolved sigilID capIDs ttl).Ends es r) :
    (∃ out, r = .error out ∧ out.Failed) ∨
      ∃ (found : List (Bytes × CapabilityToken)) (t t' : Time) (sig : Bytes) (env : AttestationEnvelope),
        env = unsigned sigilID (some (found.map Prod.snd)) t' (t.add ttl) ∧ env.Marshals ∧
        r = .ok (prints (printJSON { env with signature := some sig }.toJson)) ∧
        es = (found.map fun p => storeEvent (.getCap p.1) (.ok p.2)) ++
          [hostEvent .timeNow t, hostEvent .timeNow t', hostEvent (.sign env.signedBytes) sig] := by
  obtain ⟨es₁, es₂, caps, rfl, hcaps, h₂⟩ := (ends_bind (p := resolveCaps capIDs)).mp h
  rcases resolveCaps_ends hcaps with ⟨out, rfl, hout⟩ | ⟨found, rfl, rfl⟩
  · obtain ⟨-, rfl⟩ := ends_ret.mp h₂
    exact .inl ⟨out, rfl, hout⟩
  · obtain ⟨t, es₃, rfl, h₃⟩ := ends_ask.mp h₂
    obtain ⟨es₄, es₅, a, rfl, hissue, hret⟩ := (ends_bind (p := Broker.issueAttestation _ _ _)).mp h₃
    cases a with
    | error e =>
      obtain ⟨-, rfl⟩ := ends_ret.mp hret
      exact .inl ⟨_, rfl, failed_die _⟩
    | ok env =>
      obtain ⟨rfl, rfl⟩ := ends_ret.mp hret
      obtain ⟨t', sig, hm, rfl, rfl⟩ := issueAttestation_ends.mp hissue
      refine .inr ⟨found, t, t', sig, _, rfl, hm, rfl, ?_⟩
      rw [List.append_nil]

theorem runIssueAttestation_stops (args : List Bytes) (flag : Bytes) : Stops (c.runIssueAttestation args flag) := by
  refine .bind (.parsed fun _ h => parseIssueAttestation_failed h) fun _ => withBroker_stops fun _ _ _ h => ?_
  rcases issueResolved_ends h with ⟨out, heq, hout⟩ | ⟨_, _, _, _, _, -, -, heq, -⟩
  · cases heq
    exact hout
  · cases heq

theorem main_issueAttestation {args : List Bytes}
    (h : (extractStoreFlag args).1.take 2 = [lit "issue", lit "attestation"]) :
    ∃ rest, c.main args = exited (c.runIssueAttestation rest (extractStoreFlag args).2) := by
  rw [main]
  generalize (extractStoreFlag args).1 = words at h
  rcases words with - | ⟨cmd, - | ⟨kind, rest⟩⟩
  · cases h
  · cases (List.cons.inj h).2
  · obtain ⟨rfl, rfl⟩ : cmd = lit "issue" ∧ kind = lit "attestation" := by simpa using h
    exact ⟨rest, rfl⟩

/-! ## The caps of an issued envelope -/

/-- A cap as the store of the process gives it: its nonce is not `nil`, and its
times are of the zone of the process. -/
structure Scanned (p : PgStore) (cap : CapabilityToken) : Prop where
  nonce : cap.nonce.isSome
  issuedAt : ∃ us, cap.issuedAt = p.scanTime us
  expiresAt : ∃ us, cap.expiresAt = p.scanTime us

theorem getCap_scanned {p : PgStore} {id : Bytes} {es : List (Event SqlSig)} {cap : CapabilityToken}
    (h : (p.getCap id).Ends es (.ok cap)) : Scanned p cap := by
  obtain ⟨a, es₁, rfl, h₁⟩ := ends_ask.mp h
  rcases a with e | _ | ⟨u, row⟩
  · cases (ends_ret.mp h₁).2
  · cases (ends_ret.mp h₁).2
  · cases (ends_ret.mp h₁).2
    exact ⟨rfl, ⟨_, rfl⟩, ⟨_, rfl⟩⟩

/-- Only what is in memory can be got from there. -/
theorem not_getCap_new {id : Bytes} {cap : CapabilityToken} {es : List (Event BrokerSig)} {m : MemStore}
    (h : Exec MemHandler .new (storeEvent (.getCap id) (.ok cap) :: es) m) : False := by
  obtain ⟨_, hstep, -⟩ := exec_cons_iff.mp h
  cases congrArg Prod.fst hstep

theorem hostImpl_sign {priv message sig : Bytes} {fs : List (Event ProcSig)}
    (h : (c.hostImpl priv (.sign message)).Ends fs sig) : sig = c.ed25519Sign priv message :=
  (ends_ret.mp h).2

/-- A process that has issued an attestation: what it signed, and printed. -/
theorem issued_ends {args : List Bytes} {es : List (Event ProcSig)} {out : Output} {priv : Bytes}
    (h : (c.main args).Ends es (.exited out))
    (hcommand : (extractStoreFlag args).1.take 2 = [lit "issue", lit "attestation"]) (hstatus : out.status = 0)
    (hkey : KeyRead es priv) :
    ∃ (sigilID : Bytes) (caps : List CapabilityToken) (t t' : Time) (ttl : Duration) (env : AttestationEnvelope),
      env = unsigned sigilID (some caps) t' (t.add ttl) ∧ env.Marshals ∧ t ∈ readings es ∧
      (∀ cap ∈ caps, Scanned c.pg cap) ∧
      out.stdout = printJSON { env with signature := some (c.ed25519Sign priv env.signedBytes) }.toJson := by
  obtain ⟨rest, hmain⟩ := main_issueAttestation (c := c) hcommand
  rw [hmain] at h
  have hrun := exited_ok (runIssueAttestation_stops rest _) h rfl hstatus
  rcases ends_exceptBind.mp hrun with ⟨_, -, heq⟩ | ⟨es₀, es', ⟨sigilID, capIDs, ttl⟩, rfl, hparsed, hissue⟩
  · cases heq
  obtain ⟨rfl, -⟩ := ends_ret.mp hparsed
  rw [List.nil_append] at hkey ⊢
  rcases withBroker_ends.mp hissue with ⟨_, -, heq⟩ | ⟨es₁, es₂, store, priv', rfl, hstart, hbroker⟩
  · cases heq
  obtain ⟨_, heq⟩ := (start_key hstart priv).mp ((keyRead_append.mp hkey).resolve_right (runBroker_not_keyRead hbroker))
  cases heq
  have hreadings : readings (es₁ ++ es₂) = readings es₂ := by
    have hquiet := start_readings hstart
    rw [readings] at hquiet
    rw [readings, List.filterMap_append, hquiet]
    rfl
  rw [hreadings]
  cases store with
  | pg =>
    obtain ⟨bs, hbs, hcov⟩ := runBroker_pg hbroker
    rcases issueResolved_ends hbs with ⟨_, heq, -⟩ | ⟨found, t, t', sig, env, henv, hm, heq, rfl⟩
    · cases heq
    cases heq
    obtain ⟨gs, hsign, -⟩ := hcov.exists_of_mem (List.mem_append_right _ (.tail _ (.tail _ (.head _))))
    obtain rfl := hostImpl_sign hsign
    refine ⟨sigilID, found.map Prod.snd, t, t', ttl, env, henv, hm, ?_, fun cap hcap => ?_, rfl⟩
    · rw [covers_readings_pg hcov]
      exact mem_hostReadings (List.mem_append_right _ (.head _))
    · obtain ⟨q, hq, rfl⟩ := List.mem_map.mp hcap
      obtain ⟨gs, hget, -⟩ := hcov.exists_of_mem (List.mem_append_left _ (List.mem_map_of_mem hq))
      obtain ⟨gs', hget', -⟩ := ends_inl.mp hget
      exact getCap_scanned hget'
  | mem =>
    obtain ⟨bs, m, hbs, hx, hcov⟩ := runBroker_mem hbroker
    rcases issueResolved_ends hbs with ⟨_, heq, -⟩ | ⟨found, t, t', sig, env, henv, hm, heq, rfl⟩
    · cases heq
    cases heq
    cases found with
    | cons q found => exact (not_getCap_new hx).elim
    | nil =>
      obtain ⟨gs, hsign, -⟩ := hcov.exists_of_mem (.tail _ (.tail _ (.head _)))
      obtain rfl := hostImpl_sign hsign
      refine ⟨sigilID, [], t, t', ttl, env, henv, hm, ?_, List.forall_mem_nil _, rfl⟩
      rw [covers_readings hcov]
      exact .head _

/-- The text that `issue attestation` prints is accepted by `verify`, in any
process with the same key, unless something in the envelope is revoked, has
expired or was used. The zone of the process that issued it must not be off from
UTC by less than a minute. -/
theorem issued_attestation_verifies (c c' : Cli) (args : List Bytes) (es : List (Event ProcSig)) (out : Output)
    (priv : Bytes) (h : (c.main args).Ends es (.exited out))
    (hcommand : (extractStoreFlag args).1.take 2 = [lit "issue", lit "attestation"]) (hstatus : out.status = 0)
    (hkey : KeyRead es priv)
    (hsign : ∀ message, c'.ed25519Verify (publicKey priv) message (c.ed25519Sign priv message) = true)
    (hzone : (∀ t ∈ readings es, t.Stable) ∧ ∀ us, (c.pg.scanTime us).Stable) :
    ∃ env, unmarshalEnvelope out.stdout = some env ∧ (c'.newBroker priv).SignatureValid env ∧
      ∀ args' es' ended db db', (c'.main args').Ends es' ended →
        (extractStoreFlag args').1.head? = some (lit "verify") → es'.head?.bind inputOf = some out.stdout →
        Connected es' → KeyRead es'.tail priv → Exec SoundProc db es' db' → Clear env db.seen →
        Unexpired env (readings es') → ended = .exited (prints (lit "OK\n")) := by
  obtain ⟨sigilID, caps, t, t', ttl, env, henv, hm, hread, hcaps, hprint⟩ := issued_ends h hcommand hstatus hkey
  set signed : AttestationEnvelope := { env with signature := some (c.ed25519Sign priv env.signedBytes) } with hsigned
  have hm' : signed.Marshals := hm
  have hvalid : (c'.newBroker priv).SignatureValid signed := Broker.signatureValid_iff.mpr ⟨hm', hsign _⟩
  have hstable : signed.Stable := by
    have hscanned : ∀ cap ∈ caps, cap.Stable := by
      intro cap hcap
      obtain ⟨us, hus⟩ := (hcaps cap hcap).issuedAt
      obtain ⟨us', hus'⟩ := (hcaps cap hcap).expiresAt
      exact ⟨hus ▸ hzone.2 us, hus' ▸ hzone.2 us'⟩
    have hunsigned := (stable_unsigned_iff sigilID (some caps) t' (t.add ttl)).mpr ⟨hzone.1 t hread, hscanned⟩
    rw [← henv] at hunsigned
    exact hunsigned
  have hvalid' := Broker.signatureValid_transported hvalid hstable
  have htext : unmarshalEnvelope out.stdout = some signed.transported := by
    rw [hprint, AttestationEnvelope.toJson_eq_ok.mpr ⟨hm', rfl⟩]
    exact unmarshalEnvelope_print Json.indent_ok hm' (List.forall_mem_singleton.mpr rfl)
  have hnonces : ∀ cap ∈ signed.transported.capList, cap.nonce.isSome := by
    rw [AttestationEnvelope.capList_transported, List.forall_mem_map]
    intro cap hcap
    rw [hsigned, henv] at hcap
    exact (hcaps cap hcap).nonce
  refine ⟨signed.transported, htext, hvalid', ?_⟩
  intro args' es' ended db db' hends hverify hinput hconnected hkey' hx hclear htimes
  have hgiven : (es'.head?.bind inputOf).bind unmarshalEnvelope = some signed.transported := by
    rw [hinput]
    exact htext
  exact verify_clear hends hverify hgiven hconnected hkey' hvalid' hnonces hx hclear htimes

namespace Sample

open Hanko.Sample

theorem procStep_sound : Refines (Handler.graph procStep) SoundProc Prod.fst := Refines.both fun _ _ _ _ h => h

theorem readingOf_eq_some {e : Event ProcSig} {t : Time} (h : readingOf e = some t) :
    e = ⟨.inr (.host .timeNow), t⟩ := by
  unfold readingOf at h
  split at h
  · cases h
    rfl
  · cases h

/-- A clock that stands still. -/
theorem readings_noon {s s' : Db × World} {es : List (Event ProcSig)} (h : Exec (Handler.graph procStep) s es s')
    (hclock : s.2.host.clock = fun _ => noon) {t : Time} (ht : t ∈ readings es) : t = noon := by
  obtain ⟨e, he, hread⟩ := List.mem_filterMap.mp ht
  have hkeep : ∀ o s a s', Handler.graph procStep o s a s' → (s.2.host.clock = fun _ => noon) →
      s'.2.host.clock = fun _ => noon := by
    rintro o s a s' hstep hs
    obtain rfl : (procStep o s).2 = s' := congrArg Prod.snd hstep
    rcases o with o | o
    · exact hs
    · cases o with
      | host o =>
        cases o with
        | timeNow => exact funext fun n => congrFun hs (n + 1)
        | _ => exact hs
      | _ => exact hs
  have hnoon : ∀ e ∈ es, ∀ t, readingOf e = some t → t = noon := by
    refine h.forall_mem (I := fun s => s.2.host.clock = fun _ => noon) hkeep hclock ?_
    rintro e s s' hs hstep t hread
    obtain rfl := readingOf_eq_some hread
    exact (congrArg Prod.fst hstep).symm.trans (congrFun hs 0)
  exact hnoon e he t hread

def raw (n : Nat) : Bytes := List.replicate 15 0 ++ [UInt8.ofNat n]

/-- A database with a sigil and a cap. -/
def issuable : Db where
  sigils id := if id = raw 1 then some ⟨lit "spiffe://a", [], 0, none, .obj []⟩ else none
  capabilityTokens id := if id = raw 2 then some ⟨raw 1, lit "read", 43200000000, 64800000000, [7]⟩ else none
  revocationEntries := []
  consumedNonces _ := false
  references_sigils := by
    intro id row h
    split at h <;> cases h
    rfl
  revocation_keys := .nil

abbrev issueArgs : List Bytes :=
  [lit "issue", lit "attestation", lit "--sigil", uuid 1, lit "--cap", uuid 2, lit "--ttl", lit "6h"]

theorem exec_getCap (w : World) : ((cli.pg.getCap (uuid 2)).inl SysSig).exec procStep (issuable, w) =
    (.ok (cap (uuid 2) (uuid 1) 7), (issuable, w)) := rfl

theorem exec_issueResolved :
    (cli.runBroker key (issueResolved (uuid 1) [uuid 2] 21600000000000) .pg).exec procStep (issuable, world [] 0) =
      (.ok (prints (printJSON env.toJson)), (issuable, world [] 0)) := by
  have hget : (cli.runBroker key (issueResolved (uuid 1) [uuid 2] 21600000000000) .pg).exec procStep
      (issuable, world [] 0) = _ :=
    Prog.exec_bind procStep ((cli.pg.getCap (uuid 2)).inl SysSig) _ _
  have hm : (unsigned (uuid 1) (some [cap (uuid 2) (uuid 1) 7]) noon evening).Marshals := env_marshals
  have hclock : procStep (.inr (.host .timeNow)) (issuable, world [] 0) = (noon, issuable, world [] 0) := rfl
  have hexpires : noon.add 21600000000000 = evening := by decide
  rw [hget, exec_getCap]
  simp only [Prog.bind_eq, Prog.ret_bind, resolveCaps, Prog.pure_eq, askHost, Prog.call, Prog.ask_bind,
    issueAttestation_eq,
    Prog.interp, pgImpl, hostImpl, Prog.exec_ask, hclock, hexpires, signEnvelope_of_marshals hm]
  rfl

theorem keyRead_withBroker {α : Type} (p : Broker → Prog BrokerSig (Except Output α)) (db : Db)
    (stdin : Bytes) (n : Nat) :
    KeyRead ((cli.withBroker [] p).run.trace procStep (db, world stdin n)) key := by
  have hends := (Prog.trace_ends (h := procStep) (cli.start []).run (db, world stdin n)).1
  rw [exec_start] at hends
  rw [withBroker, trace_exceptBind (exec_start db stdin n)]
  exact keyRead_append.mpr (.inl ((start_key hends key).mpr ⟨_, rfl⟩))

theorem exec_parsed : (parsed (cli.parseIssueAttestation (issueArgs.drop 2))).run.exec procStep (issuable, world [] 0) =
    (.ok (uuid 1, [uuid 2], 21600000000000), (issuable, world [] 0)) :=
  rfl

theorem exec_issue : (cli.main issueArgs).exec procStep (issuable, world [] 0) =
    (.exited (prints (printJSON env.toJson)), (issuable, world [] 0)) := by
  have hmain : (cli.main issueArgs).exec procStep (issuable, world [] 0) = _ :=
    Prog.exec_bind procStep (cli.runIssueAttestation (issueArgs.drop 2) []).run _ _
  rw [hmain, runIssueAttestation, exec_exceptBind exec_parsed]
  dsimp only
  rw [withBroker, exec_exceptBind (exec_start issuable [] 0)]
  dsimp only [ExceptT.run, ExceptT.mk]
  rw [exec_issueResolved]
  rfl

theorem keyRead_issue : KeyRead ((cli.main issueArgs).trace procStep (issuable, world [] 0)) key := by
  have hmain : (cli.main issueArgs).trace procStep (issuable, world [] 0) = _ :=
    Prog.trace_bind (cli.runIssueAttestation (issueArgs.drop 2) []).run _ _
  rw [hmain, runIssueAttestation, trace_exceptBind exec_parsed]
  exact keyRead_append.mpr (.inl (keyRead_append.mpr (.inr (keyRead_withBroker ..))))

theorem unmarshal_printed : unmarshalEnvelope (printJSON env.toJson) = some env := by
  rw [AttestationEnvelope.toJson_eq_ok.mpr ⟨env_marshals, rfl⟩, ← env_transported]
  exact unmarshalEnvelope_print Json.indent_ok env_marshals (List.forall_mem_singleton.mpr rfl)

theorem clear_env : Clear env issuable.seen where
  sigil := by
    rintro ⟨_, -, hmem⟩
    cases hmem
  caps _ _ := by
    rintro ⟨_, -, hmem⟩
    cases hmem
  nonces _ _ := Bool.false_ne_true
  distinct := by decide

end Sample

/-- An envelope that one process prints and the next one accepts. -/
theorem issued_attestation_verifies_sample : ∃ es out es' db',
    (Hanko.Sample.cli.main Sample.issueArgs).Ends es (.exited out) ∧ Exec SoundProc Sample.issuable es Sample.issuable ∧
    es'.head?.bind inputOf = some out.stdout ∧ Exec SoundProc Sample.issuable es' db' ∧
    (Hanko.Sample.cli.main [lit "verify"]).Ends es' (.exited (prints (lit "OK\n"))) := by
  obtain ⟨hends, hexec⟩ := Prog.trace_ends (h := Hanko.Sample.procStep) (Hanko.Sample.cli.main Sample.issueArgs)
    (Sample.issuable, Hanko.Sample.world [] 0)
  rw [Sample.exec_issue] at hends hexec
  have hstable : ∀ t ∈ readings ((Hanko.Sample.cli.main Sample.issueArgs).trace Hanko.Sample.procStep
      (Sample.issuable, Hanko.Sample.world [] 0)), t.Stable := fun t ht =>
      .inl (Sample.readings_noon hexec rfl ht ▸ rfl)
  obtain ⟨env, htext, -, hverify⟩ :=
    issued_attestation_verifies Hanko.Sample.cli Hanko.Sample.cli _ _ _ Hanko.Sample.key hends rfl
    rfl Sample.keyRead_issue (fun _ => decide_eq_true rfl) ⟨hstable, fun _ => .inl rfl⟩
  cases htext.symm.trans Sample.unmarshal_printed
  -- the process that verifies
  obtain ⟨hends', hexec'⟩ := Prog.trace_ends (h := Hanko.Sample.procStep) (Hanko.Sample.cli.main [lit "verify"])
    (Sample.issuable, Hanko.Sample.world (printJSON Hanko.Sample.env.toJson) 0)
  obtain ⟨es, htrace⟩ := Sample.trace_verify Sample.unmarshal_printed Sample.issuable 0
  have hsound := hexec'.refine Sample.procStep_sound
  have htimes : Unexpired Hanko.Sample.env (readings ((Hanko.Sample.cli.main [lit "verify"]).trace Hanko.Sample.procStep
      (Sample.issuable, Hanko.Sample.world (printJSON Hanko.Sample.env.toJson) 0))) := by
    intro t ht
    rw [Sample.readings_noon hexec' rfl ht]
    decide
  rw [htrace] at hends' hsound htimes
  have hended := hverify _ _ _ _ _ hends' rfl rfl
    (List.mem_cons_of_mem _ (List.mem_append_left _ (Hanko.Sample.connected_withBroker ..)))
    (keyRead_append.mpr (.inl (Sample.keyRead_withBroker ..))) hsound Sample.clear_env htimes
  rw [hended] at hends'
  exact ⟨_, _, _, _, hends, hexec.refine Sample.procStep_sound, rfl, hsound, hends'⟩

end Cli

end Hanko
