import Hanko.Proof.Cli
import Hanko.Proof.Verdict

/-!
# Verification without a database

A process that does not open the database has a new in-memory store of its own.
Its verdict on an envelope then depends on its key and on its readings of the
clock, and on nothing that any process did before (`memory_verify_iff`): what was
revoked is accepted, and what was accepted is accepted again.

* `start_key`: the key of a process is the one in the file it reads;
* `covers_readings`: the broker's readings of the clock are the process's;
* `verifySigned_new`: the verdict over a new store.
-/

namespace Hanko

open Bytes Interact

namespace Cli

variable {c : Cli}

/-! ## The key of a process -/

/-- What a process asks to open its store, and for the path of its key. -/
def Startup : ProcSig.Op → Prop
  | .inr (.getenv _) => True
  | .inr .userHomeDir => True
  | .inr (.poolNew _) => True
  | .inr .ping => True
  | .inr .migrate => True
  | _ => False

theorem newPgStore_startup : newPgStore.run.Asks Startup := by
  refine asks_exceptBind (asks_sys trivial) fun dsn => ?_
  split
  · exact asks_ret _
  · refine asks_exceptBind (asks_sys trivial) fun pool => ?_
    cases pool with
    | error e => exact asks_ret _
    | ok _ =>
      refine asks_exceptBind (asks_sys trivial) fun ping => ?_
      cases ping with
      | error e => exact asks_ret _
      | ok _ =>
        refine asks_exceptBind (asks_sys trivial) fun migrate => ?_
        cases migrate <;> exact asks_ret _

theorem openStore_startup (flag : Bytes) : (c.openStore flag).run.Asks Startup := by
  have hwanted : (wantedStore flag).run.Asks Startup := by
    rw [wantedStore]
    split
    · exact asks_ret _
    · exact asks_exceptBind (asks_sys trivial) fun _ => asks_ret _
  refine asks_exceptBind hwanted fun want => ?_
  split
  · exact asks_ret _
  · split
    · refine asks_exceptBind newPgStore_startup fun r => ?_
      cases r <;> exact asks_ret _
    · exact asks_ret _

theorem keyPath_startup : keyPath.run.Asks Startup := by
  refine asks_exceptBind (asks_sys trivial) fun path => ?_
  split
  · refine asks_exceptBind (asks_sys trivial) fun home => ?_
    cases home <;> exact asks_ret _
  · exact asks_ret _

/-- The process has read the key `priv` from a file. -/
def KeyRead (es : List (Event ProcSig)) (priv : Bytes) : Prop :=
  ∃ path raw, ⟨.inr (.readFile path), .bytes raw⟩ ∈ es ∧ parseKey raw = some priv

theorem not_keyRead {α : Type} {p q : Prog ProcSig α} {es : List (Event ProcSig)} (h : Path p es q)
    (hp : p.Asks Startup) (priv : Bytes) : ¬ KeyRead es priv := by
  rintro ⟨_, _, hmem, _⟩
  exact h.asks hp _ hmem

theorem keyRead_append {es fs : List (Event ProcSig)} {priv : Bytes} :
    KeyRead (es ++ fs) priv ↔ KeyRead es priv ∨ KeyRead fs priv := by
  simp only [KeyRead, List.mem_append, or_and_right, exists_or]

theorem keyRead_singleton {path : Bytes} {file : FileRead} {priv : Bytes} :
    KeyRead [⟨.inr (.readFile path), file⟩] priv ↔ ∃ raw, file = .bytes raw ∧ parseKey raw = some priv := by
  constructor
  · rintro ⟨_, raw, hmem, hkey⟩
    cases List.mem_singleton.mp hmem
    exact ⟨raw, rfl, hkey⟩
  · rintro ⟨raw, rfl, hkey⟩
    exact ⟨path, raw, List.mem_singleton.mpr rfl, hkey⟩

theorem loadBrokerKey_key {es : List (Event ProcSig)} {r : Except Output Bytes} (h : loadBrokerKey.run.Ends es r)
    (priv : Bytes) : KeyRead es priv ↔ r = .ok priv := by
  rcases ends_exceptBind.mp h with ⟨_, hpath, rfl⟩ | ⟨es₁, es₂, path, rfl, hpath, h₂⟩
  · exact iff_of_false (not_keyRead hpath keyPath_startup priv) (by rintro ⟨⟩)
  rw [keyRead_append, or_iff_right (not_keyRead hpath keyPath_startup priv)]
  rcases ends_exceptBind.mp h₂ with ⟨_, hread, rfl⟩ | ⟨es₃, es₄, file, rfl, hread, h₃⟩
  · obtain ⟨_, -, heq⟩ := ends_sys.mp hread
    cases heq
  obtain ⟨_, rfl, heq⟩ := ends_sys.mp hread
  cases heq
  cases file with
  | notExist =>
    obtain ⟨rfl, rfl⟩ := ends_exceptThrow.mp h₃
    rw [List.append_nil, keyRead_singleton]
    simp
  | failed e =>
    obtain ⟨rfl, rfl⟩ := ends_exceptThrow.mp h₃
    rw [List.append_nil, keyRead_singleton]
    simp
  | bytes raw =>
    simp only [FileRead.result] at h₃
    cases hparse : parseKey raw with
    | some priv' =>
      rw [hparse] at h₃
      obtain ⟨rfl, rfl⟩ := ends_exceptPure.mp h₃
      rw [List.append_nil, keyRead_singleton]
      simp [hparse]
    | none =>
      rw [hparse] at h₃
      obtain ⟨rfl, rfl⟩ := ends_exceptThrow.mp h₃
      rw [List.append_nil, keyRead_singleton]
      simp [hparse]

/-- A process that starts has read its key, and one that does not has read
none. -/
theorem start_key {flag : Bytes} {es : List (Event ProcSig)} {r : Except Output (Backend × Bytes)}
    (h : (c.start flag).run.Ends es r) (priv : Bytes) : KeyRead es priv ↔ ∃ store, r = .ok (store, priv) := by
  rcases ends_exceptBind.mp h with ⟨_, hopen, rfl⟩ | ⟨es₁, es₂, store, rfl, hopen, h₂⟩
  · exact iff_of_false (not_keyRead hopen (openStore_startup flag) priv) (by rintro ⟨_, ⟨⟩⟩)
  rw [keyRead_append, or_iff_right (not_keyRead hopen (openStore_startup flag) priv)]
  rcases ends_exceptBind.mp h₂ with ⟨_, hload, rfl⟩ | ⟨es₃, es₄, priv', rfl, hload, h₃⟩
  · rw [loadBrokerKey_key hload]
    exact iff_of_false (by rintro ⟨⟩) (by rintro ⟨_, ⟨⟩⟩)
  · obtain ⟨rfl, rfl⟩ := ends_exceptPure.mp h₃
    rw [List.append_nil, loadBrokerKey_key hload]
    simp

/-! ## Readings of the clock -/

/-- The time that an event has read. -/
def readingOf : Event ProcSig → Option Time
  | ⟨.inr (.host .timeNow), t⟩ => some t
  | _ => none

/-- The readings of the clock by a process. -/
def readings (es : List (Event ProcSig)) : List Time := es.filterMap readingOf

/-- The same, for a broker. -/
def hostReadingOf : Event HostSig → Option Time
  | ⟨.timeNow, t⟩ => some t
  | _ => none

def hostReadings (es : List (Event BrokerSig)) : List Time := (rights es).filterMap hostReadingOf

theorem hostImpl_readings {priv : Bytes} {e : Event HostSig} {fs : List (Event ProcSig)}
    (h : (c.hostImpl priv e.op).Ends fs e.ans) : readings fs = (hostReadingOf e).toList := by
  obtain ⟨o, a⟩ := e
  cases o with
  | sign message =>
    obtain ⟨rfl, -⟩ := ends_ret.mp h
    rfl
  | publish subject payload =>
    obtain ⟨rfl, -⟩ := ends_ret.mp h
    rfl
  | _ =>
    obtain ⟨a', fs', rfl, hret⟩ := ends_ask.mp h
    obtain ⟨rfl, heq⟩ := ends_ret.mp hret
    cases heq
    rfl

theorem covers_readings {priv : Bytes} {es : List (Event HostSig)} {fs : List (Event ProcSig)}
    (h : Covers (c.hostImpl priv) es fs) : readings fs = es.filterMap hostReadingOf := by
  induction h with
  | nil => rfl
  | @cons e es gs fs hg _ ih =>
    have hhead : gs.filterMap readingOf = (hostReadingOf e).toList := hostImpl_readings hg
    rw [readings] at ih
    rw [readings, List.filterMap_append, hhead, ih]
    cases hread : hostReadingOf e <;> simp [hread]

/-- The question is not for the time. -/
def NoReading (o : ProcSig.Op) : Prop := o ≠ .inr (.host .timeNow)

theorem readings_nil {α : Type} {p q : Prog ProcSig α} {es : List (Event ProcSig)} (h : Path p es q)
    (hp : p.Asks NoReading) : readings es = [] := by
  refine List.filterMap_eq_nil_iff.mpr fun e he => ?_
  have hask := h.asks hp e he
  unfold readingOf
  split
  · exact absurd rfl hask
  · rfl

theorem Startup.no_reading {o : ProcSig.Op} (h : Startup o) : NoReading o := by
  rintro rfl
  exact h

theorem start_readings {flag : Bytes} {es : List (Event ProcSig)} {r : Except Output (Backend × Bytes)}
    (h : (c.start flag).run.Ends es r) : readings es = [] := by
  refine readings_nil h ?_
  have hstore := (openStore_startup (c := c) flag).mono fun _ => Startup.no_reading
  have hpath := keyPath_startup.mono fun _ => Startup.no_reading
  refine asks_exceptBind hstore fun store => asks_exceptBind ?_ fun _ => asks_ret _
  refine asks_exceptBind hpath fun path => asks_exceptBind (asks_sys (by simp [NoReading])) fun file => ?_
  cases file.result path with
  | error e => exact asks_ret _
  | ok raw =>
    dsimp only
    cases parseKey raw <;> exact asks_ret _

/-! ## A new store -/

/-- No reading of the clock is past the expiry it was compared with: the first
is for the envelope, the others for its caps, one after the other. -/
def Timely (env : AttestationEnvelope) : List Time → Prop
  | [] => False
  | t :: ts => t.after env.expiresAt = false ∧ List.Forall₂ (fun cap t => t.after cap.expiresAt = false) env.capList ts

/-- What a turn of the loop finds of a nonce, and what it leaves. -/
theorem exec_turn {cap : CapabilityToken} {t : Time} {first : Bool} {es : List (Event BrokerSig)} {m m' : MemStore}
    (hx : Exec MemHandler m (storeEvent (.isRevoked cap.id) false :: hostEvent .timeNow t ::
      storeEvent (.tryRecordNonce cap.nonce) first :: es) m') :
    (first = true ↔ m.nonceUsed cap.nonce = false) ∧
    (first = true → Exec MemHandler (m.recordNonce cap.nonce) es m') := by
  obtain ⟨m₁, hlookup, hx₁⟩ := exec_cons_iff.mp hx
  obtain rfl : m = m₁ := (Prod.mk.inj hlookup).2
  obtain ⟨m₂, hclock, hx₂⟩ := exec_cons_iff.mp hx₁
  obtain rfl : m₂ = m := hclock
  obtain ⟨m₃, hstep, hx₃⟩ := exec_cons_iff.mp hx₂
  have htry : m₂.tryRecordNonce cap.nonce = (first, m₃) := hstep
  rw [m₂.tryRecordNonce_eq] at htry
  cases hused : m₂.nonceUsed cap.nonce with
  | true =>
    rw [hused] at htry
    obtain ⟨rfl, -⟩ := Prod.mk.inj htry
    exact ⟨by simp, by rintro ⟨⟩⟩
  | false =>
    rw [hused] at htry
    obtain ⟨rfl, rfl⟩ := Prod.mk.inj htry
    exact ⟨by simp, fun _ => hx₃⟩

/-- The loop over the caps, over a store in which nothing is revoked. -/
theorem verifyCaps_unrevoked {cs : List CapabilityToken} {es : List (Event BrokerSig)} {r : Option GoError}
    {m m' : MemStore} (h : (Broker.verifyCaps cs).Ends es r) (hx : Exec MemHandler m es m')
    (hrev : ∀ id, m.isRevoked id = false) :
    r = none ↔ (∀ cap ∈ cs, m.nonceUsed cap.nonce = false) ∧ (cs.map fun cap => nonceBytes cap.nonce).Nodup ∧
      List.Forall₂ (fun cap t => t.after cap.expiresAt = false) cs (hostReadings es) := by
  induction cs generalizing es m with
  | nil =>
    obtain ⟨rfl, rfl⟩ := Broker.verifyCaps_nil_ends.mp h
    simp [hostReadings, rights, hostReadingOf]
  | cons cap cs ih =>
    rcases Broker.verifyCaps_cons_ends.mp h with ⟨rfl, -⟩ | ⟨t, rfl, ht, rfl⟩ | ⟨t, rfl, ht, rfl⟩ | ⟨t, es', rfl, ht, h⟩
    · obtain ⟨m₁, hstep, -⟩ := exec_cons_iff.mp hx
      have hfound : m.isRevoked cap.id = true := (Prod.mk.inj hstep).1
      rw [hrev] at hfound
      cases hfound
    · refine iff_of_false (Option.some_ne_none _) ?_
      rintro ⟨_, _, htimes⟩
      cases htimes with
      | cons hcap _ => simp [ht] at hcap
    · refine iff_of_false (Option.some_ne_none _) ?_
      rintro ⟨hused, _, _⟩
      cases (exec_turn hx).1.mpr (hused cap List.mem_cons_self)
    · have hfresh := (exec_turn hx).1.mp rfl
      have hcaps : (∀ cap' ∈ cs, (m.recordNonce cap.nonce).nonceUsed cap'.nonce = false) ↔
          (∀ cap' ∈ cs, m.nonceUsed cap'.nonce = false) ∧
            nonceBytes cap.nonce ∉ cs.map fun cap => nonceBytes cap.nonce := by
        simp only [← Bool.not_eq_true, m.nonceUsed_recordNonce, not_or, List.mem_map, not_exists, not_and]
        exact ⟨fun h => ⟨fun c hc => (h c hc).1, fun c hc => (h c hc).2⟩, fun h c hc => ⟨h.1 c hc, h.2 c hc⟩⟩
      have htimes : hostReadings (storeEvent (.isRevoked cap.id) false :: hostEvent .timeNow t ::
          storeEvent (.tryRecordNonce cap.nonce) true :: es') = t :: hostReadings es' := rfl
      rw [ih h ((exec_turn hx).2 rfl) hrev, hcaps, htimes, List.forall₂_cons, List.map_cons, List.nodup_cons,
        List.forall_mem_cons]
      tauto

/-- The verdict over a new store. -/
theorem verifySigned_new {env : AttestationEnvelope} {es : List (Event BrokerSig)} {r : Option GoError} {m : MemStore}
    (h : (Broker.verifySigned env).Ends es r) (hx : Exec MemHandler .new es m) :
    r = none ↔ env.nonces.Nodup ∧ Timely env (hostReadings es) := by
  rcases Broker.verifySigned_ends.mp h with ⟨rfl, -⟩ | ⟨t, rfl, ht, rfl⟩ | ⟨t, es', rfl, ht, h⟩
  · obtain ⟨m₁, hstep, -⟩ := exec_cons_iff.mp hx
    cases (Prod.mk.inj hstep).1
  · refine iff_of_false (Option.some_ne_none _) ?_
    rintro ⟨_, htime, _⟩
    rw [ht] at htime
    cases htime
  · obtain ⟨m₁, hlookup, hx₁⟩ := exec_cons_iff.mp hx
    obtain rfl : m₁ = .new := (Prod.mk.inj hlookup).2.symm
    obtain ⟨m₂, rfl, hx₂⟩ := exec_cons_iff.mp hx₁
    have htimes : hostReadings (storeEvent (.isRevoked env.sigilID) false :: hostEvent .timeNow t :: es') =
        t :: hostReadings es' := rfl
    rw [verifyCaps_unrevoked h hx₂ fun _ => rfl, htimes, Timely]
    exact ⟨fun h => ⟨h.2.1, ht, h.2.2⟩, fun h => ⟨fun _ _ => rfl, h.1, h.2.2⟩⟩

/-! ## Processes -/

theorem newPgStore_connected {es : List (Event ProcSig)} {u : Unit} (h : newPgStore.run.Ends es (.ok (.ok u))) :
    Connected es := by
  rcases ends_exceptBind.mp h with ⟨_, -, heq⟩ | ⟨es₁, es₂, dsn, rfl, -, h₂⟩
  · cases heq
  refine List.mem_append_right _ ?_
  split at h₂
  · cases (ends_exceptPure.mp h₂).2
  rcases ends_exceptBind.mp h₂ with ⟨_, -, heq⟩ | ⟨es₃, es₄, pool, rfl, -, h₃⟩
  · cases heq
  refine List.mem_append_right _ ?_
  cases pool with
  | error e => cases (ends_exceptPure.mp h₃).2
  | ok _ =>
    rcases ends_exceptBind.mp h₃ with ⟨_, -, heq⟩ | ⟨es₅, es₆, ping, rfl, -, h₄⟩
    · cases heq
    refine List.mem_append_right _ ?_
    cases ping with
    | error e => cases (ends_exceptPure.mp h₄).2
    | ok _ =>
      rcases ends_exceptBind.mp h₄ with ⟨_, -, heq⟩ | ⟨es₇, es₈, migrate, rfl, hmigrate, h₅⟩
      · cases heq
      obtain ⟨_, rfl, heq⟩ := ends_sys.mp hmigrate
      cases heq
      cases migrate with
      | error e => cases (ends_exceptPure.mp h₅).2
      | ok _ => exact List.mem_append_left _ (List.mem_singleton.mpr rfl)

/-- Postgres is opened with its migrations. -/
theorem openStore_pg {flag : Bytes} {es : List (Event ProcSig)} (h : (c.openStore flag).run.Ends es (.ok .pg)) :
    Connected es := by
  rcases ends_exceptBind.mp h with ⟨_, -, heq⟩ | ⟨es₁, es₂, want, rfl, -, h₂⟩
  · cases heq
  refine List.mem_append_right _ ?_
  split at h₂
  · cases (ends_exceptPure.mp h₂).2
  split at h₂
  · rcases ends_exceptBind.mp h₂ with ⟨_, -, heq⟩ | ⟨es₃, es₄, r, rfl, hnew, h₃⟩
    · cases heq
    cases r with
    | error e => cases (ends_exceptThrow.mp h₃).2
    | ok _ => exact List.mem_append_left _ (newPgStore_connected hnew)
  · cases (ends_exceptThrow.mp h₂).2

theorem start_pg {flag : Bytes} {es : List (Event ProcSig)} {priv : Bytes}
    (h : (c.start flag).run.Ends es (.ok (.pg, priv))) : Connected es := by
  rcases ends_exceptBind.mp h with ⟨_, -, heq⟩ | ⟨es₁, es₂, store, rfl, hopen, h₂⟩
  · cases heq
  rcases ends_exceptBind.mp h₂ with ⟨_, -, heq⟩ | ⟨es₃, es₄, priv', rfl, -, h₃⟩
  · cases heq
  obtain ⟨-, heq⟩ := ends_exceptPure.mp h₃
  cases heq
  exact List.mem_append_left _ (openStore_pg hopen)

theorem readingOf_input {e : Event ProcSig} (h : (inputOf e).isSome) : readingOf e = none := by
  unfold readingOf
  split
  · cases h
  · rfl

/-- A process exits with status 0 if its verdict is no error. -/
theorem verdict_status {v : Option GoError} :
    (∃ out, Ended.of .exited (verdict v) = .exited out ∧ out.status = 0) ↔ v = none := by
  cases v with
  | none => exact iff_of_true ⟨_, rfl, rfl⟩ rfl
  | some e =>
    refine iff_of_false ?_ (Option.some_ne_none e)
    rintro ⟨_, heq, hstatus⟩
    cases heq
    cases hstatus

/-- The broker of a process reads no file. -/
theorem runBroker_not_keyRead {α : Type} {priv priv' : Bytes} {p : Prog BrokerSig α} {store : Backend}
    {es : List (Event ProcSig)} {a : α} (h : (c.runBroker priv p store).Ends es a) : ¬ KeyRead es priv' := by
  rintro ⟨_, _, hmem, _⟩
  exact Path.asks h (runBroker_asks priv p store) _ hmem

/-- A `verify` process without a database accepts an envelope if, and only if, it
has read its key, the envelope is signed with that key, no nonce is in it twice,
and nothing in it has expired. -/
theorem memory_verify_iff (c : Cli) (args : List Bytes) (es : List (Event ProcSig)) (ended : Ended)
    (env : AttestationEnvelope) (h : (c.main args).Ends es ended)
    (hcommand : (extractStoreFlag args).1.head? = some (lit "verify"))
    (hgiven : (es.head?.bind inputOf).bind unmarshalEnvelope = some env) (hmem : ¬ Connected es) :
    (∃ out, ended = .exited out ∧ out.status = 0) ↔
      ∃ priv, KeyRead es.tail priv ∧ (c.newBroker priv).SignatureValid env ∧ env.nonces.Nodup ∧
        Timely env (readings es) := by
  obtain ⟨rest, hmain⟩ := main_verify (c := c) hcommand
  rw [hmain] at h
  obtain ⟨r, hr, rfl⟩ := ends_map.mp h
  obtain ⟨e, es', rfl, hinput, hverify⟩ := runVerify_given hr hgiven
  rw [List.tail_cons]
  rcases withBroker_ends.mp hverify with ⟨out, hstart, rfl⟩ | ⟨es₁, es₂, store, priv, rfl, hstart, hbroker⟩
  · -- the process stopped before it had a key
    have hfailed := start_stops _ _ _ hstart
    refine iff_of_false ?_ ?_
    · rintro ⟨_, heq, hstatus⟩
      cases heq
      rw [hfailed.status] at hstatus
      cases hstatus
    · rintro ⟨priv, hkey, -⟩
      obtain ⟨_, heq⟩ := (start_key hstart priv).mp hkey
      cases heq
  · cases store with
    | pg => exact absurd (List.mem_cons_of_mem _ (List.mem_append_left _ (start_pg hstart))) hmem
    | mem =>
      obtain ⟨bs, m, hbs, hx, hcov⟩ := runBroker_mem hbroker
      have hkeys : ∀ priv', KeyRead (es₁ ++ es₂) priv' ↔ priv' = priv := by
        intro priv'
        rw [keyRead_append, or_iff_left (runBroker_not_keyRead hbroker), start_key hstart]
        simp [eq_comm]
      have htimes : readings (e :: (es₁ ++ es₂)) = hostReadings bs := by
        have hstart := start_readings hstart
        have hbroker := covers_readings hcov
        rw [readings] at hstart hbroker
        rw [readings, List.filterMap_cons_none (readingOf_input hinput), List.filterMap_append, hstart, hbroker]
        rfl
      simp only [hkeys, exists_eq_left, htimes]
      obtain ⟨v, hv, rfl⟩ := ends_map.mp hbs
      by_cases hvalid : (c.newBroker priv).SignatureValid env
      · rw [Broker.verifyAttestation_of_valid hvalid] at hv
        rw [← verifySigned_new hv hx, verdict_status]
        exact (and_iff_right hvalid).symm
      · rw [Broker.verifyAttestation_of_not_valid hvalid] at hv
        obtain ⟨-, rfl⟩ := ends_ret.mp hv
        rw [verdict_status]
        exact iff_of_false (Option.some_ne_none _) fun h => hvalid h.1

namespace Sample

open Hanko.Sample

/-- A process that keeps to the in-memory store. -/
abbrev verifyInMemory : List Bytes := [lit "verify", lit "--store", lit "mem"]

theorem exec_start_mem (db : Db) (stdin : Bytes) (n : Nat) :
    (cli.start (lit "mem")).run.exec procStep (db, world stdin n) = (.ok (.mem, key), (db, world stdin n)) := by
  have hopen :
    (cli.openStore (lit "mem")).run.exec procStep (db, world stdin n) = (.ok .mem, (db, world stdin n)) := rfl
  rw [start, exec_exceptBind hopen, exec_exceptBind (exec_loadBrokerKey db stdin n)]
  rfl

theorem exec_verifyInMemory {text : Bytes} (htext : unmarshalEnvelope text = some env) (db : Db) :
    ((cli.main verifyInMemory).exec procStep (db, world text 0)).1 = .exited (prints (lit "OK\n")) := by
  have hread : (readInput []).run.exec procStep (db, world text 0) = (.ok text, (db, world text 0)) := rfl
  have hmain : (cli.main verifyInMemory).exec procStep (db, world text 0) = _ :=
    Prog.exec_bind procStep (cli.runVerify [] (lit "mem")).run _ _
  rw [hmain, runVerify, exec_exceptBind hread]
  simp only [htext]
  rw [withBroker, exec_exceptBind (exec_start_mem db text 0)]
  simp only [Broker.verifyAttestation_of_valid (signatureValid_env key)]
  rfl

theorem verifyInMemory_asks (db : Db) (text : Bytes) :
    ¬ Connected ((cli.main verifyInMemory).trace procStep (db, world text 0)) := by
  have hmain : (cli.main verifyInMemory).trace procStep (db, world text 0) = _ :=
    Prog.trace_bind (cli.runVerify [] (lit "mem")).run _ _
  have hread : (readInput []).run.exec procStep (db, world text 0) = (.ok text, (db, world text 0)) := rfl
  rw [hmain, runVerify, trace_exceptBind hread]
  intro hc
  rcases List.mem_append.mp hc with hc | hc
  · rcases List.mem_append.mp hc with hc | hc
    · cases List.mem_singleton.mp hc
    · cases hparse : unmarshalEnvelope text with
      | none =>
        rw [hparse] at hc
        cases hc
      | some env =>
        simp only [hparse] at hc
        rw [withBroker, trace_exceptBind (exec_start_mem db text 0)] at hc
        rcases List.mem_append.mp hc with hc | hc
        · have hopen : (cli.openStore (lit "mem")).run.exec procStep (db, world text 0) =
            (.ok .mem, (db, world text 0)) := rfl
          rw [start, trace_exceptBind hopen, trace_exceptBind (exec_loadBrokerKey db text 0)] at hc
          rcases List.mem_append.mp hc with hc | hc
          · cases hc
          · rcases List.mem_append.mp hc with hc | hc
            · exact not_connected (Prog.trace_ends _ _).1 loadBrokerKey_asks hc
            · cases hc
        · exact not_connected (Prog.trace_ends (cli.runBroker key _ .mem) _).1
            ((runBroker_asks _ _ _).mono fun _ => Brokering.unconnected) hc
  · cases hc

end Sample

/-- An envelope that is accepted by a process beside an empty database. -/
theorem memory_verify_iff_sample : ∃ es db', Exec ProcHandler .empty es db' ∧
    (Hanko.Sample.cli.main Sample.verifyInMemory).Ends es (.exited (prints (lit "OK\n"))) ∧
    (∃ priv, KeyRead es.tail priv) ∧ Timely Hanko.Sample.env (readings es) := by
  obtain ⟨text, htext⟩ := Sample.exists_text
  obtain ⟨hends, hexec⟩ := Prog.trace_ends (h := Hanko.Sample.procStep) (Hanko.Sample.cli.main Sample.verifyInMemory)
    (.empty, Hanko.Sample.world text 0)
  rw [Sample.exec_verifyInMemory htext] at hends
  obtain ⟨priv, hkey, -, -, htimely⟩ := (memory_verify_iff _ _ _ _ Hanko.Sample.env hends rfl
    htext (Sample.verifyInMemory_asks .empty text)).mp ⟨_, rfl, rfl⟩
  exact ⟨_, _, hexec.refine Hanko.Sample.procStep_refines, hends, ⟨priv, hkey⟩, htimely⟩

end Cli

end Hanko
