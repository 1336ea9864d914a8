import Hanko.Impl.Cli
import Hanko.Proof.Interchange
import Hanko.Proof.Revocation
import Hanko.Proof.Strings

/-!
# How processes run

* `Stops`: a command that ends its process early has printed an error message
  only, and the status is 1;
* `start_ends`, `withBroker_ends`: a command that uses the broker has opened its
  store and loaded its key, and then runs as a program of the broker;
* `runBroker_pg`, `runBroker_mem`: what such a program does comes from a path of
  the broker. Over Postgres each of its store operations is one of `PgStore`;
  over the in-memory store they are those of a new `MemStore`.
-/

namespace Hanko

open Bytes Interact

/-! ## Steps -/

theorem ends_sys {o : SysOp} {es : List (Event ProcSig)} {r : Except Output o.Ans} :
    (sys o).run.Ends es r ↔ ∃ a, es = [⟨.inr o, a⟩] ∧ r = .ok a := by
  refine ends_exceptLift.trans ?_
  simp only [Prog.call, ends_ask, ends_ret]
  constructor
  · rintro ⟨a, ⟨_, _, rfl, rfl, rfl⟩, rfl⟩
    exact ⟨a, rfl, rfl⟩
  · rintro ⟨a, rfl, rfl⟩
    exact ⟨a, ⟨a, [], rfl, rfl, rfl⟩, rfl⟩

theorem asks_sys {Q : ProcSig.Op → Prop} {o : SysOp} (h : Q (.inr o)) : (sys o).run.Asks Q := ⟨h, fun _ => trivial⟩

/-- An error message, and nothing else. -/
structure Output.Failed (out : Output) : Prop where
  stdout : out.stdout = []
  status : out.status = 1

theorem failed_exits (msg : Bytes) : (exits msg).Failed := ⟨rfl, rfl⟩

theorem failed_die (msg : Bytes) : (die msg).Failed := ⟨rfl, rfl⟩

/-- A command that ends its process early does so with an error. -/
def Stops {α : Type} (cmd : Cmd α) : Prop := ∀ es out, cmd.run.Ends es (.error out) → out.Failed

namespace Stops

variable {α β : Type}

theorem bind {x : Cmd α} {f : α → Cmd β} (hx : Stops x) (hf : ∀ a, Stops (f a)) : Stops (x >>= f) := by
  intro es out h
  rcases ends_exceptBind.mp h with ⟨e, he, heq⟩ | ⟨es₁, es₂, a, -, -, h₂⟩
  · cases heq
    exact hx es out he
  · exact hf a es₂ out h₂

theorem pure (a : α) : Stops (Pure.pure a : Cmd α) := by
  intro es out h
  cases (ends_exceptPure.mp h).2

theorem throw {out : Output} (h : out.Failed) : Stops (MonadExcept.throw out : Cmd α) := by
  intro es out' h'
  cases (ends_exceptThrow.mp h').2
  exact h

theorem sys (o : SysOp) : Stops (Hanko.sys o) := by
  intro es out h
  obtain ⟨a, -, heq⟩ := ends_sys.mp h
  cases heq

theorem parsed {r : Except Output α} (h : ∀ out, r = .error out → out.Failed) : Stops (Cli.parsed r) := by
  intro es out h'
  exact h out (ends_ret.mp h').2.symm

theorem ite {P : Prop} [Decidable P] {x y : Cmd α} (hx : Stops x) (hy : Stops y) : Stops (if P then x else y) := by
  split
  · exact hx
  · exact hy

end Stops

/-! ## Key files -/

/-- Digits, letters and some punctuation, without a slash: no white space is in
such a text, and no comment. -/
theorem isToken_of_bytes {t : Bytes} (hne : t ≠ []) (h : ∀ b ∈ t, 48 ≤ b ∧ b < 128) : GoMod.IsToken t where
  ne_nil := hne
  space := by
    have hcodes : ∀ code ∈ GoMod.spaceCodes, ∃ b ∈ code, ¬ (48 ≤ b ∧ b < 128) := by decide
    intro c hc hin
    obtain ⟨b, hb, hne⟩ := hcodes _ (GoMod.mem_spaceCodes hc)
    exact hne (h b (hin.subset hb))
  comment := fun hin => absurd (h 47 (hin.subset (by decide))) (by decide)

theorem trimSpace_token {t : Bytes} (h : GoMod.IsToken t) : trimSpace t = t := by
  have hws : GoMod.Words.Spaced [([], t)] :=
    { blanks := by simp [GoMod.Blanks]
      token := by simpa using h
      gap := by simp }
  have := GoMod.trimSpace_words hws (by simp [GoMod.Blanks] : GoMod.Blanks [])
  simpa [GoMod.Words.text, GoMod.Words.strip] using this

theorem hexEncode_bytes (bs : Bytes) : ∀ b ∈ hexEncode bs, 48 ≤ b ∧ b < 128 := by
  have hdigit : ∀ d < 16, 48 ≤ hexDigit d ∧ hexDigit d < 128 := by decide
  simp only [hexEncode, List.mem_flatMap, List.mem_cons, List.not_mem_nil, or_false]
  rintro c ⟨b, -, rfl | rfl⟩
  · exact hdigit _ (Nat.div_lt_of_lt_mul (UInt8.toNat_lt b))
  · exact hdigit _ (Nat.mod_lt _ (by decide))

theorem hexDecode_hexEncode (bs : Bytes) : hexDecode (hexEncode bs) = some bs := by
  induction bs with
  | nil => rfl
  | cons b bs ih =>
    have hb := b.toNat_lt
    rw [hexEncode_cons, hexDecode, hexValue_hexDigit _ (by omega), hexValue_hexDigit _ (by omega), ih]
    simp only [Option.bind_eq_bind, Option.bind_some, Option.pure_def, byte_of_digits]

/-- A key is read from the text that `keygen` writes. -/
theorem parseKey_hexEncode {priv : Bytes} (h : priv.length = Cli.privateKeySize) :
    Cli.parseKey (hexEncode priv) = some priv := by
  have hne : hexEncode priv ≠ [] := by
    obtain ⟨b, bs, rfl⟩ := List.exists_cons_of_length_eq_add_one h
    exact List.cons_ne_nil _ _
  rw [Cli.parseKey, trimSpace_token (isToken_of_bytes hne (hexEncode_bytes priv)), hexDecode_hexEncode]
  simp [h]

/-! ## Flags -/

/-- The errors of a loop over flags are those of its flags and of its other
arguments. -/
theorem parseFlags_failed {α : Type} {flag : Bytes → Option (Bytes → α → Except Output α)}
    {other : Bytes → Except Output Unit}
    (hflag : ∀ arg set v a out, flag arg = some set → set v a = .error out → out.Failed)
    (hother : ∀ arg out, other arg = .error out → out.Failed) (args : List Bytes) (a : α) (out : Output)
    (h : Cli.parseFlags flag other args a = .error out) : out.Failed := by
  induction args, a using Cli.parseFlags.induct flag with
  | case1 a => cases h
  | case2 arg args a hf ih =>
    simp only [Cli.parseFlags, hf] at h
    cases ho : other arg with
    | error e =>
      rw [ho] at h
      cases h
      exact hother arg _ ho
    | ok u =>
      rw [ho] at h
      exact ih h
  | case3 arg a set hf =>
    simp only [Cli.parseFlags, hf] at h
    cases h
    exact failed_die _
  | case4 arg a set hf value args ih =>
    simp only [Cli.parseFlags, hf] at h
    cases hs : set value a with
    | error e =>
      rw [hs] at h
      cases h
      exact hflag arg set value a _ hf hs
    | ok a' =>
      rw [hs] at h
      exact ih a' h

namespace Cli

variable {c : Cli}

/-! ## The store and the key -/

theorem newPgStore_stops : Stops newPgStore := by
  refine .bind (.sys _) fun dsn => .ite (.pure _) (.bind (.sys _) fun pool => ?_)
  cases pool with
  | error e => exact .pure _
  | ok _ =>
    refine .bind (.sys _) fun ping => ?_
    cases ping with
    | error e => exact .pure _
    | ok _ =>
      refine .bind (.sys _) fun migrate => ?_
      cases migrate with
      | error e => exact .pure _
      | ok _ => exact .pure _

theorem openStore_stops (flag : Bytes) : Stops (c.openStore flag) := by
  have hwanted : Stops (wantedStore flag) := .ite (.pure _) (.bind (.sys _) fun _ => .pure _)
  refine .bind hwanted fun want => .ite (.pure _) (.ite (.bind newPgStore_stops fun r => ?_) (.throw (failed_die _)))
  cases r with
  | error e => exact .throw (failed_die _)
  | ok _ => exact .pure _

theorem defaultKeyPath_stops : Stops defaultKeyPath :=
  .bind (.sys _) fun home => by cases home <;> exact .pure _

theorem keyPath_stops : Stops keyPath := .bind (.sys _) fun _ => .ite defaultKeyPath_stops (.pure _)

theorem loadBrokerKey_stops : Stops loadBrokerKey := by
  refine .bind keyPath_stops fun path => .bind (.sys _) fun file => ?_
  cases file.result path with
  | error e => exact .throw (failed_die _)
  | ok raw =>
    dsimp only
    cases parseKey raw with
    | none => exact .throw (failed_die _)
    | some priv => exact .pure _

theorem start_stops (flag : Bytes) : Stops (c.start flag) :=
  .bind (openStore_stops flag) fun _ => .bind loadBrokerKey_stops fun _ => .pure _

/-- A command with a broker: it stops while it starts, or runs as a program of
the broker. -/
theorem withBroker_ends {α : Type} {flag : Bytes} {p : Broker → Prog BrokerSig (Except Output α)}
    {es : List (Event ProcSig)} {r : Except Output α} :
    (c.withBroker flag p).run.Ends es r ↔ (∃ out, (c.start flag).run.Ends es (.error out) ∧ r = .error out) ∨
      ∃ es₁ es₂ store priv, es = es₁ ++ es₂ ∧ (c.start flag).run.Ends es₁ (.ok (store, priv)) ∧
        (c.runBroker priv (p (c.newBroker priv)) store).Ends es₂ r := by
  refine ends_exceptBind.trans (or_congr Iff.rfl ?_)
  constructor
  · rintro ⟨es₁, es₂, ⟨store, priv⟩, h⟩
    exact ⟨es₁, es₂, store, priv, h⟩
  · rintro ⟨es₁, es₂, store, priv, h⟩
    exact ⟨es₁, es₂, (store, priv), h⟩

/-! ## The broker of a process -/

/-- Over Postgres, every question of the broker is one to the database or to the
system. -/
theorem runBroker_pg {α : Type} {priv : Bytes} {p : Prog BrokerSig α} {fs : List (Event ProcSig)} {a : α}
    (h : (c.runBroker priv p .pg).Ends fs a) : ∃ es, p.Ends es a ∧ Covers (c.pgImpl priv) es fs :=
  Ends.of_interp h

/-- In memory, the store is a new one, and only the rest is asked. -/
theorem runBroker_mem {α : Type} {priv : Bytes} {p : Prog BrokerSig α} {fs : List (Event ProcSig)} {a : α}
    (h : (c.runBroker priv p .mem).Ends fs a) :
    ∃ es m, p.Ends es a ∧ Exec MemHandler .new es m ∧ Covers (c.hostImpl priv) (rights es) fs :=
  Ends.of_handle h

/-- The process has opened the database. -/
def Connected (es : List (Event ProcSig)) : Prop := ⟨.inr .migrate, .ok ()⟩ ∈ es

/-- What a process asks before it knows its store, and what it asks without a
database. -/
def Unconnected (o : ProcSig.Op) : Prop := o ≠ .inr .migrate

theorem not_connected {α : Type} {p q : Prog ProcSig α} {es : List (Event ProcSig)} (h : Path p es q)
    (hp : p.Asks Unconnected) : ¬ Connected es :=
  fun hc => h.asks hp _ hc rfl

theorem wantedStore_asks (flag : Bytes) : (wantedStore flag).run.Asks Unconnected := by
  rw [wantedStore]
  split
  · exact asks_ret _
  · exact asks_exceptBind (asks_sys (by simp [Unconnected])) fun _ => asks_ret _

theorem keyPath_asks : keyPath.run.Asks Unconnected := by
  refine asks_exceptBind (asks_sys (by simp [Unconnected])) fun path => ?_
  split
  · refine asks_exceptBind (asks_sys (by simp [Unconnected])) fun home => ?_
    cases home <;> exact asks_ret _
  · exact asks_ret _

theorem loadBrokerKey_asks : loadBrokerKey.run.Asks Unconnected := by
  refine asks_exceptBind keyPath_asks fun path => asks_exceptBind (asks_sys (by simp [Unconnected])) fun file => ?_
  cases file.result path with
  | error e => exact asks_ret _
  | ok raw =>
    dsimp only
    cases parseKey raw <;> exact asks_ret _

/-- What a broker asks: statements, and its surroundings. -/
def Brokering : ProcSig.Op → Prop
  | .inl _ => True
  | .inr (.host _) => True
  | .inr _ => False

theorem hostImpl_asks (priv : Bytes) (o : HostSig.Op) : (c.hostImpl priv o).Asks Brokering := by
  cases o with
  | sign message => exact asks_ret _
  | publish subject payload => exact asks_ret _
  | _ => exact ⟨trivial, fun _ => trivial⟩

theorem runBroker_asks {α : Type} (priv : Bytes) (p : Prog BrokerSig α) (store : Backend) :
    (c.runBroker priv p store).Asks Brokering := by
  cases store with
  | mem => exact asks_handle (h := MemStore.step) (hostImpl_asks priv) p MemStore.new
  | pg =>
    refine asks_interp (fun o => ?_) p
    cases o with
    | inl o => exact asks_inl (fun _ => trivial) (c.pg.impl o)
    | inr o => exact hostImpl_asks priv o

theorem Brokering.unconnected {o : ProcSig.Op} (h : Brokering o) : Unconnected o := by
  rintro rfl
  exact h

/-- The in-memory store is opened without asking for more than its name. -/
theorem openStore_mem {flag : Bytes} {es : List (Event ProcSig)} (h : (c.openStore flag).run.Ends es (.ok .mem)) :
    (wantedStore flag).run.Ends es (.ok (lit "mem")) := by
  rcases ends_exceptBind.mp h with ⟨_, -, heq⟩ | ⟨es₁, es₂, want, rfl, h₁, h₂⟩
  · cases heq
  split at h₂
  · obtain ⟨rfl, -⟩ := ends_exceptPure.mp h₂
    rename_i hwant
    rwa [List.append_nil, ← hwant]
  · split at h₂
    · rcases ends_exceptBind.mp h₂ with ⟨_, -, heq⟩ | ⟨_, _, r, -, -, h₃⟩
      · cases heq
      · cases r with
        | error e => cases (ends_exceptThrow.mp h₃).2
        | ok _ => cases (ends_exceptPure.mp h₃).2
    · cases (ends_exceptThrow.mp h₂).2

/-- A process that connects runs its broker over Postgres. -/
theorem store_eq_pg {α : Type} {flag : Bytes} {p : Prog BrokerSig α} {es₁ es₂ : List (Event ProcSig)} {store : Backend}
    {priv : Bytes} {a : α} (h₁ : (c.start flag).run.Ends es₁ (.ok (store, priv)))
    (h₂ : (c.runBroker priv p store).Ends es₂ a) (hc : Connected (es₁ ++ es₂)) : store = .pg := by
  cases store with
  | pg => rfl
  | mem =>
    exfalso
    rcases List.mem_append.mp hc with hc | hc
    · rcases ends_exceptBind.mp h₁ with ⟨_, -, heq⟩ | ⟨gs, fs, store, rfl, hopen, h₁⟩
      · cases heq
      rcases ends_exceptBind.mp h₁ with ⟨_, -, heq⟩ | ⟨fs₁, fs₂, priv, rfl, hkey, h₁⟩
      · cases heq
      obtain ⟨rfl, heq⟩ := ends_exceptPure.mp h₁
      obtain ⟨rfl, rfl⟩ := Prod.mk.inj (Except.ok.inj heq)
      rw [List.append_nil] at hc
      rcases List.mem_append.mp hc with hc | hc
      · exact not_connected (openStore_mem hopen) (wantedStore_asks flag) hc
      · exact not_connected hkey loadBrokerKey_asks hc
    · exact not_connected h₂ ((runBroker_asks priv p _).mono fun _ => Brokering.unconnected) hc

end Cli

/-! ## A system to try things on -/

namespace Sample

/-- A system that answers from given data. Listings take it too long. -/
structure World where
  env : Bytes → Bytes
  files : Bytes → Option Bytes
  stdin : Bytes
  newKey : Bytes
  host : Host

def World.step : (o : SysSig.Op) → World → SysSig.Ans o × World
  | .getenv name, w => (w.env name, w)
  | .userHomeDir, w => (some (lit "/root"), w)
  | .readFile path, w => ((w.files path).elim .notExist .bytes, w)
  | .readStdin, w => (.ok w.stdin, w)
  | .stat path, w => ((w.files path).isSome, w)
  | .mkdirAll _, w => (.ok (), w)
  | .writeFile path data, w => (.ok (), { w with files := Function.update w.files path (some data) })
  | .poolNew _, w => (.ok (), w)
  | .ping, w => (.ok (), w)
  | .migrate, w => (.ok (), w)
  | .generateKey, w => (.ok w.newKey, w)
  | .selectSigils, w => (.error (lit "timeout"), w)
  | .host o, w => ((Host.step o w.host).1, { w with host := (Host.step o w.host).2 })

/-- Processes over a database that does not fail. -/
abbrev procStep : (o : ProcSig.Op) → Db × World → ProcSig.Ans o × (Db × World) := both Db.step World.step

theorem procStep_refines : Refines (Handler.graph procStep) ProcHandler Prod.fst := by
  rintro (o | o) ⟨db, w⟩ a ⟨db', w'⟩ heq
  · have h := Prod.mk.inj heq
    exact .inl (Prod.ext h.1 (Prod.mk.inj h.2).1)
  · have h := Prod.mk.inj heq
    have hdb : db' = db := (Prod.mk.inj h.2).1.symm
    cases o with
    | selectSigils => exact ⟨hdb, fun rows hrows => by cases h.1.trans hrows⟩
    | _ => exact hdb

/-- Signatures are the messages themselves; every lifetime is six hours. -/
def cli : Cli :=
  ⟨fun _ message => message, fun _ message sig => decide (sig = message), fun _ => List.replicate 32 1,
    fun _ => .ok 21600000000000, fun _ => true, [], ⟨fun _ => 0⟩⟩

def key : Bytes := List.replicate 64 0

/-- All variables are set, all files hold the key, and it is noon. -/
def world (stdin : Bytes) (n : Nat) : World :=
  ⟨fun _ => lit "x", fun _ => some (hexEncode key), stdin, key, host n⟩

theorem exec_loadBrokerKey (db : Db) (stdin : Bytes) (n : Nat) :
    Cli.loadBrokerKey.run.exec procStep (db, world stdin n) = (.ok key, (db, world stdin n)) := by
  have hpath : Cli.keyPath.run.exec procStep (db, world stdin n) = (.ok (lit "x"), (db, world stdin n)) := rfl
  have hread : (sys (.readFile (lit "x"))).run.exec procStep (db, world stdin n) =
      (.ok (.bytes (hexEncode key)), (db, world stdin n)) := rfl
  rw [Cli.loadBrokerKey, exec_exceptBind hpath, exec_exceptBind hread]
  simp only [FileRead.result]
  rw [parseKey_hexEncode (by rfl)]
  rfl

theorem exec_openStore (db : Db) (stdin : Bytes) (n : Nat) :
    (cli.openStore []).run.exec procStep (db, world stdin n) = (.ok .pg, (db, world stdin n)) := rfl

theorem exec_start (db : Db) (stdin : Bytes) (n : Nat) :
    (cli.start []).run.exec procStep (db, world stdin n) = (.ok (.pg, key), (db, world stdin n)) := by
  rw [Cli.start, exec_exceptBind (exec_openStore db stdin n), exec_exceptBind (exec_loadBrokerKey db stdin n)]
  rfl

theorem connected_withBroker {α : Type} (p : Broker → Prog BrokerSig (Except Output α)) (db : Db)
    (stdin : Bytes) (n : Nat) :
    Cli.Connected ((cli.withBroker [] p).run.trace procStep (db, world stdin n)) := by
  have hopen : Cli.Connected ((cli.openStore []).run.trace procStep (db, world stdin n)) :=
    .tail _ (.tail _ (.tail _ (.tail _ (.head _))))
  rw [Cli.withBroker, trace_exceptBind (exec_start db stdin n), Cli.start, trace_exceptBind (exec_openStore db stdin n)]
  exact List.mem_append_left _ (List.mem_append_left _ hopen)

end Sample

end Hanko
