import Hanko.Framework.Fallible
import Hanko.Impl.Server

/-!
# Processes of the command line (`cmd/hanko-broker/main.go`)

A process asks the database for its statements and the system for everything
else (`SysOp`); it ends with an exit status and what it has printed
(`Output`). What all commands share is here: the choice of the store, the key
of the broker, and the broker over the two.
-/

namespace Hanko

open Bytes Interact

/-! ## The system -/

/-- What a process asks of its system. -/
inductive SysOp where
  | getenv (name : Bytes)
  | userHomeDir
  | readFile (path : Bytes)
  | readStdin
  /-- `os.Stat`: whether it returned no error. -/
  | stat (path : Bytes)
  | mkdirAll (path : Bytes)
  | writeFile (path data : Bytes)
  | poolNew (dsn : Bytes)
  | ping
  | migrate
  /-- `ed25519.GenerateKey`: the private key. -/
  | generateKey
  /-- `SELECT … FROM sigils ORDER BY created_at DESC`. -/
  | selectSigils
  /-- What the broker asks of its surroundings. -/
  | host (o : HostOp)

abbrev SysOp.Ans : SysOp → Type
  | .getenv _ => Bytes
  | .userHomeDir => Option Bytes
  | .readFile _ => FileRead
  | .readStdin => Except GoError Bytes
  | .stat _ => Bool
  | .mkdirAll _ => Except GoError Unit
  | .writeFile .. => Except GoError Unit
  | .poolNew _ => Except GoError Unit
  | .ping => Except GoError Unit
  | .migrate => Except GoError Unit
  | .generateKey => Except GoError Bytes
  | .selectSigils => Except PgError (List (Bytes × SigilRow))
  | .host o => o.Ans

abbrev SysSig : Sig := ⟨SysOp, SysOp.Ans⟩

abbrev ProcSig : Sig := SqlSig.sum SysSig

/-- The rows of `sigils` in the order of a listing. Rows of the same time may
come in any order. -/
structure Db.Lists (db : Db) (rows : List (Bytes × SigilRow)) : Prop where
  mem_iff : ∀ id row, (id, row) ∈ rows ↔ db.sigils id = some row
  nodup : (rows.map Prod.fst).Nodup
  sorted : rows.Pairwise fun a b => b.2.createdAt ≤ a.2.createdAt

/-- Processes that run concurrently over one database, any statement of which
may fail. The rest of their systems may answer anything. -/
def ProcHandler : Handler ProcSig Db
  | .inl o, db, a, db' => Db.Faulty o db a db'
  | .inr .selectSigils, db, a, db' => db' = db ∧ ∀ rows, a = .ok rows → db.Lists rows
  | .inr _, db, _, db' => db' = db

/-! ## Commands -/

/-- What a process has printed when it exits, and its status. -/
structure Output where
  stdout : Bytes
  stderr : Bytes
  status : Nat
deriving DecidableEq

/-- A part of a process, which `os.Exit` may end. -/
abbrev Cmd (α : Type) := ExceptT Output (Prog ProcSig) α

def sys (o : SysOp) : Cmd o.Ans := ExceptT.lift (Prog.call (S := ProcSig) (.inr o))

/-- A message on the error stream, and exit status 1. -/
def exits (msg : Bytes) : Output := ⟨[], msg ++ [10], 1⟩

/-- `die`. -/
def die (msg : Bytes) : Output := exits (lit "error: " ++ msg)

/-- What the commands use of the standard library. -/
structure Cli where
  /-- `ed25519.Sign`, by the private key. -/
  ed25519Sign : Bytes → Bytes → Bytes
  /-- `ed25519.Verify`, by the public key. -/
  ed25519Verify : Bytes → Bytes → Bytes → Bool
  sha256 : Bytes → Bytes
  parseDuration : Bytes → Except GoError Duration
  /-- `unicode.IsPrint`, for `%q`. -/
  isPrint : Char → Bool
  /-- The text of `printUsage`. -/
  usage : Bytes
  pg : PgStore

/-- What `os.ReadFile(path)` returns. -/
def FileRead.result (path : Bytes) : FileRead → Except GoError Bytes
  | .bytes raw => .ok raw
  | .notExist => .error (.text (lit "open " ++ (path ++ lit ": no such file or directory")))
  | .failed e => .error e

/-- `hex.DecodeString`; `none` is an error. -/
def hexDecode : Bytes → Option Bytes
  | [] => some []
  | h :: l :: s => do
    let h ← hexValue h
    let l ← hexValue l
    return UInt8.ofNat (16 * h + l) :: (← hexDecode s)
  | [_] => none

namespace Cli

variable (c : Cli)

/-- `%q`. -/
def quoted (s : Bytes) : Bytes := strconvQuote c.isPrint s

/-! ## The store -/

/-- The stores a process may open. -/
inductive Backend where
  | mem
  | pg
deriving DecidableEq

/-- `NewPgStore(ctx, "")`. -/
def newPgStore : Cmd (Except GoError Unit) := do
  let dsn ← sys (.getenv (lit "HANKO_PG_DSN"))
  if dsn = [] then return .error (.text (lit "store: HANKO_PG_DSN is not set"))
  else
    match ← sys (.poolNew dsn) with
    | .error e => return .error (e.wrap "store: pgxpool.New")
    | .ok _ =>
      match ← sys .ping with
      | .error e => return .error (e.wrap "store: ping failed")
      | .ok _ =>
        match ← sys .migrate with
        | .error e => return .error (e.wrap "store: migration failed")
        | .ok _ => return .ok ()

/-- The store that is wanted. -/
def wantedStore (flag : Bytes) : Cmd Bytes :=
  if flag ≠ [] then return flag
  else do
    let dsn ← sys (.getenv (lit "HANKO_PG_DSN"))
    return if dsn ≠ [] then lit "pg" else lit "mem"

def openStore (flag : Bytes) : Cmd Backend := do
  let want ← wantedStore flag
  if want = lit "mem" then return .mem
  else if want = lit "pg" then
    match ← newPgStore with
    | .error e => throw (die (lit "cannot open Postgres store: " ++ e.error))
    | .ok _ => return .pg
  else throw (die (lit "unknown --store value " ++ (c.quoted want ++ lit " (want: mem | pg)")))

/-! ## The broker -/

/-- `defaultKeyPath`. -/
def defaultKeyPath : Cmd Bytes := do
  match ← sys .userHomeDir with
  | none => return lit "broker.key"
  | some home => return home ++ lit "/.hanko/broker.key"

/-- `ed25519.PrivateKeySize`. -/
def privateKeySize : Nat := 64

/-- `ed25519.PublicKeySize`. -/
def publicKeySize : Nat := 32

/-- `priv.Public()`: a private key ends in the public one. -/
def publicKey (priv : Bytes) : Bytes := priv.drop 32

/-- The private key in the text of a key file. -/
def parseKey (raw : Bytes) : Option Bytes := (hexDecode (trimSpace raw)).filter fun priv => priv.length = privateKeySize

/-- The path of the key file. -/
def keyPath : Cmd Bytes := do
  let path ← sys (.getenv (lit "HANKO_BROKER_KEY_PATH"))
  if path = [] then defaultKeyPath else return path

/-- `loadBrokerKey`: the private key. -/
def loadBrokerKey : Cmd Bytes := do
  let path ← keyPath
  let file ← sys (.readFile path)
  match file.result path with
  | .error e =>
    throw (die (lit "cannot read broker key from " ++ (path ++ (lit ": " ++ (e.error ++
      lit "\n  generate with: hanko-broker keygen")))))
  | .ok raw =>
    match parseKey raw with
    | some priv => return priv
    | none => throw (die (lit "broker key at " ++ (path ++ lit " is not a valid Ed25519 private key")))

/-- `broker.New`: without a publisher, a workspace or metrics. -/
def newBroker (priv : Bytes) : Broker := ⟨publicKey priv, c.ed25519Verify (publicKey priv), c.sha256, [], false⟩

/-- The surroundings of that broker: it signs with its key, and its events go
nowhere. -/
def hostImpl (priv : Bytes) : (o : HostSig.Op) → Prog ProcSig (HostSig.Ans o)
  | .sign message => .ret (c.ed25519Sign priv message)
  | .publish _ _ => .ret ()
  | o => .call (S := ProcSig) (.inr (.host o))

/-- The store and the surroundings of a broker over Postgres. -/
def pgImpl (priv : Bytes) : (o : BrokerSig.Op) → Prog ProcSig (BrokerSig.Ans o)
  | .inl o => (c.pg.impl o).inl SysSig
  | .inr o => c.hostImpl priv o

/-- A program of the broker, over a store that was opened. The in-memory store
is new, and gone with the process. -/
def runBroker {α : Type} (priv : Bytes) (p : Prog BrokerSig α) : Backend → Prog ProcSig α
  | .mem => p.handle MemStore.step (c.hostImpl priv) .new
  | .pg => p.interp (c.pgImpl priv)

/-- `openStore` and `loadBrokerKey`. -/
def start (storeFlag : Bytes) : Cmd (Backend × Bytes) := do
  let store ← c.openStore storeFlag
  let priv ← loadBrokerKey
  return (store, priv)

/-- `openStore`, `loadBrokerKey` and `broker.New`, and then the broker. -/
def withBroker {α : Type} (storeFlag : Bytes) (p : Broker → Prog BrokerSig (Except Output α)) : Cmd α := do
  let (store, priv) ← c.start storeFlag
  ExceptT.mk (c.runBroker priv (p (c.newBroker priv)) store)

/-! ## Flags -/

/-- A loop over the arguments of a command: the flags that take a value, and
what becomes of the other arguments. `nextArg` stops the process if the value
is missing. -/
def parseFlags {α : Type} (flag : Bytes → Option (Bytes → α → Except Output α)) (other : Bytes → Except Output Unit) :
    List Bytes → α → Except Output α
  | [], a => .ok a
  | arg :: args, a =>
    match flag arg with
    | none => do
      other arg
      parseFlags flag other args a
    | some set =>
      match args with
      | [] => .error (die (arg ++ lit " requires an argument"))
      | value :: args => do
        let a ← set value a
        parseFlags flag other args a

/-- Arguments that are no flags are passed over. -/
def ignored (_ : Bytes) : Except Output Unit := .ok ()

end Cli

end Hanko
