import Hanko.Impl.Broker

/-!
# Change data capture (`internal/observability/cdc.go`)

The replication loop, `StartReplication`, as a program over a replication
connection (`CdcOp`), and the Postgres server it talks to (`CdcHandler`): a
log of committed row changes, and the slot `shikki_hanko_cdc_v1` with the
position that was last acknowledged. On `START_REPLICATION` at a position the
server streams, in the order of their commits, the changes that were committed
after that position and after the acknowledged one.

A broker is a session: it connects, runs the loop for a number of rounds, and
may stop before any of its questions. A message with a row change is marked
with the place of the change in the log.
-/

namespace Hanko

open Bytes Interact

/-- `pglogrepl.LSN`: a position in the write-ahead log. -/
abbrev LSN := Nat

def cdcAuditTable : Bytes := lit "hanko_audit"

/-! ## The server -/

/-- A row change of a transaction, and the message that it is sent in. -/
structure RowChange where
  table : Bytes
  walStart : LSN
  walData : Bytes

/-- A row change in the log, and the position of its commit. -/
structure LoggedChange extends RowChange where
  commit : LSN

/-- The replication slot: where it was created, and the last acknowledged
position. -/
structure ReplicationSlot where
  created : LSN
  confirmed : LSN

structure ReplicationServer where
  log : List LoggedChange
  /-- The end of the write-ahead log. -/
  flushed : LSN
  slot : Option ReplicationSlot
  /-- The broker that is connected. -/
  session : Option Nat
  /-- The next change to stream to it. -/
  next : Option Nat
  /-- The changes that brokers have dispatched. -/
  dispatched : List Nat

namespace ReplicationServer

/-- A server before the slot is created. -/
def new (flushed : LSN) : ReplicationServer := ⟨[], flushed, none, none, none, []⟩

/-- A transaction is committed. -/
def commit (s : ReplicationServer) (changes : List RowChange) (lsn : LSN) : ReplicationServer :=
  { s with log := s.log ++ changes.map fun c => ⟨c, lsn⟩, flushed := lsn }

/-- The first change of the log that was committed after a position. -/
def after (s : ReplicationServer) (pos : LSN) : Nat := (s.log.takeWhile fun c => c.commit ≤ pos).length

/-- The connection of the broker is closed. -/
def disconnect (s : ReplicationServer) : ReplicationServer := { s with session := none, next := none }

end ReplicationServer

/-! ## The connection -/

/-- `pglogrepl.XLogData`. The mark `change` is not in the source. -/
structure XLogData where
  walStart : LSN
  walData : Bytes
  change : Option Nat

/-- What `ReceiveMessage` gives. -/
inductive Received where
  | timeout
  | error (e : GoError)
  /-- A message that is not `CopyData`, or of a kind that the loop ignores. -/
  | other
  /-- `PrimaryKeepaliveMessage`: whether a reply is requested, if it could be
  parsed. -/
  | keepalive (replyRequested : Option Bool)
  | xLogData (x : Except GoError XLogData)

inductive CdcOp where
  /-- `pgconn.Connect`. -/
  | connect (n : Nat)
  | identifySystem (n : Nat)
  | createReplicationSlot (n : Nat)
  | startReplication (n : Nat) (pos : LSN)
  | sendStandbyStatusUpdate (n : Nat) (walWritePosition : LSN)
  | receiveMessage (n : Nat)
  /-- `c.dispatch(dec, walData)`. -/
  | dispatch (n : Nat) (walData : Bytes) (change : Option Nat)
  /-- `conn.Close`. -/
  | close (n : Nat)
  /-- `ctx.Err()`, if `ctx` is done. -/
  | ctxDone (n : Nat)
  | timeNow
  /-- A transaction of a client of the database. -/
  | commit (changes : List RowChange)
  /-- The write-ahead log grows. -/
  | advance
  /-- The broker that is connected stops. -/
  | stop

abbrev CdcOp.Ans : CdcOp → Type
  | .connect _ => Option GoError
  | .identifySystem _ => Except GoError LSN
  | .createReplicationSlot _ => Option GoError
  | .startReplication .. => Option GoError
  | .sendStandbyStatusUpdate .. => Option GoError
  | .receiveMessage _ => Received
  | .dispatch .. => Unit
  | .close _ => Unit
  | .ctxDone _ => Option GoError
  | .timeNow => Time
  | .commit _ => Unit
  | .advance => Unit
  | .stop => Unit

abbrev CdcSig : Sig := ⟨CdcOp, CdcOp.Ans⟩

/-- What the next message of a stream may be: row changes come in the order of
the log, and anything else at any time. -/
def ReplicationServer.Sends (s : ReplicationServer) (s' : ReplicationServer) : Received → Prop
  | .xLogData (.ok ⟨walStart, walData, some k⟩) =>
    s.next = some k ∧ s' = { s with next := some (k + 1) } ∧
      ∃ c, s.log[k]? = some c ∧ walStart = c.walStart ∧ walData = c.walData
  | _ => s' = s

/-- What the server, the clock and the context may answer. A broker that is
not connected gets no answer. -/
def CdcHandler : Handler CdcSig ReplicationServer
  | .connect n, s, err, s' =>
    err = none ∧ s.session = none ∧ s' = { s with session := some n, next := none } ∨ err ≠ none ∧ s' = s
  | .identifySystem n, s, sysident, s' =>
    s.session = some n ∧ s' = s ∧ ∀ pos, sysident = .ok pos → pos = s.flushed
  | .createReplicationSlot n, s, err, s' =>
    s.session = some n ∧
      (err = none ∧ s.slot = none ∧ s' = { s with slot := some ⟨s.flushed, s.flushed⟩ } ∨ err ≠ none ∧ s' = s)
  | .startReplication n pos, s, err, s' =>
    s.session = some n ∧
      ((err = none ∧ ∃ slot, s.slot = some slot ∧ s' = { s with next := some (s.after (max pos slot.confirmed)) }) ∨
        err ≠ none ∧ s' = s)
  | .sendStandbyStatusUpdate n pos, s, err, s' =>
    s.session = some n ∧
      (err = none ∧ s' = { s with slot := s.slot.map fun slot => { slot with confirmed := pos } } ∨
        err ≠ none ∧ s' = s)
  | .receiveMessage n, s, received, s' => s.session = some n ∧ s.Sends s' received
  | .dispatch n _ change, s, _, s' =>
    s.session = some n ∧ s' = { s with dispatched := s.dispatched ++ change.toList }
  | .close n, s, _, s' => s.session = some n ∧ s' = s.disconnect
  | .ctxDone n, s, _, s' => s.session = some n ∧ s' = s
  | .timeNow, s, _, s' => s' = s
  | .commit changes, s, _, s' => ∃ lsn, s.flushed < lsn ∧ s' = s.commit changes lsn
  | .advance, s, _, s' => ∃ lsn, s.flushed ≤ lsn ∧ s' = { s with flushed := lsn }
  | .stop, s, _, s' => s' = s.disconnect

def askCdc (o : CdcOp) : Prog CdcSig o.Ans := .call (S := CdcSig) o

@[simp] theorem askCdc_eq (o : CdcOp) : askCdc o = .ask (S := CdcSig) o .ret := rfl

/-! ## The broker -/

namespace CDCPublisher

/-- Ten seconds. -/
def standbyInterval : Duration := 10 * Time.nanosPerSecond

/-- A `return` of `StartReplication`, after which the connection is closed. -/
def leave (n : Nat) (err : GoError) : Prog CdcSig (Option GoError) := do
  askCdc (.close n)
  return some err

/-- The second half of a round: a message is received and handled, and the loop
goes on. -/
def receive (n : Nat) (continue_ : LSN → Time → Prog CdcSig (Option GoError)) (clientXLogPos : LSN)
    (nextStandby : Time) : Prog CdcSig (Option GoError) := do
  match ← askCdc (.receiveMessage n) with
  | .timeout => continue_ clientXLogPos nextStandby
  | .error e => leave n (e.wrap "cdc: receive")
  | .other => continue_ clientXLogPos nextStandby
  | .keepalive (some true) =>
    let now ← askCdc .timeNow
    continue_ clientXLogPos now
  | .keepalive _ => continue_ clientXLogPos nextStandby
  | .xLogData (.error e) => leave n (e.wrap "cdc: parse xlog")
  | .xLogData (.ok xld) =>
    askCdc (.dispatch n xld.walData xld.change)
    continue_ ((xld.walStart + xld.walData.length) % 2 ^ 64) nextStandby

/-- The loop of `StartReplication`, for a number of rounds. -/
def loop (n : Nat) : Nat → LSN → Time → Prog CdcSig (Option GoError)
  | 0, _, _ => return none
  | rounds + 1, clientXLogPos, nextStandby => do
    match ← askCdc (.ctxDone n) with
    | some e => leave n e
    | none =>
      let now ← askCdc .timeNow
      if now.after nextStandby then
        match ← askCdc (.sendStandbyStatusUpdate n clientXLogPos) with
        | some e => leave n (e.wrap "cdc: standby status")
        | none =>
          let now ← askCdc .timeNow
          receive n (loop n rounds) clientXLogPos (now.add standbyInterval)
      else receive n (loop n rounds) clientXLogPos nextStandby

def startReplication (n rounds : Nat) : Prog CdcSig (Option GoError) := do
  match ← askCdc (.connect n) with
  | some e => return some (e.wrap "cdc: connect")
  | none =>
    match ← askCdc (.identifySystem n) with
    | .error e => leave n (e.wrap "cdc: identify system")
    | .ok xLogPos =>
      -- an error is printed: the slot may already exist
      let _ ← askCdc (.createReplicationSlot n)
      match ← askCdc (.startReplication n xLogPos) with
      | some e => leave n (e.wrap "cdc: start replication")
      | none =>
        let now ← askCdc .timeNow
        loop n rounds xLogPos (now.add standbyInterval)

end CDCPublisher

/-- Who deals with the server: brokers, clients of the database, what else
makes the log grow, and what stops a broker. -/
inductive CdcParty where
  | broker (n : Nat)
  | client (n : Nat)
  | wal (n : Nat)
  | halt (n : Nat)
deriving DecidableEq

def cdcParties (transactions : Nat → List RowChange) (rounds : Nat) : CdcParty → Prog CdcSig (Option GoError)
  | .broker n => CDCPublisher.startReplication n rounds
  | .client n => do askCdc (.commit (transactions n)); return none
  | .wal _ => do askCdc .advance; return none
  | .halt _ => do askCdc .stop; return none

end Hanko
