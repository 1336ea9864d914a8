import Hanko.Framework.RingBuffer
import Hanko.Impl.Broker

/-!
# The NATS publisher (`internal/observability/nats_publisher.go`)

A publisher is shared by the calls of `Publish`, by the goroutine each of them
starts to publish on the connection, by the drain loop, by `Close`, and by the
handler that the client library calls when it has reconnected. Each is a
program over the fields of the publisher (`NATSPublisher`); a critical section
of `p.mu`, an operation on a channel and a call of the client library are one
question each. What the client library answers, which case of a `select` is
taken and when a timer fires is left open (`NatsHandler`).

The drain loop is given the number of its rounds. An event in the buffer is
marked with the call it comes from.
-/

namespace Hanko

open Bytes Interact

/-- `s.String()`. -/
def NATSSubject.string (s : NATSSubject) : Bytes :=
  [46].intercalate [lit "shikki", s.workspaceID, s.domain, s.subDomain, s.entity, s.action, s.corrID]

abbrev ringBufferSize : Nat := 1024

instance neZero_ringBufferSize : NeZero ringBufferSize := ⟨by decide⟩

/-- `pendingEvent`. The mark `call` is not in the source. -/
structure PendingEvent (ι : Type) where
  subject : Bytes
  data : Bytes
  call : Option ι
deriving DecidableEq

/-- A `*nats.Conn`. -/
abbrev Conn := Nat

structure NATSPublisher (ι : Type) where
  conn : Option Conn
  ring : RingBuffer (PendingEvent ι) ringBufferSize
  drops : Nat
  /-- The number of signals in `drainCh`. -/
  drainCh : Nat
  /-- Whether `closeCh` is closed. -/
  closed : Bool
  /-- Whether the drain loop has returned (`wg`). -/
  drained : Bool
  /-- The goroutines that calls have started, with the connection they use. -/
  started : ι → Option Conn
  /-- The `done` channels of the calls. -/
  done : ι → Option (Option GoError)

/-- The cases of the `select` in the drain loop. -/
inductive LoopCase where
  | closeCh
  | drainCh
  | ticker

namespace NATSPublisher

variable {ι : Type}

/-- `NewNATSPublisher`, with the result of the first attempt to connect. -/
def new (conn : Option Conn) : NATSPublisher ι :=
  ⟨conn, .empty ⟨[], [], none⟩, 0, 0, false, false, fun _ => none, fun _ => none⟩

/-- The critical section of `Publish` that buffers an event: whether there was
room. -/
def enqueue (p : NATSPublisher ι) (ev : PendingEvent ι) : Bool × NATSPublisher ι :=
  match p.ring.push ev with
  | some ring => (true, { p with ring := ring })
  | none => (false, p)

/-- The critical section of `flush`, given what `conn.IsConnected()` answers
in it. -/
def dequeue (p : NATSPublisher ι) (connected : Bool) : Option (Conn × PendingEvent ι) × NATSPublisher ι :=
  match p.ring.pop, p.conn with
  | none, _ => (none, p)
  | some _, none => (none, p)
  | some (ev, ring), some conn => if connected then (some (conn, ev), { p with ring := ring }) else (none, p)

/-- A signal to the drain loop, unless the channel is full. -/
def signal (p : NATSPublisher ι) : NATSPublisher ι :=
  if p.drainCh < ringBufferSize then { p with drainCh := p.drainCh + 1 } else p

/-- The state after a case of the drain loop's `select`, if it is ready. -/
def select (p : NATSPublisher ι) : LoopCase → Option (NATSPublisher ι)
  | .closeCh => if p.closed then some p else none
  | .drainCh => if 0 < p.drainCh then some { p with drainCh := p.drainCh - 1 } else none
  | .ticker => some p

/-- The state after a send on the `done` channel of a call, if it has room. -/
def sendDone [DecidableEq ι] (p : NATSPublisher ι) (i : ι) (err : Option GoError) : Option (NATSPublisher ι) :=
  if p.done i = none then some { p with done := Function.update p.done i (some err) } else none

/-- The state after a case of the `select` in `Publish`, if it is ready: an
answer of the goroutine, or the deadline. -/
def awaitDone [DecidableEq ι] (p : NATSPublisher ι) (i : ι) : Option (Option GoError) → Option (NATSPublisher ι)
  | some err => if p.done i = some err then some { p with done := Function.update p.done i none } else none
  | none => some p

end NATSPublisher

inductive NatsOp (ι : Type) where
  /-- `conn := p.conn`. -/
  | getConn
  /-- `p.conn = newConn`, the old one being drained. -/
  | setConn (newConn : Conn)
  | enqueue (ev : PendingEvent ι)
  | dequeue
  /-- `p.drops.Add(1)`. -/
  | dropsAdd
  | signal
  | select
  /-- `go func() { … }()` in `Publish`. -/
  | spawn (i : ι) (conn : Conn)
  /-- The goroutine runs. -/
  | begin (i : ι)
  | sendDone (i : ι) (err : Option GoError)
  | awaitDone (i : ι)
  | closeCh
  | wgDone
  | wgWait
  /-- `conn.IsConnected()`. -/
  | isConnected (conn : Conn)
  /-- `conn.Publish(ev.subject, ev.data)`. -/
  | connPublish (conn : Conn) (ev : PendingEvent ι)
  /-- `conn.FlushTimeout(publishDeadline)`. -/
  | flushTimeout (conn : Conn)
  /-- `conn.Drain()`. -/
  | drainConn (conn : Conn)
  /-- `nats.Connect(p.url, …)`. -/
  | connect

abbrev NatsOp.Ans {ι : Type} : NatsOp ι → Type
  | .getConn => Option Conn
  | .setConn _ => Unit
  | .enqueue _ => Bool
  | .dequeue => Option (Conn × PendingEvent ι)
  | .dropsAdd => Unit
  | .signal => Unit
  | .select => LoopCase
  | .spawn .. => Unit
  | .begin _ => Conn
  | .sendDone .. => Unit
  | .awaitDone _ => Option (Option GoError)
  | .closeCh => Unit
  | .wgDone => Unit
  | .wgWait => Unit
  | .isConnected _ => Bool
  | .connPublish .. => Option GoError
  | .flushTimeout _ => Option GoError
  | .drainConn _ => Unit
  | .connect => Except GoError Conn

abbrev NatsSig (ι : Type) : Sig := ⟨NatsOp ι, NatsOp.Ans⟩

section

variable {ι : Type}

/-- What the fields of the publisher, the channels and the client library may
answer. -/
def NatsHandler [DecidableEq ι] : Handler (NatsSig ι) (NATSPublisher ι)
  | .getConn, p, conn, p' => conn = p.conn ∧ p' = p
  | .setConn conn, p, _, p' => p' = { p with conn := some conn }
  | .enqueue ev, p, ok, p' => p.enqueue ev = (ok, p')
  | .dequeue, p, taken, p' => ∃ connected, p.dequeue connected = (taken, p')
  | .dropsAdd, p, _, p' => p' = { p with drops := p.drops + 1 }
  | .signal, p, _, p' => p' = p.signal
  | .select, p, case, p' => p.select case = some p'
  | .spawn i conn, p, _, p' => p' = { p with started := Function.update p.started i (some conn) }
  | .begin i, p, conn, p' => p.started i = some conn ∧ p' = p
  | .sendDone i err, p, _, p' => p.sendDone i err = some p'
  | .awaitDone i, p, answer, p' => p.awaitDone i answer = some p'
  | .closeCh, p, _, p' => p' = { p with closed := true }
  | .wgDone, p, _, p' => p' = { p with drained := true }
  | .wgWait, p, _, p' => p.drained = true ∧ p' = p
  | .isConnected _, p, _, p' => p' = p
  | .connPublish .., p, _, p' => p' = p
  | .flushTimeout _, p, _, p' => p' = p
  | .drainConn _, p, _, p' => p' = p
  | .connect, p, _, p' => p' = p

def askNats (o : NatsOp ι) : Prog (NatsSig ι) o.Ans := .call (S := NatsSig ι) o

@[simp] theorem askNats_eq (o : NatsOp ι) : askNats o = .ask (S := NatsSig ι) o .ret := rfl

/-! ## `Publish` -/

/-- A call of `Publish`: its subject, and what `json.Marshal` makes of its
payload. -/
structure PublishCall where
  subject : NATSSubject
  payload : Except GoError Bytes

/-- The event of a call. -/
def pending (i : ι) (subject : NATSSubject) (data : Bytes) : PendingEvent ι := ⟨subject.string, data, some i⟩

/-- "Buffer in ring or drop". -/
def buffer (ev : PendingEvent ι) : Prog (NatsSig ι) Unit := do
  if ← askNats (.enqueue ev) then askNats .signal
  else askNats .dropsAdd

def publish (i : ι) (c : PublishCall) : Prog (NatsSig ι) Unit :=
  match c.payload with
  | .error _ => return ()
  | .ok data => do
    match ← askNats .getConn with
    | none => buffer (pending i c.subject data)
    | some conn =>
      if ← askNats (.isConnected conn) then
        askNats (.spawn i conn)
        match ← askNats (.awaitDone i) with
        | some none => return ()
        | _ => buffer (pending i c.subject data)
      else buffer (pending i c.subject data)

/-- The goroutine that a call of `Publish` starts. -/
def publishConn (i : ι) (c : PublishCall) : Prog (NatsSig ι) Unit :=
  match c.payload with
  | .error _ => return ()
  | .ok data => do
    let conn ← askNats (.begin i)
    match ← askNats (.connPublish conn (pending i c.subject data)) with
    | some err => askNats (.sendDone i (some err))
    | none =>
      let err ← askNats (.flushTimeout conn)
      askNats (.sendDone i err)

/-! ## The drain loop -/

/-- `flush`, for a number of rounds. -/
def flush : Nat → Prog (NatsSig ι) Unit
  | 0 => return ()
  | n + 1 => do
    match ← askNats .dequeue with
    | none => return ()
    | some (conn, ev) =>
      match ← askNats (.connPublish conn ev) with
      | some _ => return ()
      | none => flush n

def reconnect : Prog (NatsSig ι) Unit := do
  match ← askNats .connect with
  | .error _ => return ()
  | .ok newConn => askNats (.setConn newConn)

/-- The retry of a connection that is down. -/
def retryConn : Prog (NatsSig ι) Unit := do
  match ← askNats .getConn with
  | none => reconnect
  | some conn => if ← askNats (.isConnected conn) then return () else reconnect

/-- `drainLoop`, for a number of rounds. -/
def drainLoop : Nat → Prog (NatsSig ι) Unit
  | 0 => return ()
  | n + 1 => do
    match ← askNats .select with
    | .closeCh =>
      flush n
      askNats .wgDone
    | .drainCh =>
      flush n
      drainLoop n
    | .ticker =>
      retryConn
      flush n
      drainLoop n

def closePublisher : Prog (NatsSig ι) Unit := do
  askNats .closeCh
  askNats .wgWait
  match ← askNats .getConn with
  | none => return ()
  | some conn => askNats (.drainConn conn)

/-! ## The goroutines -/

inductive Goroutine (ι : Type) where
  | publish (i : ι)
  | publishConn (i : ι)
  | drainLoop
  | close
  /-- A call of the handler for reconnections. -/
  | reconnected (n : Nat)
deriving DecidableEq

/-- The programs that share a publisher: the calls given, and a drain loop of
a number of rounds. -/
def goroutines (calls : ι → PublishCall) (rounds : Nat) : Goroutine ι → Prog (NatsSig ι) Unit
  | .publish i => publish i (calls i)
  | .publishConn i => publishConn i (calls i)
  | .drainLoop => drainLoop rounds
  | .close => closePublisher
  | .reconnected _ => askNats .signal

end

end Hanko
