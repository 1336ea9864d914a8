import Hanko.Framework.Balance
import Hanko.Impl.Nats

/-!
# What becomes of published events

An event that a call buffers stays in the buffer until the drain loop takes
it, and the drain loop tries to hand it to the connection right after that:

* `goroutines_asks`, `drainLoop_carries`: who buffers, takes and hands over
  events, and that the drain loop takes one at a time;
* `stepped`: what a step does to the buffer, the counter and the channels;
* `publish_outcome`: a call that has returned was told that its event is
  published, or buffered it, or counted it as dropped;
* `buffered_balance`: an event is buffered as often as it is in the buffer or
  the drain loop has tried to hand it over.

So an event is lost only where the drain loop fails to hand it over
(`published_accounted_iff`).
-/

namespace Hanko

open Bytes Interact

variable {ι : Type}

/-! ## Who asks what -/

/-- The goroutines that buffer, take and hand over events. -/
def Goroutine.Asked (g : Goroutine ι) : NatsOp ι → Prop
  | .enqueue ev => ∃ i, g = .publish i ∧ ev.call = some i
  | .dequeue => g = .drainLoop
  | .sendDone i _ => g = .publishConn i
  | .connPublish _ ev => g = .drainLoop ∨ ∃ i, g = .publishConn i ∧ ev.call = some i
  | _ => True

theorem buffer_asks {i : ι} {ev : PendingEvent ι} (h : ev.call = some i) :
    (buffer ev).Asks (Goroutine.publish i).Asked := by
  refine ⟨⟨i, rfl, h⟩, fun ok => ?_⟩
  cases ok <;> exact ⟨trivial, fun _ => trivial⟩

theorem publish_asks (i : ι) (c : PublishCall) : (publish i c).Asks (Goroutine.publish i).Asked := by
  rw [publish]
  split
  · trivial
  rename_i data _
  have hbuffer : (buffer (pending i c.subject data)).Asks (Goroutine.publish i).Asked := buffer_asks rfl
  refine ⟨trivial, fun conn => ?_⟩
  cases conn with
  | none => exact hbuffer
  | some conn =>
    refine ⟨trivial, fun connected => ?_⟩
    cases connected with
    | false => exact hbuffer
    | true =>
      refine ⟨trivial, fun _ => ⟨trivial, fun answer => ?_⟩⟩
      match answer with
      | some none => trivial
      | some (some _) => exact hbuffer
      | none => exact hbuffer

theorem publishConn_asks (i : ι) (c : PublishCall) :
    (publishConn i c).Asks (Goroutine.publishConn i).Asked := by
  rw [publishConn]
  split
  · trivial
  refine ⟨trivial, fun conn => ⟨.inr ⟨i, rfl, rfl⟩, fun err => ?_⟩⟩
  cases err with
  | some _ => exact ⟨rfl, fun _ => trivial⟩
  | none => exact ⟨trivial, fun _ => ⟨rfl, fun _ => trivial⟩⟩

theorem flush_asks (n : Nat) : (flush n).Asks (Goroutine.drainLoop : Goroutine ι).Asked := by
  induction n with
  | zero => trivial
  | succ n ih =>
    refine ⟨rfl, fun taken => ?_⟩
    match taken with
    | none => trivial
    | some (conn, ev) =>
      refine ⟨.inl rfl, fun err => ?_⟩
      cases err with
      | some _ => trivial
      | none => exact ih

theorem retryConn_asks {Q : NatsOp ι → Prop} (hget : Q .getConn) (hconnected : ∀ conn, Q (.isConnected conn))
    (hconnect : Q .connect) (hset : ∀ conn, Q (.setConn conn)) : (retryConn : Prog (NatsSig ι) Unit).Asks Q := by
  have hreconnect : (reconnect : Prog (NatsSig ι) Unit).Asks Q := by
    refine ⟨hconnect, fun result => ?_⟩
    cases result with
    | error _ => trivial
    | ok conn => exact ⟨hset conn, fun _ => trivial⟩
  refine ⟨hget, fun conn => ?_⟩
  cases conn with
  | none => exact hreconnect
  | some conn =>
    refine ⟨hconnected conn, fun connected => ?_⟩
    cases connected with
    | false => exact hreconnect
    | true => trivial

theorem drainLoop_asks (n : Nat) : (drainLoop n).Asks (Goroutine.drainLoop : Goroutine ι).Asked := by
  induction n with
  | zero => trivial
  | succ n ih =>
    refine ⟨trivial, fun case => ?_⟩
    cases case with
    | closeCh =>
      change ((flush n).bind _).Asks _
      exact asks_bind (flush_asks n) fun _ => ⟨trivial, fun _ => trivial⟩
    | drainCh =>
      change ((flush n).bind _).Asks _
      exact asks_bind (flush_asks n) fun _ => ih
    | ticker =>
      change (retryConn.bind fun _ => (flush n).bind _).Asks _
      exact asks_bind (retryConn_asks trivial (fun _ => trivial) trivial fun _ => trivial) fun _ =>
        asks_bind (flush_asks n) fun _ => ih

theorem goroutines_asks (calls : ι → PublishCall) (rounds : Nat) (g : Goroutine ι) :
    (goroutines calls rounds g).Asks g.Asked := by
  cases g with
  | publish i => exact publish_asks i (calls i)
  | publishConn i => exact publishConn_asks i (calls i)
  | drainLoop => exact drainLoop_asks rounds
  | close =>
    refine ⟨trivial, fun _ => ⟨trivial, fun _ => ⟨trivial, fun conn => ?_⟩⟩⟩
    cases conn with
    | none => trivial
    | some conn => exact ⟨trivial, fun _ => trivial⟩
  | reconnected n => exact ⟨trivial, fun _ => trivial⟩

/-! ## The drain loop -/

namespace NatsOp

/-- The event that is handed over. -/
def gives : NatsOp ι → Option (PendingEvent ι)
  | .connPublish _ ev => some ev
  | _ => none

/-- The event that is buffered. -/
def buffers : (o : NatsOp ι) → o.Ans → Option (PendingEvent ι)
  | .enqueue ev, true => some ev
  | _, _ => none

/-- The event that is taken out of the buffer. -/
def takes : (o : NatsOp ι) → o.Ans → Option (PendingEvent ι)
  | .dequeue, taken => taken.map Prod.snd
  | _, _ => none

end NatsOp

theorem flush_carries (n : Nat) : (flush n : Prog (NatsSig ι) Unit).Carries NatsOp.gives NatsOp.takes none := by
  induction n with
  | zero => rfl
  | succ n ih =>
    refine ⟨rfl, fun taken => ?_⟩
    match taken with
    | none => rfl
    | some (conn, ev) =>
      refine ⟨rfl, fun err => ?_⟩
      cases err with
      | some _ => rfl
      | none => exact ih

/-- The drain loop hands over each event right after taking it. -/
theorem drainLoop_carries (n : Nat) :
    (drainLoop n : Prog (NatsSig ι) Unit).Carries NatsOp.gives NatsOp.takes none := by
  have hretry : (retryConn : Prog (NatsSig ι) Unit).Carries NatsOp.gives NatsOp.takes none :=
    carries_of_asks (retryConn_asks ⟨rfl, fun _ => rfl⟩ (fun _ => ⟨rfl, fun _ => rfl⟩) ⟨rfl, fun _ => rfl⟩
      fun _ => ⟨rfl, fun _ => rfl⟩)
  induction n with
  | zero => rfl
  | succ n ih =>
    refine ⟨rfl, fun case => ?_⟩
    cases case with
    | closeCh =>
      change ((flush n).bind _).Carries _ _ none
      exact carries_bind (flush_carries n) fun _ => ⟨rfl, fun _ => rfl⟩
    | drainCh =>
      change ((flush n).bind _).Carries _ _ none
      exact carries_bind (flush_carries n) fun _ => ih
    | ticker =>
      change (retryConn.bind fun _ => (flush n).bind _).Carries _ _ none
      exact carries_bind hretry fun _ => carries_bind (flush_carries n) fun _ => ih

/-! ## The publisher -/

/-- The events that count a drop. -/
def isDrop : Event (NatsSig ι) → Bool
  | ⟨.dropsAdd, _⟩ => true
  | _ => false

/-- What a step does to the buffer, to the counter, and to the channels of the
calls. -/
structure Stepped (o : NatsOp ι) (a : o.Ans) (p p' : NATSPublisher ι) : Prop where
  ring : p.ring.contents ++ (o.buffers a).toList = (o.takes a).toList ++ p'.ring.contents
  drops : p.drops + (isDrop ⟨o, a⟩).toNat = p'.drops
  done : ∀ i, p'.done i = some none → p.done i = some none ∨ o = .sendDone i none

theorem Stepped.enqueue {ev : PendingEvent ι} {p p' : NATSPublisher ι} {ok : Bool}
    (h : p.enqueue ev = (ok, p')) : Stepped (.enqueue ev) ok p p' := by
  rw [NATSPublisher.enqueue] at h
  split at h
  · rename_i ring hring
    obtain ⟨rfl, rfl⟩ := Prod.mk.inj h
    exact ⟨(RingBuffer.contents_push hring).symm, rfl, fun _ => .inl⟩
  · obtain ⟨rfl, rfl⟩ := Prod.mk.inj h
    exact ⟨List.append_nil _, rfl, fun _ => .inl⟩

theorem Stepped.dequeue {p p' : NATSPublisher ι} {connected : Bool} {taken : Option (Conn × PendingEvent ι)}
    (h : p.dequeue connected = (taken, p')) : Stepped .dequeue taken p p' := by
  rw [NATSPublisher.dequeue] at h
  split at h
  · obtain ⟨rfl, rfl⟩ := Prod.mk.inj h
    exact ⟨List.append_nil _, rfl, fun _ => .inl⟩
  · obtain ⟨rfl, rfl⟩ := Prod.mk.inj h
    exact ⟨List.append_nil _, rfl, fun _ => .inl⟩
  · rename_i ev ring conn hring _
    cases connected with
    | true =>
      obtain ⟨rfl, rfl⟩ := Prod.mk.inj h
      exact ⟨(List.append_nil _).trans (RingBuffer.contents_pop hring), rfl, fun _ => .inl⟩
    | false =>
      obtain ⟨rfl, rfl⟩ := Prod.mk.inj h
      exact ⟨List.append_nil _, rfl, fun _ => .inl⟩

theorem Stepped.sendDone [DecidableEq ι] {p p' : NATSPublisher ι} {i : ι} {err : Option GoError}
    (h : p.sendDone i err = some p') :
    Stepped (.sendDone i err) () p p' := by
  rw [NATSPublisher.sendDone] at h
  split at h
  · obtain rfl := Option.some.inj h
    refine ⟨List.append_nil _, rfl, fun j hj => ?_⟩
    by_cases hij : j = i
    · subst hij
      obtain rfl : err = none := by simpa using hj
      exact .inr rfl
    · exact .inl (by simpa [hij] using hj)
  · cases h

theorem Stepped.awaitDone [DecidableEq ι] {p p' : NATSPublisher ι} {i : ι} {answer : Option (Option GoError)}
    (h : p.awaitDone i answer = some p') : Stepped (.awaitDone i) answer p p' := by
  cases answer with
  | none =>
    obtain rfl := Option.some.inj h
    exact ⟨List.append_nil _, rfl, fun _ => .inl⟩
  | some err =>
    rw [NATSPublisher.awaitDone] at h
    split at h
    · obtain rfl := Option.some.inj h
      refine ⟨List.append_nil _, rfl, fun j hj => ?_⟩
      by_cases hij : j = i
      · subst hij
        simp at hj
      · exact .inl (by simpa [hij] using hj)
    · cases h

theorem Stepped.select {p p' : NATSPublisher ι} {case : LoopCase} (h : p.select case = some p') :
    Stepped .select case p p' := by
  cases case <;> simp only [NATSPublisher.select, Option.ite_none_right_eq_some] at h
  · obtain ⟨-, ⟨⟩⟩ := h
    exact ⟨List.append_nil _, rfl, fun _ => .inl⟩
  · obtain ⟨-, ⟨⟩⟩ := h
    exact ⟨List.append_nil _, rfl, fun _ => .inl⟩
  · obtain ⟨⟩ := h
    exact ⟨List.append_nil _, rfl, fun _ => .inl⟩

theorem Stepped.signal (p : NATSPublisher ι) : Stepped .signal () p p.signal := by
  rw [NATSPublisher.signal]
  split <;> exact ⟨List.append_nil _, rfl, fun _ => .inl⟩

theorem stepped [DecidableEq ι] {o : NatsOp ι} {a : o.Ans} {p p' : NATSPublisher ι} (h : NatsHandler o p a p') :
    Stepped o a p p' := by
  cases o with
  | enqueue ev => exact .enqueue h
  | dequeue =>
    obtain ⟨_, h⟩ := h
    exact .dequeue h
  | sendDone i err => exact .sendDone h
  | awaitDone i => exact .awaitDone h
  | select => exact .select h
  | signal =>
    obtain rfl : p' = p.signal := h
    exact .signal p
  | getConn | begin | wgWait =>
    obtain ⟨-, rfl⟩ := h
    exact ⟨List.append_nil _, rfl, fun _ => .inl⟩
  | setConn | dropsAdd | spawn | closeCh | wgDone | isConnected | connPublish | flushTimeout | drainConn | connect =>
    cases h
    exact ⟨List.append_nil _, rfl, fun _ => .inl⟩

/-! ## A call -/

theorem buffer_ends {ev : PendingEvent ι} {es : List (Event (NatsSig ι))} (h : (buffer ev).Ends es ()) :
    es = [⟨.enqueue ev, true⟩, ⟨.signal, ()⟩] ∨ es = [⟨.enqueue ev, false⟩, ⟨.dropsAdd, ()⟩] := by
  simp only [buffer, askNats_eq, Prog.bind_eq, Prog.ask_bind, Prog.ret_bind, ends_ask] at h
  obtain ⟨ok, es, rfl, h⟩ := h
  cases ok with
  | true =>
    obtain ⟨_, es, rfl, hret⟩ := ends_ask.mp h
    obtain ⟨rfl, -⟩ := ends_ret.mp hret
    exact .inl rfl
  | false =>
    obtain ⟨_, es, rfl, hret⟩ := ends_ask.mp h
    obtain ⟨rfl, -⟩ := ends_ret.mp hret
    exact .inr rfl

/-- The events of buffering. -/
def Buffering (e : Event (NatsSig ι)) : Prop := (e.op.buffers e.ans).isSome ∨ isDrop e = true

/-- A call that returns was told that the event is published, or buffered it. -/
theorem publish_ends {i : ι} {c : PublishCall} {data : Bytes} (hdata : c.payload = .ok data)
    {es : List (Event (NatsSig ι))} (h : (publish i c).Ends es ()) :
    ⟨.awaitDone i, some none⟩ ∈ es ∨
      ∃ before rest, es = before ++ rest ∧ (∀ e ∈ before, ¬ Buffering e) ∧
        (buffer (pending i c.subject data)).Ends rest () := by
  simp only [publish, hdata, askNats_eq, Prog.bind_eq, Prog.ask_bind, Prog.ret_bind, ends_ask] at h
  obtain ⟨conn, es, rfl, h⟩ := h
  cases conn with
  | none => exact .inr ⟨[_], es, rfl, by simp [Buffering, NatsOp.buffers, isDrop], h⟩
  | some conn =>
    obtain ⟨connected, es, rfl, hconnected⟩ := ends_ask.mp h
    cases connected with
    | false => exact .inr ⟨[_, _], es, rfl, by simp [Buffering, NatsOp.buffers, isDrop], hconnected⟩
    | true =>
      obtain ⟨_, es, rfl, hspawn⟩ := ends_ask.mp hconnected
      obtain ⟨answer, es, rfl, hanswer⟩ := ends_ask.mp hspawn
      rcases answer with _ | _ | err
      · exact .inr ⟨[_, _, _, _], es, rfl, by simp [Buffering, NatsOp.buffers, isDrop], hanswer⟩
      · exact .inl (by simp)
      · exact .inr ⟨[_, _, _, _], es, rfl, by simp [Buffering, NatsOp.buffers, isDrop], hanswer⟩

/-- The goroutine of a call reports success only after handing the event over. -/
theorem publishConn_path {i : ι} {c : PublishCall} {data : Bytes} (hdata : c.payload = .ok data)
    {es : List (Event (NatsSig ι))} {q : Prog (NatsSig ι) Unit} (h : Path (publishConn i c) es q)
    (hdone : ⟨.sendDone i none, ()⟩ ∈ es) :
    ∃ conn, ⟨.connPublish conn (pending i c.subject data), none⟩ ∈ es := by
  simp only [publishConn, hdata, askNats_eq, Prog.bind_eq, Prog.ask_bind, Prog.ret_bind] at h
  cases h with
  | nil => cases hdone
  | @cons _ _ conn es _ h =>
    have hdone : (⟨.sendDone i none, ()⟩ : Event (NatsSig ι)) ∈ es := by simpa using hdone
    cases h with
    | nil => cases hdone
    | @cons _ _ err es _ h =>
      cases err with
      | none => exact ⟨conn, by simp⟩
      | some err =>
        have hdone : (⟨.sendDone i none, ()⟩ : Event (NatsSig ι)) ∈ es := by simpa using hdone
        cases h with
        | nil => cases hdone
        | @cons _ _ _ es _ h =>
          obtain ⟨rfl, -⟩ := path_ret.mp h
          simp at hdone

section

variable [DecidableEq ι]

/-- The event is buffered, taken out of the buffer, or handed over. -/
def isBuffered (ev : PendingEvent ι) (e : Event (NatsSig ι)) : Bool := e.op.buffers e.ans == some ev
def isTaken (ev : PendingEvent ι) (e : Event (NatsSig ι)) : Bool := e.op.takes e.ans == some ev
def isGiven (ev : PendingEvent ι) (e : Event (NatsSig ι)) : Bool := e.op.gives == some ev

theorem eq_of_isBuffered {ev : PendingEvent ι} {e : Event (NatsSig ι)} (h : isBuffered ev e = true) :
    e = ⟨.enqueue ev, true⟩ := by
  obtain ⟨o, a⟩ := e
  cases o with
  | enqueue ev' =>
    cases a with
    | true =>
      obtain rfl : ev' = ev := by simpa [isBuffered, NatsOp.buffers] using h
      rfl
    | false => cases h
  | _ => cases h

theorem eq_of_isGiven {ev : PendingEvent ι} {e : Event (NatsSig ι)} (h : isGiven ev e = true) :
    ∃ conn result, e = ⟨.connPublish conn ev, result⟩ := by
  obtain ⟨o, a⟩ := e
  cases o with
  | connPublish conn ev' =>
    obtain rfl : ev' = ev := by simpa [isGiven, NatsOp.gives] using h
    exact ⟨conn, a, rfl⟩
  | _ => cases h

theorem isGiven_connPublish (conn : Conn) (ev : PendingEvent ι) (result : Option GoError) :
    isGiven ev ⟨.connPublish conn ev, result⟩ = true :=
  beq_self_eq_true _

theorem op_of_isTaken {ev : PendingEvent ι} {e : Event (NatsSig ι)} (h : isTaken ev e = true) : e.op = .dequeue := by
  obtain ⟨o, a⟩ := e
  cases o with
  | dequeue => rfl
  | _ => cases h

/-- What a call that returned did with its event. -/
theorem publish_outcome {i : ι} {c : PublishCall} {data : Bytes} (hdata : c.payload = .ok data)
    {es : List (Event (NatsSig ι))} (h : (publish i c).Ends es ()) :
    ⟨.awaitDone i, some none⟩ ∈ es ∨
      es.countP (isBuffered (pending i c.subject data)) = 1 ∧ ⟨.dropsAdd, ()⟩ ∉ es ∨
      es.countP (isBuffered (pending i c.subject data)) = 0 ∧ ⟨.dropsAdd, ()⟩ ∈ es := by
  rcases publish_ends hdata h with hdone | ⟨before, rest, rfl, hbefore, hrest⟩
  · exact .inl hdone
  · have hzero : before.countP (isBuffered (pending i c.subject data)) = 0 := by
      rw [List.countP_eq_zero]
      intro e he hbuffered
      obtain rfl := eq_of_isBuffered hbuffered
      exact hbefore _ he (.inl rfl)
    have hdrop : (⟨.dropsAdd, ()⟩ : Event (NatsSig ι)) ∉ before := fun he => hbefore _ he (.inr rfl)
    rw [List.countP_append, hzero]
    rcases buffer_ends hrest with rfl | rfl
    · refine .inr (.inl ⟨?_, ?_⟩)
      · simp [isBuffered, NatsOp.buffers]
      · simp [hdrop]
    · refine .inr (.inr ⟨?_, ?_⟩)
      · simp [isBuffered, NatsOp.buffers]
      · simp

/-! ## Runs -/

variable {calls : ι → PublishCall} {rounds : Nat} {conn : Option Conn} {p' : NATSPublisher ι}
  {ps' : Goroutine ι → Prog (NatsSig ι) Unit} {tr : List (Goroutine ι × Event (NatsSig ι))}

theorem asked_of_mem (h : Run NatsHandler (goroutines calls rounds) (.new conn) tr ps' p') {g : Goroutine ι}
    {e : Event (NatsSig ι)} (he : (g, e) ∈ tr) : g.Asked e.op :=
  (h.path g).asks (goroutines_asks calls rounds g) e (mem_of.mpr he)

theorem drops_eq (h : Run NatsHandler (goroutines calls rounds) (.new conn) tr ps' p') :
    p'.drops = (tr.map Prod.snd).countP isDrop := by
  have hbalance := h.exec.balance (f := NATSPublisher.drops) (P := isDrop) (Q := fun _ => false)
    fun o p a p' hstep => (stepped hstep).drops
  simpa [NATSPublisher.new] using hbalance.symm

/-- A channel answers what the goroutine of the call sent. -/
theorem sent_of_done {es : List (Event (NatsSig ι))} (h : Exec NatsHandler (.new conn) es p') {i : ι}
    (hdone : ⟨.awaitDone i, some none⟩ ∈ es) : ⟨.sendDone i none, ()⟩ ∈ es := by
  by_contra hsent
  have hrestrict := h.restrict (A := fun e : Event (NatsSig ι) => e.op ≠ .sendDone i none) fun e he heq => hsent (by
    obtain ⟨o, a⟩ := e
    obtain rfl : o = .sendDone i none := heq
    exact he)
  refine hrestrict.forall_mem (I := fun p => p.done i ≠ some none) (P := fun e => e ≠ ⟨.awaitDone i, some none⟩)
    (fun o p a p' hstep hp hp' => ?_) (by simp [NATSPublisher.new]) ?_ _ hdone rfl
  · rcases (stepped hstep.1).done i hp' with hbefore | hsend
    · exact hp hbefore
    · exact hstep.2 hsend
  · rintro e p p' hp ⟨hstep, -⟩ rfl
    have hstep : p.awaitDone i (some none) = some p' := hstep
    rw [NATSPublisher.awaitDone, if_neg hp] at hstep
    cases hstep

/-- A call that was told so has its event handed over by its goroutine. -/
theorem handed_of_done (h : Run NatsHandler (goroutines calls rounds) (.new conn) tr ps' p') {i : ι} {data : Bytes}
    (hdata : (calls i).payload = .ok data) (hdone : ⟨.awaitDone i, some none⟩ ∈ of (.publish i) tr) :
    ∃ conn, (.publishConn i, ⟨.connPublish conn (pending i (calls i).subject data), none⟩) ∈ tr := by
  have hsent := sent_of_done h.exec ((of_sublist _ tr).subset hdone)
  obtain ⟨⟨g, e⟩, hmem, rfl⟩ := List.mem_map.mp hsent
  obtain rfl : g = .publishConn i := asked_of_mem h hmem
  obtain ⟨conn, hconn⟩ := publishConn_path hdata (h.path (.publishConn i)) (mem_of.mpr hmem)
  exact ⟨conn, mem_of.mp hconn⟩

/-- An event that was buffered is still in the buffer, or the drain loop has
tried to hand it over, if it is not about to. -/
theorem buffered_balance (h : Run NatsHandler (goroutines calls rounds) (.new conn) tr ps' p')
    (hidle : ∀ conn ev k, ps' .drainLoop ≠ .ask (.connPublish conn ev) k) {i : ι} (ev : PendingEvent ι)
    (hev : ev.call = some i) :
    (of (.publish i) tr).countP (isBuffered ev) =
      p'.ring.contents.count ev + (of .drainLoop tr).countP (isGiven ev) := by
  have hbuffered : (of (.publish i) tr).countP (isBuffered ev) = (tr.map Prod.snd).countP (isBuffered ev) := by
    refine countP_of_eq fun x hx hP => ?_
    obtain ⟨g, e⟩ := x
    obtain rfl := eq_of_isBuffered hP
    obtain ⟨j, rfl, hj⟩ := asked_of_mem h hx
    rw [hev] at hj
    obtain rfl := Option.some.inj hj
    rfl
  have htaken : (of .drainLoop tr).countP (isTaken ev) = (tr.map Prod.snd).countP (isTaken ev) := by
    refine countP_of_eq fun x hx hP => ?_
    have hasked := asked_of_mem h hx
    rw [op_of_isTaken hP] at hasked
    exact hasked
  have hring := h.exec.balance (f := fun p => p.ring.contents.count ev) (P := isBuffered ev) (Q := isTaken ev) <| by
    intro o p a p' hstep
    have hcount := congrArg (List.count ev) (stepped hstep).ring
    rw [List.count_append, List.count_append, count_toList, count_toList, Nat.add_comm (Bool.toNat _)] at hcount
    exact hcount
  obtain ⟨held, hcarries, hdrain⟩ := (h.path .drainLoop).balance (drainLoop_carries rounds) ev
  have hheld : held = none := by
    cases hq : ps' .drainLoop with
    | ret a => rw [hq] at hcarries; exact hcarries
    | ask o k =>
      rw [hq] at hcarries
      rw [hcarries.1]
      cases o with
      | connPublish conn ev => exact absurd hq (hidle conn ev k)
      | _ => rfl
  have hnew : (NATSPublisher.new conn : NATSPublisher ι).ring.contents.count ev = 0 := rfl
  have hdrain : (of .drainLoop tr).countP (isTaken ev) = (of .drainLoop tr).countP (isGiven ev) := by
    rw [hheld] at hdrain
    exact (Nat.zero_add _).symm.trans hdrain
  rw [hnew, ← hbuffered, ← htaken, hdrain, Nat.zero_add] at hring
  exact hring

/-- An event was handed to a connection without an error, is in the buffer, or
was counted as dropped by its call. -/
def Accounted (tr : List (Goroutine ι × Event (NatsSig ι))) (p : NATSPublisher ι) (i : ι) (ev : PendingEvent ι) :
    Prop :=
  (∃ g conn, (g, ⟨.connPublish conn ev, none⟩) ∈ tr) ∨ ev ∈ p.ring.contents ∨
    (.publish i, ⟨.dropsAdd, ()⟩) ∈ tr

/-- While the drain loop is not about to hand over an event, the event of a
call that has returned is accounted for, unless the drain loop failed to hand
it over and the goroutine of the call did not do so either. -/
theorem published_accounted_iff (calls : ι → PublishCall) (rounds : Nat) (conn : Option Conn)
    (h : Run NatsHandler (goroutines calls rounds) (.new conn) tr ps' p') :
    p'.drops = (tr.map Prod.snd).countP isDrop ∧
    ∀ i data, (calls i).payload = .ok data → ps' (.publish i) = .ret () →
      (∀ conn ev k, ps' .drainLoop ≠ .ask (.connPublish conn ev) k) →
      (Accounted tr p' i (pending i (calls i).subject data) ↔
        ((∃ conn err, (.drainLoop, ⟨.connPublish conn (pending i (calls i).subject data), some err⟩) ∈ tr) →
          ∃ conn, (.publishConn i, ⟨.connPublish conn (pending i (calls i).subject data), none⟩) ∈ tr)) := by
  refine ⟨drops_eq h, fun i data hdata hret hidle => ?_⟩
  have hbalance := buffered_balance h hidle (pending i (calls i).subject data) rfl
  have hgiven : ∀ {conn result}, (.drainLoop, ⟨.connPublish conn (pending i (calls i).subject data), result⟩) ∈ tr →
      0 < (of .drainLoop tr).countP (isGiven (pending i (calls i).subject data)) := fun hmem =>
    List.countP_pos_iff.mpr ⟨_, mem_of.mpr hmem, isGiven_connPublish ..⟩
  rcases publish_outcome hdata (h.ends hret) with hdone | ⟨hcount, hdrop⟩ | ⟨hcount, hdrop⟩
  · obtain ⟨conn, hmem⟩ := handed_of_done h hdata hdone
    exact ⟨fun _ _ => ⟨conn, hmem⟩, fun _ => .inl ⟨_, conn, hmem⟩⟩
  · rw [hcount] at hbalance
    constructor
    · rintro (⟨g, conn', hmem⟩ | hring | hdropped) ⟨conn, err, hfailed⟩
      · rcases asked_of_mem h hmem with rfl | ⟨j, rfl, hj⟩
        · -- the drain loop handed it over only once
          have hle : (of .drainLoop tr).countP (isGiven (pending i (calls i).subject data)) ≤ 1 := by omega
          have heq := eq_of_countP_le_one hle (mem_of.mpr hmem) (mem_of.mpr hfailed) (isGiven_connPublish ..)
            (isGiven_connPublish ..)
          cases heq
        · obtain rfl : i = j := Option.some.inj hj
          exact ⟨conn', hmem⟩
      · have hpos := List.count_pos_iff.mpr hring
        have hpos' := hgiven hfailed
        omega
      · exact absurd (mem_of.mpr hdropped) hdrop
    · intro himp
      by_cases hring : pending i (calls i).subject data ∈ p'.ring.contents
      · exact .inr (.inl hring)
      · rw [List.count_eq_zero_of_not_mem hring, Nat.zero_add] at hbalance
        obtain ⟨e, he, hP⟩ := List.countP_pos_iff.mp (hbalance ▸ Nat.one_pos)
        obtain ⟨conn, result, rfl⟩ := eq_of_isGiven hP
        cases result with
        | none => exact .inl ⟨_, conn, mem_of.mp he⟩
        | some err =>
          obtain ⟨conn', hmem⟩ := himp ⟨conn, err, mem_of.mp he⟩
          exact .inl ⟨_, conn', hmem⟩
  · refine ⟨fun _ ⟨conn, err, hfailed⟩ => ?_, fun _ => .inr (.inr (mem_of.mp hdrop))⟩
    have hpos := hgiven hfailed
    omega

end

namespace Sample

def natsCalls : Unit → PublishCall := fun _ => ⟨sigilSubject (lit "w") "issued" (lit "c"), .ok [1]⟩

def natsEvent : PendingEvent Unit := pending () (natsCalls ()).subject [1]

/-- The connection is down when the call is made, and up when the drain loop
hands its event over, with the given result. -/
def drainedTrace (result : Option GoError) : List (Goroutine Unit × Event (NatsSig Unit)) :=
  [(.publish (), ⟨.getConn, some 0⟩), (.publish (), ⟨.isConnected 0, false⟩),
    (.publish (), ⟨.enqueue natsEvent, true⟩), (.publish (), ⟨.signal, ()⟩),
    (.drainLoop, ⟨.select, .drainCh⟩), (.drainLoop, ⟨.dequeue, some (0, natsEvent)⟩),
    (.drainLoop, ⟨.connPublish 0 natsEvent, result⟩)]

theorem drained_run (result : Option GoError) :
    ∃ ps' p', Run NatsHandler (goroutines natsCalls 2) (.new (some 0)) (drainedTrace result) ps' p' ∧
      ps' (.publish ()) = .ret () ∧ (∀ conn ev k, ps' .drainLoop ≠ .ask (.connPublish conn ev) k) ∧
      p'.ring.contents = [] ∧ p'.drops = 0 := by
  refine ⟨_, _, .cons rfl ⟨rfl, rfl⟩ (.cons rfl rfl (.cons rfl rfl (.cons rfl rfl (.cons rfl rfl
    (.cons rfl ⟨true, rfl⟩ (.cons rfl rfl (.nil _ _))))))), rfl, ?_, rfl, rfl⟩
  intro conn ev k h
  cases result <;> cases h

end Sample

/-- The event of a call that the drain loop handed over. -/
theorem published_accounted_sample :
    ∃ ps' p', Run NatsHandler (goroutines Sample.natsCalls 2) (.new (some 0)) (Sample.drainedTrace none) ps' p' ∧
      Accounted (Sample.drainedTrace none) p' () Sample.natsEvent := by
  obtain ⟨ps', p', hrun, hret, hidle, -, -⟩ := Sample.drained_run none
  refine ⟨ps', p', hrun, ((published_accounted_iff Sample.natsCalls 2 (some 0) hrun).2 () [1] rfl hret hidle).mpr ?_⟩
  rintro ⟨conn, err, hfailed⟩
  simp [Sample.drainedTrace] at hfailed

/-- The drain loop fails to hand over the event of a call: nothing is left of
it. -/
theorem drained_event_lost :
    ∃ tr ps' p', Run NatsHandler (goroutines Sample.natsCalls 2) (.new (some 0)) tr ps' p' ∧
      ps' (.publish ()) = .ret () ∧ (∀ conn ev k, ps' .drainLoop ≠ .ask (.connPublish conn ev) k) ∧
      p'.drops = 0 ∧ ¬ Accounted tr p' () Sample.natsEvent := by
  obtain ⟨ps', p', hrun, hret, hidle, hring, hdrops⟩ :=
    Sample.drained_run (some (.text (lit "nats: connection closed")))
  refine ⟨_, ps', p', hrun, hret, hidle, hdrops, ?_⟩
  rintro (⟨g, conn, hmem⟩ | hmem | hmem)
  · simp [Sample.drainedTrace] at hmem
  · rw [hring] at hmem
    cases hmem
  · simp [Sample.drainedTrace] at hmem

end Hanko
