import Hanko.Framework.Refine
import Hanko.Proof.Nats

/-!
# The ring buffer of the publisher

The buffer is a bounded queue (`Fifo`): whatever the goroutines do, every step
on the fields of the publisher is one of the queue they mean (`fifo_refines`).
What is in it are the events that were buffered and not yet taken out, in the
order in which they came.

* `dequeue_oldest`, `dequeue_waits`: what is taken out, and when nothing is;
* `fifo_history`: the queue after any sequence of steps;
* `buffer_exec`: one call that buffers its event, or drops it;
* `buffer_all_exec`: calls one after the other, and nothing taken out;
* `ring_buffer_fifo`: the slots and the indices of the buffer.
-/

namespace Hanko

open Bytes Interact

variable {ι : Type}

/-! ## The queue -/

/-- A queue of at most `ringBufferSize` events, and the number of those that
found it full. -/
@[ext] structure Fifo (α : Type) where
  queue : List α
  dropped : Nat

/-- What the steps of a publisher do to its queue. -/
def Fifo.Step : Handler (NatsSig ι) (Fifo (PendingEvent ι))
  | .enqueue ev, q, true, q' => q.queue.length < ringBufferSize ∧ q' = { q with queue := q.queue ++ [ev] }
  | .enqueue _, q, false, q' => q.queue.length = ringBufferSize ∧ q' = q
  | .dequeue, q, some (_, ev), q' => q = { q' with queue := ev :: q'.queue }
  | .dropsAdd, q, _, q' => q' = { q with dropped := q.dropped + 1 }
  | _, q, _, q' => q' = q

/-- The queue of a publisher. -/
def NATSPublisher.fifo (p : NATSPublisher ι) : Fifo (PendingEvent ι) := ⟨p.ring.contents, p.drops⟩

/-- Steps that neither buffer, nor take, nor drop an event. -/
theorem Stepped.fifo_eq {o : NatsOp ι} {a : o.Ans} {p p' : NATSPublisher ι} (h : Stepped o a p p')
    (hbuffers : o.buffers a = none) (htakes : o.takes a = none) (hdrop : isDrop ⟨o, a⟩ = false) :
    p'.fifo = p.fifo := by
  have hring := h.ring
  have hdrops := h.drops
  rw [hbuffers, htakes] at hring
  rw [hdrop] at hdrops
  have hqueue : p'.ring.contents = p.ring.contents := by simpa using hring.symm
  exact Fifo.ext hqueue hdrops.symm

theorem NATSPublisher.enqueue_eq_true {p p' : NATSPublisher ι} {ev : PendingEvent ι}
    (h : p.enqueue ev = (true, p')) : p.ring.count < ringBufferSize := by
  refine lt_of_le_of_ne p.ring.count_le fun hfull => ?_
  rw [enqueue, RingBuffer.push_eq_none.mpr hfull] at h
  cases h

theorem NATSPublisher.enqueue_eq_false {p p' : NATSPublisher ι} {ev : PendingEvent ι}
    (h : p.enqueue ev = (false, p')) : p.ring.count = ringBufferSize ∧ p' = p := by
  rw [enqueue] at h
  split at h
  · cases h
  · rename_i hfull
    obtain ⟨-, rfl⟩ := Prod.mk.inj h
    exact ⟨RingBuffer.push_eq_none.mp hfull, rfl⟩

/-- An event that finds room is the newest, and nothing but the buffer changes. -/
theorem NATSPublisher.enqueue_newest {p : NATSPublisher ι} (ev : PendingEvent ι) (h : p.ring.count < ringBufferSize) :
    ∃ ring, p.enqueue ev = (true, { p with ring := ring }) ∧ ring.contents = p.ring.contents ++ [ev] ∧
      ring.tail = p.ring.tail := by
  cases hpush : p.ring.push ev with
  | none => exact absurd (RingBuffer.push_eq_none.mp hpush) h.ne
  | some ring =>
    refine ⟨ring, ?_, RingBuffer.contents_push hpush, RingBuffer.tail_push hpush⟩
    rw [enqueue, hpush]

/-- Nothing is taken out of an empty buffer, or without a connection that is up. -/
theorem NATSPublisher.dequeue_waits {p : NATSPublisher ι} {connected : Bool}
    (h : p.ring.contents = [] ∨ p.conn = none ∨ connected = false) : p.dequeue connected = (none, p) := by
  rw [dequeue]
  split
  · rfl
  · rfl
  · rename_i ev ring conn hpop hconn
    rcases h with hempty | hnone | rfl
    · cases hpop.symm.trans (RingBuffer.pop_eq_none.mpr hempty)
    · cases hconn.symm.trans hnone
    · rfl

/-- Otherwise the oldest event is, and nothing but the buffer changes. -/
theorem NATSPublisher.dequeue_oldest {p : NATSPublisher ι} {conn : Conn} {ev : PendingEvent ι}
    {queue : List (PendingEvent ι)} (hcontents : p.ring.contents = ev :: queue) (hconn : p.conn = some conn) :
    ∃ ring, p.dequeue true = (some (conn, ev), { p with ring := ring }) ∧ ring.contents = queue ∧
      ring.tail = p.ring.tail + 1 := by
  obtain ⟨ring, hpop, hqueue, htail⟩ := RingBuffer.pop_eq_some hcontents
  refine ⟨ring, ?_, hqueue, htail⟩
  rw [dequeue, hpop, hconn]
  rfl

theorem fifo_refines [DecidableEq ι] : Refines NatsHandler Fifo.Step (NATSPublisher.fifo : NATSPublisher ι → _) := by
  intro o p a p' h
  have hs := stepped h
  cases o with
  | enqueue ev =>
    cases a with
    | true =>
      refine ⟨?_, Fifo.ext hs.ring.symm hs.drops.symm⟩
      rw [NATSPublisher.fifo, RingBuffer.length_contents]
      exact NATSPublisher.enqueue_eq_true h
    | false =>
      obtain ⟨hfull, rfl⟩ := NATSPublisher.enqueue_eq_false h
      exact ⟨p'.ring.length_contents.trans hfull, rfl⟩
  | dequeue =>
    rcases a with _ | ⟨conn, ev⟩
    · exact hs.fifo_eq rfl rfl rfl
    · exact Fifo.ext ((List.append_nil _).symm.trans hs.ring) hs.drops
  | dropsAdd =>
    cases h
    rfl
  | _ => exact hs.fifo_eq rfl rfl rfl

/-! ## Histories -/

/-- The events that were buffered. -/
def buffered (es : List (Event (NatsSig ι))) : List (PendingEvent ι) := es.filterMap fun e => e.op.buffers e.ans

/-- The events that were taken out. -/
def taken (es : List (Event (NatsSig ι))) : List (PendingEvent ι) := es.filterMap fun e => e.op.takes e.ans

theorem buffered_cons (e : Event (NatsSig ι)) (es : List (Event (NatsSig ι))) :
    buffered (e :: es) = (e.op.buffers e.ans).toList ++ buffered es := by
  cases h : e.op.buffers e.ans <;> simp [buffered, h]

theorem taken_cons (e : Event (NatsSig ι)) (es : List (Event (NatsSig ι))) :
    taken (e :: es) = (e.op.takes e.ans).toList ++ taken es := by
  cases h : e.op.takes e.ans <;> simp [taken, h]

theorem buffered_append (es es' : List (Event (NatsSig ι))) : buffered (es ++ es') = buffered es ++ buffered es' :=
  List.filterMap_append

theorem taken_append (es es' : List (Event (NatsSig ι))) : taken (es ++ es') = taken es ++ taken es' :=
  List.filterMap_append

/-- Taken out, and still there: together what was there and what came. -/
theorem fifo_history [DecidableEq ι] {p p' : NATSPublisher ι} {es : List (Event (NatsSig ι))}
    (h : Exec NatsHandler p es p') : p.ring.contents ++ buffered es = taken es ++ p'.ring.contents := by
  induction h with
  | nil => simp [buffered, taken]
  | @cons p p₁ p' e es hstep _ ih =>
    calc p.ring.contents ++ buffered (e :: es)
        = (p.ring.contents ++ (e.op.buffers e.ans).toList) ++ buffered es := by
          rw [buffered_cons, List.append_assoc]
      _ = (e.op.takes e.ans).toList ++ (p₁.ring.contents ++ buffered es) := by
          rw [(stepped hstep).ring, List.append_assoc]
      _ = taken (e :: es) ++ p'.ring.contents := by
          rw [ih, taken_cons, List.append_assoc]

/-! ## Publishing -/

/-- What a call does to the queue: it appends its event, or it finds the queue
full and counts a drop. -/
theorem buffer_exec [DecidableEq ι] {ev : PendingEvent ι} {es : List (Event (NatsSig ι))} {p p' : NATSPublisher ι}
    (h : (buffer ev).Ends es ()) (hx : Exec NatsHandler p es p') :
    p.ring.count < ringBufferSize ∧ ⟨.enqueue ev, false⟩ ∉ es ∧
        p'.ring.contents = p.ring.contents ++ [ev] ∧ p'.drops = p.drops ∨
      p.ring.count = ringBufferSize ∧ ⟨.enqueue ev, false⟩ ∈ es ∧ p'.ring = p.ring ∧ p'.drops = p.drops + 1 := by
  rcases buffer_ends h with rfl | rfl
  · obtain ⟨p₁, henqueue, hx⟩ := exec_cons_iff.mp hx
    obtain ⟨p₂, hsignal, hx⟩ := exec_cons_iff.mp hx
    obtain rfl := exec_nil_iff.mp hx
    have hs := stepped henqueue
    have hsame := (stepped hsignal).fifo_eq rfl rfl rfl
    refine .inl ⟨NATSPublisher.enqueue_eq_true henqueue, by simp, ?_, ?_⟩
    · exact (congrArg Fifo.queue hsame).trans hs.ring.symm
    · exact (congrArg Fifo.dropped hsame).trans hs.drops.symm
  · obtain ⟨p₁, henqueue, hx⟩ := exec_cons_iff.mp hx
    obtain ⟨p₂, hdrop, hx⟩ := exec_cons_iff.mp hx
    obtain rfl := exec_nil_iff.mp hx
    obtain ⟨hfull, rfl⟩ := NATSPublisher.enqueue_eq_false henqueue
    obtain rfl : p' = { p₁ with drops := p₁.drops + 1 } := hdrop
    exact .inr ⟨hfull, by simp, rfl, rfl⟩

/-- Calls that run one after the other: the first ones fill the queue, the
others are dropped. -/
theorem buffer_all_exec [DecidableEq ι] {evs : List (PendingEvent ι)} {es : List (Event (NatsSig ι))} {us : List Unit}
    {p p' : NATSPublisher ι} (h : (Prog.all (evs.map buffer)).Ends es us) (hx : Exec NatsHandler p es p') :
    p'.ring.contents = p.ring.contents ++ evs.take (ringBufferSize - p.ring.count) ∧
      p'.drops = p.drops + (evs.length - (ringBufferSize - p.ring.count)) := by
  induction evs generalizing es us p with
  | nil =>
    obtain ⟨rfl, -⟩ := ends_ret.mp h
    obtain rfl := exec_nil_iff.mp hx
    simp
  | cons ev evs ih =>
    rw [List.map_cons, Prog.all, ends_bind] at h
    obtain ⟨_, es₁, es₂, rfl, hev, h⟩ := h
    obtain ⟨us', es₃, es₄, rfl, hevs, h⟩ := ends_bind.mp h
    obtain ⟨rfl, -⟩ := ends_ret.mp h
    rw [List.append_nil] at hx
    obtain ⟨p₁, hx₁, hx₂⟩ := exec_append_iff.mp hx
    obtain ⟨hqueue, hdrops⟩ := ih hevs hx₂
    rw [hqueue, hdrops]
    rcases buffer_exec hev hx₁ with ⟨hroom, -, hq, hd⟩ | ⟨hfull, -, hq, hd⟩
    · have hcount : p₁.ring.count = p.ring.count + 1 := by
        rw [← RingBuffer.length_contents, hq, List.length_append, RingBuffer.length_contents, List.length_singleton]
      obtain ⟨k, hk⟩ : ∃ k, ringBufferSize - p.ring.count = k + 1 := ⟨_, (Nat.succ_pred_eq_of_pos (by omega)).symm⟩
      have hk' : ringBufferSize - p₁.ring.count = k := by omega
      rw [hk', hk, hq, hd, List.take_succ_cons, List.append_assoc, List.singleton_append, List.length_cons]
      exact ⟨rfl, by omega⟩
    · rw [hq, hd, hfull]
      simp
      omega

/-- The buffer is a bounded queue: every step refines one of the queue. After any
sequence of steps from a new publisher its indices are in range and agree with the count,
and the slots from `tail` on hold the events that were buffered and not taken out; those
that were taken out are the first of those that were buffered. A step that takes out an
event takes the oldest and leaves the others; it takes none iff there is none, or no
connection that is up. A call that buffers its event is refused iff `ringBufferSize`
events are buffered, and then the buffer is unchanged and one drop is counted. Without
anything being taken out, the first `ringBufferSize` events are buffered and the others
dropped. -/
theorem ring_buffer_fifo [DecidableEq ι] (conn : Option Conn) :
    Refines NatsHandler Fifo.Step (NATSPublisher.fifo : NATSPublisher ι → _) ∧
    (∀ (es : List (Event (NatsSig ι))) p, Exec NatsHandler (.new conn) es p →
      p.ring.count ≤ ringBufferSize ∧ p.ring.head.val < ringBufferSize ∧ p.ring.tail.val < ringBufferSize ∧
      p.ring.head.val = (p.ring.tail.val + p.ring.count) % ringBufferSize ∧
      taken es <+: buffered es ∧ (buffered es).length = (taken es).length + p.ring.count ∧
      ∀ k < p.ring.count, (buffered es)[(taken es).length + k]? =
        some (p.ring.slots (Fin.ofNat ringBufferSize (p.ring.tail.val + k)))) ∧
    (∀ (p : NATSPublisher ι) (connected : Bool),
      (p.ring.contents = [] ∨ p.conn = none ∨ connected = false → p.dequeue connected = (none, p)) ∧
      ∀ ev queue up, p.ring.contents = ev :: queue → p.conn = some up → connected = true →
        ∃ ring, p.dequeue connected = (some (up, ev), { p with ring := ring }) ∧ ring.contents = queue) ∧
    (∀ (ev : PendingEvent ι) es p p', (buffer ev).Ends es () → Exec NatsHandler p es p' →
      (⟨.enqueue ev, false⟩ ∈ es ↔ p.ring.count = ringBufferSize) ∧
      (p.ring.count = ringBufferSize → p'.ring = p.ring ∧ p'.drops = p.drops + 1) ∧
      (p.ring.count ≠ ringBufferSize → p'.ring.contents = p.ring.contents ++ [ev] ∧ p'.drops = p.drops)) ∧
    ∀ (evs : List (PendingEvent ι)) es us p, (Prog.all (evs.map buffer)).Ends es us →
      Exec NatsHandler (.new conn) es p →
      p.ring.contents = evs.take (min evs.length ringBufferSize) ∧
      p.drops = evs.length - min evs.length ringBufferSize := by
  refine ⟨fifo_refines, fun es p hx => ?_, fun p connected => ⟨NATSPublisher.dequeue_waits, ?_⟩,
    fun ev es p p' hends hx => ?_, fun evs es us p hends hx => ?_⟩
  · have hhistory : buffered es = taken es ++ p.ring.contents := fifo_history hx
    refine ⟨p.ring.count_le, p.ring.head.isLt, p.ring.tail.isLt, ?_, ⟨_, hhistory.symm⟩, ?_, fun k hk => ?_⟩
    · have hhead := congrArg Fin.val p.ring.head_eq
      rw [hhead, Fin.val_add, Fin.val_ofNat, Nat.add_mod_mod]
    · rw [hhistory, List.length_append, RingBuffer.length_contents]
    · have hslot : p.ring.tail + Fin.ofNat ringBufferSize k = Fin.ofNat ringBufferSize (p.ring.tail.val + k) := by
        ext
        simp [Fin.val_add]
      rw [hhistory, List.getElem?_append_right (Nat.le_add_right _ _), Nat.add_sub_cancel_left,
        RingBuffer.getElem?_contents _ hk, hslot]
  · rintro ev queue up hcontents hconn rfl
    obtain ⟨ring, hdequeue, hqueue, -⟩ := NATSPublisher.dequeue_oldest hcontents hconn
    exact ⟨ring, hdequeue, hqueue⟩
  · rcases buffer_exec hends hx with ⟨hroom, hmem, hq, hd⟩ | ⟨hfull, hmem, hq, hd⟩
    · exact ⟨iff_of_false hmem hroom.ne, fun hfull => absurd hfull hroom.ne, fun _ => ⟨hq, hd⟩⟩
    · exact ⟨iff_of_true hmem hfull, fun _ => ⟨hq, hd⟩, fun hne => absurd hfull hne⟩
  · obtain ⟨hq, hd⟩ := buffer_all_exec hends hx
    have hempty : (NATSPublisher.new conn : NATSPublisher ι).ring.count = 0 := rfl
    rw [hempty, Nat.sub_zero] at hq hd
    refine ⟨?_, ?_⟩
    · rw [min_comm, ← List.take_eq_take_min]
      exact hq
    · rw [hd]
      change 0 + _ = _
      omega

namespace Sample

def numbered (k : Nat) : PendingEvent Nat := ⟨[], [], some k⟩

/-- Events are buffered until the buffer is full. -/
theorem numbered_buffered {n : Nat} (hn : n ≤ ringBufferSize) :
    ∃ es p, Exec NatsHandler (.new (some 0)) es p ∧ buffered es = (List.range n).map numbered ∧ taken es = [] ∧
      p.ring.contents = (List.range n).map numbered ∧ p.ring.tail = 0 ∧ p.conn = some 0 := by
  induction n with
  | zero => exact ⟨[], _, .nil _, rfl, rfl, rfl, rfl, rfl⟩
  | succ n ih =>
    obtain ⟨es, p, hx, hbuffered, htaken, hcontents, htail, hconn⟩ := ih (by omega)
    have hcount : p.ring.count = n := by simpa using congrArg List.length hcontents
    obtain ⟨ring, hstep, hnewest, hsame⟩ := NATSPublisher.enqueue_newest (p := p) (numbered n) (by omega)
    have hx' : Exec NatsHandler p [⟨.enqueue (numbered n), true⟩] { p with ring := ring } := .cons hstep (.nil _)
    refine ⟨_, _, exec_append_iff.mpr ⟨p, hx, hx'⟩, ?_, ?_, ?_, hsame.trans htail, hconn⟩
    · rw [buffered_append, hbuffered, List.range_succ, List.map_append]
      rfl
    · rw [taken_append, htaken]
      rfl
    · rw [hnewest, hcontents, List.range_succ, List.map_append, List.map_singleton]

end Sample

/-- The buffer is filled, its oldest event is taken out, and one more is buffered: it is
written to the first slot again. -/
theorem ring_buffer_fifo_sample : ∃ (es : List (Event (NatsSig Nat))) (p : NATSPublisher Nat),
    Exec NatsHandler (.new (some 0)) es p ∧ taken es = [Sample.numbered 0] ∧
    buffered es = (List.range (ringBufferSize + 1)).map Sample.numbered ∧
    p.ring.count = ringBufferSize ∧ p.ring.tail.val = 1 ∧ p.ring.head.val = 1 ∧
    p.ring.slots 0 = Sample.numbered ringBufferSize := by
  obtain ⟨es, p, hx, hbuffered, htaken, hcontents, htail, hconn⟩ := Sample.numbered_buffered le_rfl
  have holdest : p.ring.contents = Sample.numbered 0 :: (List.range 1023).map (Sample.numbered ∘ Nat.succ) := by
    rw [hcontents, ringBufferSize, List.range_succ_eq_map, List.map_cons, List.map_map]
  obtain ⟨ring₁, hdequeue, hqueue, htail₁⟩ := NATSPublisher.dequeue_oldest holdest hconn
  have hcount : ring₁.count = 1023 := by simpa using congrArg List.length hqueue
  obtain ⟨ring₂, henqueue, -, htail₂⟩ := NATSPublisher.enqueue_newest (p := { p with ring := ring₁ })
    (Sample.numbered ringBufferSize) (hcount.trans_lt (by decide))
  let es' : List (Event (NatsSig Nat)) :=
    [⟨.dequeue, some (0, Sample.numbered 0)⟩, ⟨.enqueue (Sample.numbered ringBufferSize), true⟩]
  have hx' : Exec NatsHandler p es' { p with ring := ring₂ } := .cons ⟨true, hdequeue⟩ (.cons henqueue (.nil _))
  have hbuffered' : buffered (es ++ es') = (List.range (ringBufferSize + 1)).map Sample.numbered := by
    have hnew : buffered es' = [Sample.numbered ringBufferSize] := rfl
    rw [buffered_append, hbuffered, hnew, List.range_succ (n := ringBufferSize), List.map_append, List.map_singleton]
  have htaken' : taken (es ++ es') = [Sample.numbered 0] := by
    rw [taken_append, htaken]
    rfl
  have hexec := exec_append_iff.mpr ⟨p, hx, hx'⟩
  obtain ⟨-, -, -, hhead, -, hlength, hslots⟩ := (ring_buffer_fifo (some 0)).2.1 _ _ hexec
  have htail' : ring₂.tail.val = 1 := by
    rw [htail₂, htail₁, htail]
    rfl
  have hfull : ring₂.count = ringBufferSize := by
    rw [hbuffered', htaken', List.length_map, List.length_range, List.length_singleton, add_comm] at hlength
    exact (Nat.add_left_cancel hlength).symm
  dsimp only at hhead hslots
  rw [htail', hfull] at hhead
  have hlast := hslots (ringBufferSize - 1) (hfull.symm ▸ by decide)
  rw [hbuffered', htaken', htail'] at hlast
  refine ⟨_, _, hexec, htaken', hbuffered', hfull, htail', hhead, ?_⟩
  simpa using hlast.symm

end Hanko
