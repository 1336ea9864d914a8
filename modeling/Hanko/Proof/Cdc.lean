import Hanko.Framework.Balance
import Hanko.Impl.Cdc

/-!
# Gaps in the captured changes

A broker dispatches the changes that are streamed to it one by one, in the
order of the log. What it skips it skips when it starts, at the position that
it asks for:

* `keeps_startReplication`: a broker dispatches each change right after
  receiving it;
* `step_cases`: what a step does to the log, the slot and the changes
  dispatched;
* `Streamed`, `Sound`: what holds of a connected broker, and of the changes
  dispatched (`Streamed.broker_step`, `Sound.step`);
* `cdc_without_gaps`: there is no gap in what is dispatched if every broker
  starts at a position before which nothing is missing.
-/

namespace Hanko

open Bytes Interact

/-! ## The brokers -/

namespace CdcOp

/-- The change that is dispatched. -/
def gives : CdcOp → Option Nat
  | .dispatch _ _ change => change
  | _ => none

/-- The change that is received. -/
def takes : (o : CdcOp) → o.Ans → Option Nat
  | .receiveMessage _, .xLogData (.ok xld) => xld.change
  | _, _ => none

end CdcOp

/-- Who asks what. -/
def CdcParty.Asked (g : CdcParty) : CdcOp → Prop
  | .commit _ => ∃ n, g = .client n
  | .advance => ∃ n, g = .wal n
  | .stop => ∃ n, g = .halt n
  | .timeNow => ∃ n, g = .broker n
  | .connect n | .identifySystem n | .createReplicationSlot n | .startReplication n _
  | .sendStandbyStatusUpdate n _ | .receiveMessage n | .dispatch n _ _ | .close n | .ctxDone n => g = .broker n

namespace CDCPublisher

/-- A broker asks its own questions, and dispatches each change right after
receiving it. -/
def Keeps (n : Nat) (held : Option Nat) (p : Prog CdcSig (Option GoError)) : Prop :=
  p.Asks (CdcParty.broker n).Asked ∧ p.Carries CdcOp.gives CdcOp.takes held

theorem Keeps.ask {n : Nat} {o : CdcOp} {k : o.Ans → Prog CdcSig (Option GoError)}
    (ho : (CdcParty.broker n).Asked o) (hk : ∀ a, Keeps n (o.takes a) (k a)) :
    Keeps n o.gives (.ask (S := CdcSig) o k) :=
  ⟨⟨ho, fun a => (hk a).1⟩, rfl, fun a => (hk a).2⟩

theorem keeps_ret (n : Nat) (err : Option GoError) : Keeps n none (.ret err) := ⟨trivial, rfl⟩

theorem keeps_leave (n : Nat) (err : GoError) : Keeps n none (leave n err) :=
  Keeps.ask (o := .close n) rfl fun _ => keeps_ret n _

theorem keeps_receive {n : Nat} {continue_ : LSN → Time → Prog CdcSig (Option GoError)}
    (hk : ∀ pos t, Keeps n none (continue_ pos t)) (clientXLogPos : LSN) (nextStandby : Time) :
    Keeps n none (receive n continue_ clientXLogPos nextStandby) := by
  refine Keeps.ask (o := .receiveMessage n) rfl fun received => ?_
  match received with
  | .timeout => exact hk _ _
  | .error e => exact keeps_leave n _
  | .other => exact hk _ _
  | .keepalive (some true) => exact Keeps.ask (o := .timeNow) ⟨n, rfl⟩ fun _ => hk _ _
  | .keepalive (some false) => exact hk _ _
  | .keepalive none => exact hk _ _
  | .xLogData (.error e) => exact keeps_leave n _
  | .xLogData (.ok xld) => exact Keeps.ask (o := .dispatch n xld.walData xld.change) rfl fun _ => hk _ _

theorem keeps_loop (n rounds : Nat) (clientXLogPos : LSN) (nextStandby : Time) :
    Keeps n none (loop n rounds clientXLogPos nextStandby) := by
  induction rounds generalizing clientXLogPos nextStandby with
  | zero => exact keeps_ret n _
  | succ rounds ih =>
    refine Keeps.ask (o := .ctxDone n) rfl fun done => ?_
    cases done with
    | some e => exact keeps_leave n _
    | none =>
      refine Keeps.ask (o := .timeNow) ⟨n, rfl⟩ fun now => ?_
      change Keeps n none (if now.after nextStandby then _ else _)
      split
      · refine Keeps.ask (o := .sendStandbyStatusUpdate n clientXLogPos) rfl fun err => ?_
        cases err with
        | some e => exact keeps_leave n _
        | none => exact Keeps.ask (o := .timeNow) ⟨n, rfl⟩ fun now => keeps_receive ih _ _
      · exact keeps_receive ih _ _

theorem keeps_startReplication (n rounds : Nat) : Keeps n none (startReplication n rounds) := by
  refine Keeps.ask (o := .connect n) rfl fun err => ?_
  cases err with
  | some e => exact keeps_ret n _
  | none =>
    refine Keeps.ask (o := .identifySystem n) rfl fun sysident => ?_
    cases sysident with
    | error e => exact keeps_leave n _
    | ok xLogPos =>
      refine Keeps.ask (o := .createReplicationSlot n) rfl fun _ => ?_
      refine Keeps.ask (o := .startReplication n xLogPos) rfl fun err => ?_
      cases err with
      | some e => exact keeps_leave n _
      | none => exact Keeps.ask (o := .timeNow) ⟨n, rfl⟩ fun now => keeps_loop n rounds _ _

end CDCPublisher

theorem cdcParties_asks (transactions : Nat → List RowChange) (rounds : Nat) (g : CdcParty) :
    (cdcParties transactions rounds g).Asks g.Asked := by
  cases g with
  | broker n => exact (CDCPublisher.keeps_startReplication n rounds).1
  | client n | wal n | halt n => exact ⟨⟨n, rfl⟩, fun _ => trivial⟩

/-! ## The server -/

namespace ReplicationServer

variable {s s' : ReplicationServer}

/-- A change to the audit table that was committed after the slot was created. -/
def Due (s : ReplicationServer) (k : Nat) : Prop :=
  ∃ c created, s.log[k]? = some c ∧ s.slot.map ReplicationSlot.created = some created ∧
    c.table = cdcAuditTable ∧ created < c.commit

/-- What has been streamed to a broker was dispatched, but for a change that it
has in hand. -/
structure Streamed (s : ReplicationServer) (held : Option Nat) : Prop where
  next_le : s.next.getD 0 ≤ s.log.length
  held_next : ∀ k, held = some k → k + 1 = s.next.getD 0
  done : ∀ k < s.next.getD 0, s.Due k → k ∈ s.dispatched ∨ held = some k

/-- A change that was dispatched is in the log, and so were the earlier ones
that are due. -/
structure Sound (s : ReplicationServer) : Prop where
  commit_le : ∀ c ∈ s.log, c.commit ≤ s.flushed
  lt : ∀ j ∈ s.dispatched, j < s.log.length
  noGap : ∀ j ∈ s.dispatched, ∀ k < j, s.Due k → k ∈ s.dispatched

/-- Nothing is committed, created or dispatched. -/
structure Quiet (s s' : ReplicationServer) : Prop where
  log : s'.log = s.log
  flushed : s.flushed ≤ s'.flushed
  created : s'.slot.map ReplicationSlot.created = s.slot.map ReplicationSlot.created
  dispatched : s'.dispatched = s.dispatched

theorem Quiet.refl (s : ReplicationServer) : Quiet s s := ⟨rfl, le_rfl, rfl, rfl⟩

/-- A message has the next change, or does not matter. -/
theorem sends_cases (n : Nat) {received : Received} (h : s.Sends s' received) :
    (∃ k c, CdcOp.takes (.receiveMessage n) received = some k ∧ s.next = some k ∧ s.log[k]? = some c ∧
      s' = { s with next := some (k + 1) }) ∨
    CdcOp.takes (.receiveMessage n) received = none ∧ s' = s := by
  match received with
  | .xLogData (.ok ⟨_, _, some k⟩) =>
    obtain ⟨hnext, hs', c, hlog, -, -⟩ := h
    exact .inl ⟨k, c, rfl, hnext, hlog, hs'⟩
  | .xLogData (.ok ⟨_, _, none⟩) | .xLogData (.error _) | .timeout | .error _ | .other | .keepalive _ =>
    exact .inr ⟨rfl, h⟩

/-- What a step does to the log, the slot and the changes dispatched. -/
theorem step_cases {o : CdcOp} {a : o.Ans} (h : CdcHandler o s a s') :
    Quiet s s' ∨
    (∃ n, o = .createReplicationSlot n ∧ s' = { s with slot := some ⟨s.flushed, s.flushed⟩ }) ∨
    (∃ changes lsn, o = .commit changes ∧ s.flushed < lsn ∧ s' = s.commit changes lsn) ∨
    ∃ n walData change, o = .dispatch n walData change ∧
      s' = { s with dispatched := s.dispatched ++ change.toList } := by
  cases o with
  | connect n =>
    obtain ⟨-, -, rfl⟩ | ⟨-, rfl⟩ := h
    · exact .inl ⟨rfl, le_rfl, rfl, rfl⟩
    · exact .inl (.refl _)
  | identifySystem n =>
    obtain ⟨-, rfl, -⟩ := h
    exact .inl (.refl _)
  | createReplicationSlot n =>
    obtain ⟨-, ⟨-, -, rfl⟩ | ⟨-, rfl⟩⟩ := h
    · exact .inr (.inl ⟨n, rfl, rfl⟩)
    · exact .inl (.refl _)
  | startReplication n pos =>
    obtain ⟨-, ⟨-, slot, -, rfl⟩ | ⟨-, rfl⟩⟩ := h
    · exact .inl ⟨rfl, le_rfl, rfl, rfl⟩
    · exact .inl (.refl _)
  | sendStandbyStatusUpdate n pos =>
    obtain ⟨-, ⟨-, rfl⟩ | ⟨-, rfl⟩⟩ := h
    · exact .inl ⟨rfl, le_rfl, by cases s.slot <;> rfl, rfl⟩
    · exact .inl (.refl _)
  | receiveMessage n =>
    obtain ⟨-, h⟩ := h
    rcases sends_cases n h with ⟨k, c, -, -, -, rfl⟩ | ⟨-, rfl⟩
    · exact .inl ⟨rfl, le_rfl, rfl, rfl⟩
    · exact .inl (.refl _)
  | dispatch n walData change => exact .inr (.inr (.inr ⟨n, walData, change, rfl, h.2⟩))
  | close n =>
    obtain ⟨-, rfl⟩ := h
    exact .inl ⟨rfl, le_rfl, rfl, rfl⟩
  | ctxDone n =>
    obtain ⟨-, rfl⟩ := h
    exact .inl (.refl _)
  | timeNow =>
    obtain rfl : s' = s := h
    exact .inl (.refl _)
  | commit changes =>
    obtain ⟨lsn, hlsn, rfl⟩ := h
    exact .inr (.inr (.inl ⟨changes, lsn, rfl, hlsn, rfl⟩))
  | advance =>
    obtain ⟨lsn, hlsn, rfl⟩ := h
    exact .inl ⟨rfl, hlsn, rfl, rfl⟩
  | stop =>
    obtain rfl : s' = s.disconnect := h
    exact .inl ⟨rfl, le_rfl, rfl, rfl⟩

theorem Quiet.due_iff (h : Quiet s s') (k : Nat) : s'.Due k ↔ s.Due k := by
  rw [Due, Due, h.log, h.created]

/-- No change is due when the slot is created. -/
theorem not_due_created (hs : s.Sound) {slot : ReplicationSlot} (hslot : slot.created = s.flushed) (k : Nat) :
    ¬ { s with slot := some slot }.Due k := by
  rintro ⟨c, created, hc, hcreated, -, hlt⟩
  obtain rfl : slot.created = created := Option.some.inj hcreated
  exact absurd hlt (hslot ▸ (hs.commit_le c (List.mem_of_getElem? hc)).not_gt)

/-- A commit adds changes at the end only. -/
theorem due_of_commit {changes : List RowChange} {lsn : LSN} {k : Nat} (hk : k < s.log.length)
    (h : (s.commit changes lsn).Due k) : s.Due k := by
  obtain ⟨c, created, hc, hrest⟩ := h
  exact ⟨c, created, (List.getElem?_append_left hk).symm.trans hc, hrest⟩

theorem Sound.step {o : CdcOp} {a : o.Ans} (hs : s.Sound) (h : CdcHandler o s a s')
    (hheld : ∀ k, o.gives = some k → s.Streamed (some k)) : s'.Sound := by
  rcases step_cases h with hq | ⟨n, rfl, rfl⟩ | ⟨changes, lsn, rfl, hlsn, rfl⟩ | ⟨n, walData, change, rfl, rfl⟩
  · refine ⟨?_, ?_, ?_⟩
    · rw [hq.log]
      exact fun c hc => (hs.commit_le c hc).trans hq.flushed
    · rw [hq.log, hq.dispatched]
      exact hs.lt
    · simp only [hq.dispatched, hq.due_iff]
      exact hs.noGap
  · exact ⟨hs.commit_le, hs.lt, fun _ _ k _ hk => absurd hk (not_due_created hs rfl k)⟩
  · refine ⟨?_, fun j hj => ?_, fun j hj k hk hdue => hs.noGap j hj k hk (due_of_commit (hk.trans (hs.lt j hj)) hdue)⟩
    · intro c hc
      rcases List.mem_append.mp hc with hc | hc
      · exact (hs.commit_le c hc).trans hlsn.le
      · obtain ⟨_, -, rfl⟩ := List.mem_map.mp hc
        exact le_rfl
    · exact (hs.lt j hj).trans_le (by simp [commit])
  · cases change with
    | none => simpa using hs
    | some k =>
      have hst := hheld k rfl
      have hnext := hst.held_next k rfl
      have hmem : ∀ j, j ∈ s.dispatched ++ (some k).toList ↔ j ∈ s.dispatched ∨ j = k := by simp
      refine ⟨hs.commit_le, fun j hj => ?_, fun j hj i hi hdue => (hmem i).mpr ?_⟩
      · rcases (hmem j).mp hj with hj | rfl
        · exact hs.lt j hj
        · have hle := hst.next_le
          change j < s.log.length
          omega
      · rcases (hmem j).mp hj with hj | rfl
        · exact .inl (hs.noGap j hj i hi hdue)
        · rcases hst.done i (by omega) hdue with hdone | heq
          · exact .inl hdone
          · exact .inr (Option.some.inj heq).symm

/-- When replication starts, every change that is due and will not be streamed
has been dispatched. -/
def Careful : (o : CdcOp) → ReplicationServer → o.Ans → Prop
  | .startReplication _ pos, s, none => ∀ slot k c, s.slot = some slot → s.log[k]? = some c → s.Due k →
    c.commit ≤ max pos slot.confirmed → k ∈ s.dispatched
  | _, _, _ => True

theorem commit_le_of_lt_after {pos : LSN} {k : Nat} (h : k < s.after pos) :
    ∃ c, s.log[k]? = some c ∧ c.commit ≤ pos := by
  have hprefix : s.log.takeWhile (fun c => c.commit ≤ pos) <+: s.log := List.takeWhile_prefix _
  have hcommit := List.mem_takeWhile_imp (List.getElem_mem h)
  refine ⟨_, List.getElem?_eq_getElem (h.trans_le hprefix.length_le), ?_⟩
  rw [← hprefix.getElem h]
  exact of_decide_eq_true hcommit

theorem Streamed.quiet {held : Option Nat} (hst : s.Streamed held) (hq : Quiet s s') (hnext : s'.next = s.next) :
    s'.Streamed held := by
  refine ⟨?_, ?_, ?_⟩
  · rw [hnext, hq.log]
    exact hst.next_le
  · rw [hnext]
    exact hst.held_next
  · simp only [hnext, hq.due_iff, hq.dispatched]
    exact hst.done

/-- The broker that is connected after a question of a broker is that one, or
nothing happened. -/
theorem session_of_step {n m : Nat} {o : CdcOp} {a : o.Ans} (ho : (CdcParty.broker n).Asked o)
    (h : CdcHandler o s a s') (hsession : s'.session = some m) : m = n ∨ s' = s := by
  have hsame : ∀ l, CdcParty.broker n = .broker l → s.session = some l → s'.session = s.session → m = n := by
    rintro l ⟨⟩ hl heq
    exact Option.some.inj (hsession.symm.trans (heq.trans hl))
  cases o with
  | connect l =>
    obtain rfl : n = l := CdcParty.broker.inj ho
    obtain ⟨-, -, rfl⟩ | ⟨-, rfl⟩ := h
    · exact .inl (Option.some.inj hsession).symm
    · exact .inr rfl
  | identifySystem l =>
    obtain ⟨-, rfl, -⟩ := h
    exact .inr rfl
  | createReplicationSlot l =>
    obtain ⟨hl, ⟨-, -, rfl⟩ | ⟨-, rfl⟩⟩ := h <;> exact .inl (hsame l ho hl rfl)
  | startReplication l pos =>
    obtain ⟨hl, ⟨-, slot, -, rfl⟩ | ⟨-, rfl⟩⟩ := h <;> exact .inl (hsame l ho hl rfl)
  | sendStandbyStatusUpdate l pos =>
    obtain ⟨hl, ⟨-, rfl⟩ | ⟨-, rfl⟩⟩ := h <;> exact .inl (hsame l ho hl rfl)
  | receiveMessage l =>
    obtain ⟨hl, h⟩ := h
    rcases sends_cases l h with ⟨k, c, -, -, -, rfl⟩ | ⟨-, rfl⟩
    · exact .inl (hsame l ho hl rfl)
    · exact .inr rfl
  | dispatch l walData change =>
    obtain ⟨hl, rfl⟩ := h
    exact .inl (hsame l ho hl rfl)
  | close l =>
    obtain ⟨-, rfl⟩ := h
    cases hsession
  | ctxDone l =>
    obtain ⟨-, rfl⟩ := h
    exact .inr rfl
  | timeNow => exact .inr h
  | commit | advance | stop =>
    obtain ⟨l, hl⟩ := ho
    cases hl

theorem Streamed.broker_step {n : Nat} {o : CdcOp} {a : o.Ans} (ho : (CdcParty.broker n).Asked o)
    (h : CdcHandler o s a s') (hc : Careful o s a) (hs : s.Sound) (hst : s.session = some n → s.Streamed o.gives)
    (hsession : s'.session = some n) : s'.Streamed (o.takes a) := by
  cases o with
  | connect m =>
    obtain ⟨-, -, rfl⟩ | ⟨-, rfl⟩ := h
    · exact ⟨Nat.zero_le _, nofun, fun _ h => absurd h (Nat.not_lt_zero _)⟩
    · exact hst hsession
  | identifySystem m =>
    obtain ⟨-, rfl, -⟩ := h
    exact hst hsession
  | createReplicationSlot m =>
    obtain ⟨-, ⟨-, -, rfl⟩ | ⟨-, rfl⟩⟩ := h
    · have hst := hst hsession
      exact ⟨hst.next_le, hst.held_next, fun k _ hk => absurd hk (not_due_created hs rfl k)⟩
    · exact hst hsession
  | startReplication m pos =>
    obtain ⟨-, ⟨rfl, slot, hslot, rfl⟩ | ⟨-, rfl⟩⟩ := h
    · refine ⟨(List.takeWhile_prefix _).length_le, nofun, fun k hk hdue => .inl ?_⟩
      obtain ⟨c, hlog, hle⟩ := commit_le_of_lt_after hk
      exact hc slot k c hslot hlog hdue hle
    · exact hst hsession
  | sendStandbyStatusUpdate m pos =>
    have hq : Quiet s s' := by
      rcases step_cases h with hq | ⟨_, ⟨⟩, _⟩ | ⟨_, _, ⟨⟩, _⟩ | ⟨_, _, _, ⟨⟩, _⟩
      exact hq
    obtain ⟨hm, ⟨-, rfl⟩ | ⟨-, rfl⟩⟩ := h
    · exact (hst hsession).quiet hq rfl
    · exact hst hsession
  | receiveMessage m =>
    obtain ⟨-, h⟩ := h
    rcases sends_cases m h with ⟨k, c, htakes, hnext, hlog, rfl⟩ | ⟨htakes, rfl⟩
    · have hst := hst hsession
      rw [htakes]
      refine ⟨(List.getElem?_eq_some_iff.mp hlog).1, fun j hj => by obtain rfl := Option.some.inj hj; rfl, ?_⟩
      intro j hj hdue
      rcases Nat.lt_succ_iff_lt_or_eq.mp hj with hlt | rfl
      · rcases hst.done j (by rw [hnext]; exact hlt) hdue with hdone | hheld
        · exact .inl hdone
        · cases hheld
      · exact .inr rfl
    · rw [htakes]
      exact hst hsession
  | dispatch m walData change =>
    obtain ⟨-, rfl⟩ := h
    have hst := hst hsession
    refine ⟨hst.next_le, nofun, fun k hk hdue => .inl (List.mem_append.mpr ?_)⟩
    rcases hst.done k hk hdue with hdone | hheld
    · exact .inl hdone
    · obtain rfl : change = some k := hheld
      exact .inr List.mem_cons_self
  | close m =>
    obtain ⟨-, rfl⟩ := h
    cases hsession
  | ctxDone m =>
    obtain ⟨-, rfl⟩ := h
    exact hst hsession
  | timeNow =>
    obtain rfl : s' = s := h
    exact hst hsession
  | commit | advance | stop =>
    obtain ⟨m, hm⟩ := ho
    cases hm

/-- What clients and the log do does not concern what was streamed. -/
theorem Streamed.other_step {g : CdcParty} {o : CdcOp} {a : o.Ans} {held : Option Nat} {n : Nat}
    (hg : ∀ m, g ≠ .broker m) (ho : g.Asked o) (h : CdcHandler o s a s') (hst : s.session = some n → s.Streamed held)
    (hsession : s'.session = some n) : s'.Streamed held := by
  cases o with
  | commit changes =>
    obtain ⟨lsn, -, rfl⟩ := h
    have hst := hst hsession
    refine ⟨hst.next_le.trans (by simp [commit]), hst.held_next, fun k hk hdue => hst.done k hk ?_⟩
    exact due_of_commit (hk.trans_le hst.next_le) hdue
  | advance =>
    obtain ⟨lsn, hlsn, rfl⟩ := h
    exact (hst hsession).quiet ⟨rfl, hlsn, rfl, rfl⟩ rfl
  | stop =>
    obtain rfl : s' = s.disconnect := h
    cases hsession
  | timeNow =>
    obtain ⟨m, hm⟩ := ho
    exact absurd hm (hg m)
  | connect m | identifySystem m | createReplicationSlot m | startReplication m | sendStandbyStatusUpdate m
  | receiveMessage m | dispatch m | close m | ctxDone m => exact absurd ho (hg m)

end ReplicationServer

/-! ## Runs -/

/-- Brokers that start replication carefully. -/
def CarefulHandler : Handler CdcSig ReplicationServer :=
  fun o s a s' => CdcHandler o s a s' ∧ ReplicationServer.Careful o s a

structure CdcInv (ps : CdcParty → Prog CdcSig (Option GoError)) (s : ReplicationServer) : Prop where
  asks : ∀ g, (ps g).Asks g.Asked
  carries : ∀ n, ∃ held, (ps (.broker n)).Carries CdcOp.gives CdcOp.takes held ∧
    (s.session = some n → s.Streamed held)
  sound : s.Sound

theorem CdcInv.step {ps : CdcParty → Prog CdcSig (Option GoError)} {s s' : ReplicationServer} {g : CdcParty} {o : CdcOp}
    {k : o.Ans → Prog CdcSig (Option GoError)} {a : o.Ans} (hg : ps g = .ask (S := CdcSig) o k)
    (h : CarefulHandler o s a s') (hinv : CdcInv ps s) : CdcInv (Function.update ps g (k a)) s' := by
  obtain ⟨hstep, hcareful⟩ := h
  have hasks := hinv.asks g
  rw [hg] at hasks
  -- a broker has in hand what it is about to dispatch
  have hheld : ∀ n, g = .broker n → (∀ a, (k a).Carries CdcOp.gives CdcOp.takes (o.takes a)) ∧
      (s.session = some n → s.Streamed o.gives) := by
    rintro n rfl
    obtain ⟨held, hcarries, hst⟩ := hinv.carries n
    rw [hg] at hcarries
    obtain ⟨rfl, hk⟩ := hcarries
    exact ⟨hk, hst⟩
  refine ⟨fun g' => ?_, fun n => ?_, hinv.sound.step hstep fun j hj => ?_⟩
  · by_cases hgg : g' = g
    · subst hgg
      rw [Function.update_self]
      exact hasks.2 a
    · rw [Function.update_of_ne hgg]
      exact hinv.asks g'
  · by_cases hgn : g = .broker n
    · subst hgn
      rw [Function.update_self]
      exact ⟨o.takes a, (hheld n rfl).1 a,
        ReplicationServer.Streamed.broker_step hasks.1 hstep hcareful hinv.sound (hheld n rfl).2⟩
    · rw [Function.update_of_ne (Ne.symm hgn)]
      obtain ⟨held, hcarries, hst⟩ := hinv.carries n
      refine ⟨held, hcarries, fun hsession => ?_⟩
      cases g with
      | broker m =>
        rcases ReplicationServer.session_of_step hasks.1 hstep hsession with rfl | rfl
        · exact absurd rfl hgn
        · exact hst hsession
      | client m | wal m | halt m =>
        exact ReplicationServer.Streamed.other_step (by simp) hasks.1 hstep hst hsession
  · cases o with
    | dispatch n walData change =>
      obtain rfl : g = .broker n := hasks.1
      obtain rfl : change = some j := hj
      exact (hheld n rfl).2 hstep.1
    | _ => cases hj

theorem CdcInv.initial (transactions : Nat → List RowChange) (rounds : Nat) (flushed : LSN) :
    CdcInv (cdcParties transactions rounds) (.new flushed) where
  asks := cdcParties_asks transactions rounds
  carries n := ⟨none, (CDCPublisher.keeps_startReplication n rounds).2, nofun⟩
  sound := ⟨fun _ h => absurd h List.not_mem_nil, fun _ h => absurd h List.not_mem_nil,
    fun _ h => absurd h List.not_mem_nil⟩

/-- If every broker starts where nothing is left out that was not dispatched,
then with a change every earlier one that is due has been dispatched. -/
theorem cdc_without_gaps (transactions : Nat → List RowChange) (rounds : Nat) (flushed : LSN)
    {tr : List (CdcParty × Event CdcSig)} {ps' : CdcParty → Prog CdcSig (Option GoError)} {s' : ReplicationServer}
    (h : Run CarefulHandler (cdcParties transactions rounds) (.new flushed) tr ps' s') {j k : Nat}
    (hj : j ∈ s'.dispatched) (hkj : k < j) (hk : s'.Due k) : k ∈ s'.dispatched :=
  (h.invariant (I := CdcInv) (fun _ _ _ _ _ _ _ hg hstep hinv => hinv.step hg hstep)
    (.initial transactions rounds flushed)).sound.noGap j hj k hkj hk

namespace Sample

def auditChange : RowChange := ⟨cdcAuditTable, 0, [73]⟩

/-- The questions of a broker up to the loop, the log ending at `pos`. -/
def brokerStarts (n : Nat) (pos : LSN) (slotError : Option GoError) : List (CdcParty × Event CdcSig) :=
  [(.broker n, ⟨.connect n, none⟩), (.broker n, ⟨.identifySystem n, .ok pos⟩),
    (.broker n, ⟨.createReplicationSlot n, slotError⟩), (.broker n, ⟨.startReplication n pos, none⟩),
    (.broker n, ⟨.timeNow, ⟨0, 0, 0⟩⟩)]

/-- A round in which a change is received and dispatched. -/
def brokerDispatches (n k : Nat) : List (CdcParty × Event CdcSig) :=
  [(.broker n, ⟨.ctxDone n, none⟩), (.broker n, ⟨.timeNow, ⟨0, 0, 0⟩⟩),
    (.broker n, ⟨.receiveMessage n, .xLogData (.ok ⟨auditChange.walStart, auditChange.walData, some k⟩)⟩),
    (.broker n, ⟨.dispatch n auditChange.walData (some k), ()⟩)]

def slotExists : GoError := .text (lit "replication slot already exists")

/-- A broker dispatches a change before it is stopped and another is started. -/
def carefulTrace : List (CdcParty × Event CdcSig) :=
  brokerStarts 0 0 none ++ [(.client 0, ⟨.commit [auditChange], ()⟩)] ++ brokerDispatches 0 0 ++
    [(.halt 0, ⟨.stop, ()⟩)] ++ brokerStarts 1 1 (some slotExists) ++
    [(.client 1, ⟨.commit [auditChange], ()⟩)] ++ brokerDispatches 1 1

/-- A broker is stopped, a change is committed, and a broker is started again. -/
def gapTrace : List (CdcParty × Event CdcSig) :=
  brokerStarts 0 0 none ++ [(.halt 0, ⟨.stop, ()⟩), (.client 0, ⟨.commit [auditChange], ()⟩)] ++
    brokerStarts 1 1 (some slotExists) ++ [(.client 1, ⟨.commit [auditChange], ()⟩)] ++ brokerDispatches 1 1

end Sample

/-- Two brokers that dispatch a change each. -/
theorem cdc_without_gaps_sample :
    ∃ ps' s', Run CarefulHandler (cdcParties (fun _ => [Sample.auditChange]) 1) (.new 0) Sample.carefulTrace ps' s' ∧
      1 ∈ s'.dispatched ∧ s'.Due 0 ∧ 0 ∈ s'.dispatched := by
  have hrun : ∃ ps' s', Run CarefulHandler (cdcParties (fun _ => [Sample.auditChange]) 1) (.new 0)
      Sample.carefulTrace ps' s' ∧ 1 ∈ s'.dispatched ∧ s'.Due 0 := by
    refine ⟨_, _, .cons rfl ⟨.inl ⟨rfl, rfl, rfl⟩, trivial⟩ <|
      .cons rfl ⟨⟨rfl, rfl, fun _ h => (Except.ok.inj h).symm⟩, trivial⟩ <|
      .cons rfl ⟨⟨rfl, .inl ⟨rfl, rfl, rfl⟩⟩, trivial⟩ <| .cons rfl ⟨⟨rfl, .inl ⟨rfl, _, rfl, rfl⟩⟩, ?_⟩ <|
      .cons rfl ⟨rfl, trivial⟩ <| .cons rfl ⟨⟨1, by decide, rfl⟩, trivial⟩ <|
      .cons rfl ⟨⟨rfl, rfl⟩, trivial⟩ <| .cons rfl ⟨rfl, trivial⟩ <|
      .cons rfl ⟨⟨rfl, rfl, rfl, _, rfl, rfl, rfl⟩, trivial⟩ <| .cons rfl ⟨⟨rfl, rfl⟩, trivial⟩ <|
      .cons rfl ⟨rfl, trivial⟩ <| .cons rfl ⟨.inl ⟨rfl, rfl, rfl⟩, trivial⟩ <|
      .cons rfl ⟨⟨rfl, rfl, fun _ h => (Except.ok.inj h).symm⟩, trivial⟩ <|
      .cons rfl ⟨⟨rfl, .inr ⟨nofun, rfl⟩⟩, trivial⟩ <| .cons rfl ⟨⟨rfl, .inl ⟨rfl, _, rfl, rfl⟩⟩, ?_⟩ <|
      .cons rfl ⟨rfl, trivial⟩ <| .cons rfl ⟨⟨2, by decide, rfl⟩, trivial⟩ <|
      .cons rfl ⟨⟨rfl, rfl⟩, trivial⟩ <| .cons rfl ⟨rfl, trivial⟩ <|
      .cons rfl ⟨⟨rfl, rfl, rfl, _, rfl, rfl, rfl⟩, trivial⟩ <| .cons rfl ⟨⟨rfl, rfl⟩, trivial⟩ <| .nil _ _, ?_, ?_⟩
    · rintro slot k c - hlog - -
      cases hlog
    · -- the only change so far is the one that was dispatched
      rintro slot k c - hlog - -
      obtain ⟨hlt, -⟩ := List.getElem?_eq_some_iff.mp hlog
      obtain rfl : k = 0 := Nat.lt_one_iff.mp hlt
      exact List.mem_singleton.mpr rfl
    · exact List.mem_cons_of_mem _ (List.mem_singleton.mpr rfl)
    · exact ⟨_, _, rfl, rfl, rfl, by decide⟩
  obtain ⟨ps', s', hrun, hone, hdue⟩ := hrun
  exact ⟨ps', s', hrun, hone, hdue, cdc_without_gaps _ 1 0 hrun hone Nat.one_pos hdue⟩

/-- The change that was committed while no broker ran is never dispatched. -/
theorem change_skipped :
    ∃ ps' s', Run CdcHandler (cdcParties (fun _ => [Sample.auditChange]) 1) (.new 0) Sample.gapTrace ps' s' ∧
      1 ∈ s'.dispatched ∧ s'.Due 0 ∧ 0 ∉ s'.dispatched := by
  refine ⟨_, _, .cons rfl (.inl ⟨rfl, rfl, rfl⟩) <| .cons rfl ⟨rfl, rfl, fun _ h => (Except.ok.inj h).symm⟩ <|
    .cons rfl ⟨rfl, .inl ⟨rfl, rfl, rfl⟩⟩ <| .cons rfl ⟨rfl, .inl ⟨rfl, _, rfl, rfl⟩⟩ <| .cons rfl rfl <|
    .cons rfl rfl <| .cons rfl ⟨1, by decide, rfl⟩ <|
    .cons rfl (.inl ⟨rfl, rfl, rfl⟩) <| .cons rfl ⟨rfl, rfl, fun _ h => (Except.ok.inj h).symm⟩ <|
    .cons rfl ⟨rfl, .inr ⟨nofun, rfl⟩⟩ <| .cons rfl ⟨rfl, .inl ⟨rfl, _, rfl, rfl⟩⟩ <| .cons rfl rfl <|
    .cons rfl ⟨2, by decide, rfl⟩ <|
    .cons rfl ⟨rfl, rfl⟩ <| .cons rfl rfl <| .cons rfl ⟨rfl, rfl, rfl, _, rfl, rfl, rfl⟩ <|
    .cons rfl ⟨rfl, rfl⟩ <| .nil _ _, ?_, ?_, ?_⟩
  · exact List.mem_singleton.mpr rfl
  · exact ⟨_, _, rfl, rfl, rfl, by decide⟩
  · exact fun h => absurd (List.mem_singleton.mp h) (by decide)

end Hanko
