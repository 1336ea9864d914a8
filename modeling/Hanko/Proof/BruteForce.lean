import Hanko.Framework.History
import Hanko.Framework.Separators
import Hanko.Impl.BruteForce
import Hanko.Proof.Time

/-!
# The brute-force detector

What counts at a call is a function of the calls before it (`window`): the
failures of the client from the cutoff on. As long as the times of the calls do
not decrease, this is what the detector keeps (`run_failures`), and a call
publishes an event if and only if there are enough failures and no earlier call
had its key (`run_events`).

* `brute_force_window_exact`: the failures that are kept are those of the last
  `windowSec` seconds, and when there are enough of them an event was published
  less than twice that ago.
* `brute_force_dedup_iff`: two events of one client can be closer than a
  window, when the oldest failure that counts gets into the next bucket.
-/

namespace Hanko.BruteForceDetector

open Bytes History

/-! ## Pruning -/

/-- After `n` turns of the loop, `fresh` has what is kept of the first `n`
times, and the others are still in the array. -/
theorem foldl_pruneAt (cutoff : Time) (old : List Time) {n : Nat} (hn : n ≤ old.length) :
    let s := (List.range n).foldl (pruneAt cutoff) (old, 0)
    s.2 ≤ n ∧ s.1.length = old.length ∧ s.1.drop n = old.drop n ∧
      s.1.take s.2 = (old.take n).filter fun t => !t.before cutoff := by
  induction n with
  | zero => simp
  | succ n ih =>
    obtain ⟨hle, hlen, hdrop, htake⟩ := ih (by omega)
    rw [List.range_succ, List.foldl_append, List.foldl_cons, List.foldl_nil]
    generalize (List.range n).foldl (pruneAt cutoff) (old, 0) = s at *
    have hget : s.1[n]? = some old[n] := by
      rw [← List.head?_drop, hdrop, List.head?_drop, List.getElem?_eq_getElem]
    have hdrop' : s.1.drop (n + 1) = old.drop (n + 1) := by
      rw [← List.drop_drop, ← List.drop_drop, hdrop]
    rw [pruneAt, hget, ← List.take_append_getElem hn, List.filter_append]
    dsimp only
    cases hbefore : old[n].before cutoff with
    | true =>
      rw [if_pos rfl]
      refine ⟨by omega, hlen, hdrop', ?_⟩
      rw [htake, List.filter_singleton, hbefore]
      exact (List.append_nil _).symm
    | false =>
      rw [if_neg Bool.false_ne_true]
      refine ⟨by simpa using hle, by rw [List.length_set, hlen], ?_, ?_⟩
      · rw [List.drop_set_of_lt (by omega), hdrop']
      · -- the place that is written is before the one just read, or is that one
        rw [List.take_add_one, List.take_set_of_le le_rfl, List.getElem?_set_self (by omega), htake,
          List.filter_singleton, hbefore]
        rfl

theorem prune_eq_filter (cutoff : Time) (old : List Time) :
    prune cutoff old = old.filter fun t => !t.before cutoff := by
  have h := (foldl_pruneAt cutoff old le_rfl).2.2.2
  rwa [List.take_length] at h

/-- The times from `b` on. -/
def since (b : Int) (ts : List Time) : List Time := ts.filter fun t => b ≤ t.nanos

@[simp]
theorem since_nil (b : Int) : since b [] = [] := rfl

theorem since_append (b : Int) (ts us : List Time) : since b (ts ++ us) = since b ts ++ since b us :=
  List.filter_append ..

theorem since_since {a b : Int} (h : a ≤ b) (ts : List Time) : since b (since a ts) = since b ts := by
  rw [since, since, List.filter_filter]
  refine List.filter_congr fun t _ => ?_
  rw [← Bool.decide_and, decide_eq_decide]
  omega

theorem prune_eq_since (t : Time) (δ : Duration) (old : List Time) :
    prune (t.add δ) old = since (t.nanos + δ) old := by
  rw [prune_eq_filter, since]
  refine List.filter_congr fun u _ => ?_
  rw [Time.before, Time.nanos_add, ← decide_not, decide_eq_decide, not_lt]

/-! ## Keys -/

theorem separator_notMem_appendInt (n : Int) : 124 ∉ Time.appendInt n 0 := by
  rw [Time.appendInt_zero, List.mem_append, not_or]
  refine ⟨by split <;> simp, fun h => ?_⟩
  have hle := (Time.mem_decimalDigits h).2
  simp at hle

/-- The key of a client and a bucket, whatever the id of the client, is no
other's: the number has no `|`. -/
theorem bucketKey_inj {c c' : Bytes} {n n' : Int} (h : bucketKey c n = bucketKey c' n') : c = c' ∧ n = n' := by
  obtain ⟨hc, hn⟩ := Separators.append_cons_inj (separator_notMem_appendInt n) (separator_notMem_appendInt n') h
  exact ⟨hc, Time.appendInt_injective hn⟩

/-! ## One call -/

/-- What is added to the time of a call to get the cutoff. -/
def lookback (d : BruteForceDetector) : Duration := wrap64 (-d.windowSec * second)

/-- What is kept of a client at a call. -/
def fresh (d : BruteForceDetector) (clientID : Bytes) (time : Time) : List Time :=
  since (time.nanos + d.lookback) (d.failures clientID) ++ [time]

/-- The bucket of the oldest time of a window. -/
def bucket (d : BruteForceDetector) (window : List Time) (time : Time) : Int :=
  (window.headD time).sec.tdiv d.windowSec

/-- The key of an event for a window, if it is long enough for one. -/
def key (d : BruteForceDetector) (clientID : Bytes) (window : List Time) (time : Time) : Option Bytes :=
  if d.threshold ≤ window.length then some (bucketKey clientID (d.bucket window time)) else none

theorem key_eq_some {d : BruteForceDetector} {c k : Bytes} {w : List Time} {t : Time} :
    d.key c w t = some k ↔ d.threshold ≤ w.length ∧ bucketKey c (d.bucket w t) = k := by
  rw [key, Option.ite_none_right_eq_some, Option.some.injEq]

/-- What no call changes. -/
def settings (d : BruteForceDetector) : Bytes × Int × Int := (d.workspaceID, d.threshold, d.windowSec)

theorem lookback_congr {d d' : BruteForceDetector} (h : d.settings = d'.settings) : d.lookback = d'.lookback := by
  simp only [settings, Prod.mk.injEq] at h
  rw [lookback, lookback, h.2.2]

theorem key_congr {d d' : BruteForceDetector} (h : d.settings = d'.settings) (c : Bytes) (w : List Time) (t : Time) :
    d.key c w t = d'.key c w t := by
  simp only [settings, Prod.mk.injEq] at h
  rw [key, key, bucket, bucket, h.2.1, h.2.2]

theorem recordFailureAt_eq (d : BruteForceDetector) (c : Bytes) (t : Time) (corrID : Bytes) :
    d.recordFailureAt c t corrID =
      let d' := { d with failures := Function.update d.failures c (d.fresh c t) }
      match d.key c (d.fresh c t) t with
      | none => (d', none)
      | some k =>
        if d.alerted k then (d', none)
        else ({ d' with alerted := Function.update d.alerted k true },
          some (securitySubject d.workspaceID "brute_force_detected" corrID,
            ⟨t.utc.formatMillis, corrID, d.workspaceID, c, (d.fresh c t).length, d.windowSec,
              (d.fresh c t).headD t, t⟩)) := by
  have hfresh : prune (t.add (wrap64 (-d.windowSec * second))) (d.failures c) ++ [t] = d.fresh c t := by
    rw [prune_eq_since]
    rfl
  simp only [recordFailureAt, hfresh, key, bucket]
  by_cases h : d.threshold ≤ (d.fresh c t).length
  · simp only [h, not_lt.mpr h, if_true, if_false]
  · simp only [h, not_le.mp h, if_true, if_false]

theorem recordFailureAt_settings (d : BruteForceDetector) (c : Bytes) (t : Time) (corrID : Bytes) :
    (d.recordFailureAt c t corrID).1.settings = d.settings := by
  rw [recordFailureAt_eq]
  dsimp only
  split
  · rfl
  · split <;> rfl

theorem recordFailureAt_failures (d : BruteForceDetector) (c : Bytes) (t : Time) (corrID : Bytes) :
    (d.recordFailureAt c t corrID).1.failures = Function.update d.failures c (d.fresh c t) := by
  rw [recordFailureAt_eq]
  dsimp only
  split
  · rfl
  · split <;> rfl

theorem recordFailureAt_alerted {d : BruteForceDetector} {c k : Bytes} {t : Time} {corrID : Bytes} :
    (d.recordFailureAt c t corrID).1.alerted k = true ↔
      d.alerted k = true ∨ d.key c (d.fresh c t) t = some k := by
  rw [recordFailureAt_eq]
  dsimp only
  split
  next hkey => simp [hkey]
  next k' hkey =>
    split
    next halerted =>
      simp only [hkey, Option.some.injEq]
      exact ⟨.inl, fun h => h.elim id (· ▸ halerted)⟩
    next =>
      by_cases hk : k = k'
      · simp [hk, hkey]
      · simp [hk, hkey, Ne.symm hk]

/-- An event is published if and only if there is a key that none was published
for. -/
theorem recordFailureAt_isSome {d : BruteForceDetector} {c : Bytes} {t : Time} {corrID : Bytes} :
    (d.recordFailureAt c t corrID).2.isSome ↔ ∃ k, d.key c (d.fresh c t) t = some k ∧ ¬ d.alerted k = true := by
  rw [recordFailureAt_eq]
  dsimp only
  split
  next hkey => simp [hkey]
  next k' hkey =>
    split
    next halerted => simp [hkey, halerted]
    next halerted => simp [hkey, halerted]

theorem recordFailureAt_event {d : BruteForceDetector} {c : Bytes} {t : Time} {corrID : Bytes}
    {ev : NATSSubject × BruteForceEvent} (h : (d.recordFailureAt c t corrID).2 = some ev) :
    ev.1 = securitySubject d.workspaceID "brute_force_detected" corrID ∧ ev.2.clientID = c := by
  rw [recordFailureAt_eq] at h
  dsimp only at h
  split at h
  · cases h
  · split at h
    · cases h
    · cases h
      exact ⟨rfl, rfl⟩

/-! ## Histories -/

/-- The times of the failures of a client. -/
def timesOf (c : Bytes) (calls : List FailureCall) : List Time :=
  (calls.filter fun x => x.clientID = c).map fun x => x.time

theorem timesOf_concat (c : Bytes) (calls : List FailureCall) (x : FailureCall) :
    timesOf c (calls ++ [x]) = timesOf c calls ++ if x.clientID = c then [x.time] else [] := by
  rw [timesOf, List.filter_append, List.map_append, List.filter_singleton]
  by_cases h : x.clientID = c <;> simp [h, timesOf]

theorem mem_timesOf {c : Bytes} {calls : List FailureCall} {t : Time} :
    t ∈ timesOf c calls ↔ ∃ x ∈ calls, x.clientID = c ∧ x.time = t := by
  simp [timesOf, and_assoc]

/-- The times of the calls do not decrease. -/
def InOrder (calls : List FailureCall) : Prop := calls.Pairwise fun x y => x.time.nanos ≤ y.time.nanos

instance decidableInOrder (calls : List FailureCall) : Decidable (InOrder calls) :=
  inferInstanceAs (Decidable (List.Pairwise _ _))

/-- The detector has recorded nothing. -/
structure New (d : BruteForceDetector) : Prop where
  failures : ∀ c, d.failures c = []
  alerted : ∀ k, ¬ d.alerted k = true

/-- The failures of the client of the call `x` that count at `x`. -/
def window (d : BruteForceDetector) (before : List FailureCall) (x : FailureCall) : List Time :=
  since (x.time.nanos + d.lookback) (timesOf x.clientID before) ++ [x.time]

/-- The key of an event at the call `x`, if there are enough failures for one. -/
def keyAt (d : BruteForceDetector) (before : List FailureCall) (x : FailureCall) : Option Bytes :=
  d.key x.clientID (d.window before x) x.time

theorem run_concat (d : BruteForceDetector) (calls : List FailureCall) (x : FailureCall) :
    d.run (calls ++ [x]) = record (d.run calls) x := by
  rw [run, List.foldl_append]
  rfl

theorem run_settings (d : BruteForceDetector) (calls : List FailureCall) :
    (d.run calls).1.settings = d.settings := by
  induction calls using List.reverseRecOn with
  | nil => rfl
  | append_singleton calls x ih =>
    rw [run_concat, record, ← ih]
    exact recordFailureAt_settings ..

theorem lookback_run (d : BruteForceDetector) (calls : List FailureCall) :
    (d.run calls).1.lookback = d.lookback :=
  lookback_congr (d.run_settings calls)

theorem key_run (d : BruteForceDetector) (calls : List FailureCall) (c : Bytes) (w : List Time) (t : Time) :
    (d.run calls).1.key c w t = d.key c w t :=
  key_congr (d.run_settings calls) c w t

/-- From the last cutoff on, no failure has been dropped. -/
theorem since_run {d : BruteForceDetector} (hd : d.New) {calls : List FailureCall} {c : Bytes} {b : Int}
    (hb : ∀ y ∈ calls, y.clientID = c → y.time.nanos + d.lookback ≤ b) :
    since b ((d.run calls).1.failures c) = since b (timesOf c calls) := by
  induction calls using List.reverseRecOn with
  | nil => rw [show (d.run []).1 = d from rfl, hd.failures]; rfl
  | append_singleton calls x ih =>
    have ih := ih fun y hy => hb y (List.mem_append_left _ hy)
    -- the cutoff of `x` is not after `b` either, so it drops nothing from `b` on
    rw [run_concat, record, timesOf_concat, since_append, ← ih]
    dsimp only
    rw [recordFailureAt_failures]
    by_cases hc : x.clientID = c
    · have hx := hb x (by simp) hc
      rw [hc, Function.update_self, fresh, since_append, lookback_run, since_since hx, if_pos rfl]
    · rw [Function.update_of_ne (Ne.symm hc), if_neg hc, since_nil, List.append_nil]

theorem InOrder.left {l l' : List FailureCall} (h : InOrder (l ++ l')) : InOrder l := (List.pairwise_append.mp h).1

theorem InOrder.upto {l r : List FailureCall} {x : FailureCall} (h : InOrder (l ++ x :: r)) : InOrder (l ++ [x]) := by
  rw [List.append_cons] at h
  exact h.left

theorem InOrder.le {l r : List FailureCall} {x y : FailureCall} (h : InOrder (l ++ x :: r)) (hy : y ∈ l) :
    y.time.nanos ≤ x.time.nanos :=
  (List.pairwise_append.mp h).2.2 y hy x List.mem_cons_self

/-- What is kept at a call are the failures that count. -/
theorem fresh_run {d : BruteForceDetector} (hd : d.New) {before : List FailureCall} {x : FailureCall}
    (h : InOrder (before ++ [x])) : (d.run before).1.fresh x.clientID x.time = d.window before x := by
  rw [fresh, lookback_run, window, since_run hd]
  intro y hy _
  have hle := h.le hy
  omega

theorem run_failures {d : BruteForceDetector} (hd : d.New) {before : List FailureCall} {x : FailureCall}
    (h : InOrder (before ++ [x])) : (d.run (before ++ [x])).1.failures x.clientID = d.window before x := by
  rw [run_concat, record]
  dsimp only
  rw [recordFailureAt_failures, Function.update_self, fresh_run hd h]

/-! ## Events -/

/-- The keys of the events are those of the calls so far. -/
theorem run_alerted {d : BruteForceDetector} (hd : d.New) {calls : List FailureCall} (h : InOrder calls) {k : Bytes} :
    (d.run calls).1.alerted k = true ↔ ∃ l y r, calls = l ++ y :: r ∧ d.keyAt l y = some k := by
  induction calls using List.reverseRecOn with
  | nil => simp [run, hd.alerted k]
  | append_singleton calls x ih =>
    rw [run_concat, record]
    dsimp only
    rw [recordFailureAt_alerted, ih h.left, key_run, fresh_run hd h]
    simp only [concat_eq_iff]
    constructor
    · rintro (⟨l, y, r, rfl, hk⟩ | hk)
      · exact ⟨l, y, r ++ [x], .inr ⟨r, rfl, rfl⟩, hk⟩
      · exact ⟨calls, x, [], .inl ⟨rfl, rfl, rfl⟩, hk⟩
    · rintro ⟨l, y, r, ⟨rfl, rfl, rfl⟩ | ⟨r, rfl, rfl⟩, hk⟩
      · exact .inr hk
      · exact .inl ⟨l, y, r, rfl, hk⟩

/-- The calls that publish an event are those with a key that no earlier call
has. -/
theorem run_events {d : BruteForceDetector} (hd : d.New) {calls : List FailureCall} (h : InOrder calls) :
    (d.run calls).2.map (fun e => e.1) = chosen (First d.keyAt) calls := by
  induction calls using List.reverseRecOn with
  | nil => rfl
  | append_singleton calls x ih =>
    rw [run_concat, record, chosen_concat, ← ih h.left]
    dsimp only
    have hfirst : ((d.run calls).1.recordFailureAt x.clientID x.time x.corrID).2.isSome ↔ First d.keyAt calls x := by
      rw [recordFailureAt_isSome, key_run, fresh_run hd h]
      simp only [run_alerted hd h.left, First, not_exists, not_and]
      rfl
    cases hev : ((d.run calls).1.recordFailureAt x.clientID x.time x.corrID).2 with
    | none =>
      rw [if_neg (by simp [← hfirst, hev])]
      simp
    | some ev =>
      rw [if_pos (by simp [← hfirst, hev])]
      simp

theorem mem_published {x : FailureCall} {ev : Option (NATSSubject × BruteForceEvent)}
    {e : FailureCall × NATSSubject × BruteForceEvent} (he : e ∈ (ev.map fun ev => (x, ev)).toList) :
    e.1 = x ∧ ev = some e.2 := by
  obtain ⟨ev, rfl, rfl⟩ := Option.map_eq_some_iff.mp (Option.mem_toList.mp he)
  exact ⟨rfl, rfl⟩

theorem run_event_data (d : BruteForceDetector) {calls : List FailureCall}
    {e : FailureCall × NATSSubject × BruteForceEvent} (he : e ∈ (d.run calls).2) :
    e.2.1 = securitySubject d.workspaceID "brute_force_detected" e.1.corrID ∧ e.2.2.clientID = e.1.clientID := by
  induction calls using List.reverseRecOn with
  | nil => cases he
  | append_singleton calls x ih =>
    rw [run_concat, record, List.mem_append] at he
    rcases he with he | he
    · exact ih he
    · obtain ⟨rfl, hev⟩ := mem_published he
      have hworkspace : (d.run calls).1.workspaceID = d.workspaceID := congrArg Prod.fst (d.run_settings calls)
      rw [← hworkspace]
      exact recordFailureAt_event hev

/-! ## The oldest failure that counts -/

/-- The oldest failure that counts at a call. -/
def oldest (d : BruteForceDetector) (before : List FailureCall) (x : FailureCall) : Time :=
  (d.window before x).headD x.time

/-- There are enough failures at a call. -/
def Breaches (d : BruteForceDetector) (before : List FailureCall) (x : FailureCall) : Prop :=
  d.threshold ≤ (d.window before x).length

/-- The bucket of a call. -/
def bucketAt (d : BruteForceDetector) (before : List FailureCall) (x : FailureCall) : Int :=
  (d.oldest before x).sec.tdiv d.windowSec

theorem keyAt_eq_some {d : BruteForceDetector} {before : List FailureCall} {x : FailureCall} {k : Bytes} :
    d.keyAt before x = some k ↔ d.Breaches before x ∧ bucketKey x.clientID (d.bucketAt before x) = k :=
  key_eq_some

theorem mem_window {d : BruteForceDetector} {before : List FailureCall} {x : FailureCall} {t : Time} :
    t ∈ d.window before x ↔
      (∃ y ∈ before, y.clientID = x.clientID ∧ y.time = t ∧ x.time.nanos + d.lookback ≤ t.nanos) ∨ t = x.time := by
  simp only [window, since, List.mem_append, List.mem_filter, mem_timesOf, decide_eq_true_eq, List.mem_singleton]
  grind

theorem oldest_mem (d : BruteForceDetector) (before : List FailureCall) (x : FailureCall) :
    d.oldest before x ∈ d.window before x := by
  rw [oldest, window]
  cases since (x.time.nanos + d.lookback) (timesOf x.clientID before) <;> simp

theorem InOrder.le_of_mem_window {d : BruteForceDetector} {before : List FailureCall} {x : FailureCall} {t : Time}
    (h : InOrder (before ++ [x])) (ht : t ∈ d.window before x) : t.nanos ≤ x.time.nanos := by
  rcases mem_window.mp ht with ⟨y, hy, -, rfl, -⟩ | rfl
  · exact h.le hy
  · exact le_rfl

theorem InOrder.timesOf {calls : List FailureCall} (h : InOrder calls) (c : Bytes) :
    (timesOf c calls).Pairwise fun t u => t.nanos ≤ u.nanos :=
  List.pairwise_map.mpr (List.Pairwise.filter _ h)

theorem window_sorted {d : BruteForceDetector} {before : List FailureCall} {x : FailureCall}
    (h : InOrder (before ++ [x])) : (d.window before x).Pairwise fun t u => t.nanos ≤ u.nanos := by
  rw [window, List.pairwise_append]
  refine ⟨(h.left.timesOf _).filter _, List.pairwise_singleton _ _, ?_⟩
  intro t ht u hu
  obtain rfl := List.mem_singleton.mp hu
  exact h.le_of_mem_window (List.mem_append_left _ ht : t ∈ d.window before x)

theorem oldest_le {d : BruteForceDetector} {before : List FailureCall} {x : FailureCall} {t : Time}
    (h : InOrder (before ++ [x])) (ht : t ∈ d.window before x) : (d.oldest before x).nanos ≤ t.nanos := by
  have hsorted := window_sorted (d := d) h
  rw [oldest]
  cases hw : d.window before x with
  | nil => simp [hw] at ht
  | cons u us =>
    rw [hw, List.pairwise_cons] at hsorted
    rw [hw, List.mem_cons] at ht
    rcases ht with rfl | ht
    · exact le_rfl
    · exact hsorted.1 t ht

/-- The oldest failure that counts does not get older. -/
theorem oldest_mono {d : BruteForceDetector} {before between : List FailureCall} {x y : FailureCall}
    (h : InOrder ((before ++ x :: between) ++ [y])) (hc : x.clientID = y.clientID) :
    (d.oldest before x).nanos ≤ (d.oldest (before ++ x :: between) y).nanos := by
  have hx : InOrder (before ++ [x]) := h.left.upto
  have hle : (d.oldest before x).nanos ≤ x.time.nanos := hx.le_of_mem_window (d.oldest_mem before x)
  have hxy : x.time.nanos ≤ y.time.nanos := h.le (by simp)
  rcases mem_window.mp (d.oldest_mem (before ++ x :: between) y) with ⟨z, hz, hzc, hzt, hcut⟩ | hnow
  · rw [← hzt] at hcut ⊢
    rcases List.mem_append.mp hz with hz | hz
    · -- older than `x`: it counts at `x` too
      exact oldest_le hx (mem_window.mpr (.inl ⟨z, hz, hzc.trans hc.symm, rfl, by omega⟩))
    · have hxz : x.time.nanos ≤ z.time.nanos := by
        rcases List.mem_cons.mp hz with rfl | hz
        · exact le_rfl
        · have htail := (List.pairwise_append.mp h.left).2.1
          exact (List.pairwise_cons.mp htail).1 z hz
      omega
  · rw [hnow]
    omega

theorem sec_mono {t u : Time} (h : t.nanos ≤ u.nanos) : t.sec ≤ u.sec := by
  simp only [Time.nanos, Time.nanosPerSecond] at h
  omega

theorem bucketAt_mono {d : BruteForceDetector} {before between : List FailureCall} {x y : FailureCall}
    (h : InOrder ((before ++ x :: between) ++ [y])) (hc : x.clientID = y.clientID) :
    d.bucketAt before x ≤ d.bucketAt (before ++ x :: between) y :=
  Int.tdiv_le_tdiv d.windowSec_pos (sec_mono (oldest_mono h hc))

/-! ## Other clients -/

/-- Two detectors hold the same of a client. -/
structure Agree (c : Bytes) (d d' : BruteForceDetector) : Prop where
  settings : d.settings = d'.settings
  failures : d.failures c = d'.failures c
  alerted : ∀ n, d.alerted (bucketKey c n) = d'.alerted (bucketKey c n)

/-- A call for the client keeps the agreement, and publishes the same. -/
theorem Agree.recordFailureAt {c : Bytes} {d d' : BruteForceDetector} (h : Agree c d d') (t : Time) (corrID : Bytes) :
    (d.recordFailureAt c t corrID).2 = (d'.recordFailureAt c t corrID).2 ∧
      Agree c (d.recordFailureAt c t corrID).1 (d'.recordFailureAt c t corrID).1 := by
  have hfresh : d.fresh c t = d'.fresh c t := by
    rw [fresh, fresh, lookback_congr h.settings, h.failures]
  have hkey : d.key c (d.fresh c t) t = d'.key c (d'.fresh c t) t := by
    rw [hfresh, key_congr h.settings]
  refine ⟨?_, ?_, ?_, fun n => ?_⟩
  · have hset := h.settings
    simp only [BruteForceDetector.settings, Prod.mk.injEq] at hset
    rw [recordFailureAt_eq, recordFailureAt_eq d', hkey, hfresh]
    cases hk : d'.key c (d'.fresh c t) t with
    | none => rfl
    | some k =>
      obtain ⟨-, rfl⟩ := key_eq_some.mp hk
      dsimp only
      rw [h.alerted]
      split
      · rfl
      · dsimp only
        rw [hset.1, hset.2.2]
  · rw [recordFailureAt_settings, recordFailureAt_settings, h.settings]
  · rw [recordFailureAt_failures, recordFailureAt_failures, Function.update_self, Function.update_self, hfresh]
  · rw [Bool.eq_iff_iff, recordFailureAt_alerted, recordFailureAt_alerted, hkey, h.alerted]

/-- A call for another client keeps the agreement. -/
theorem Agree.recordFailureAt_of_ne {c c' : Bytes} {d d' : BruteForceDetector} (h : Agree c d d') (hc : c' ≠ c)
    (t : Time) (corrID : Bytes) : Agree c (d.recordFailureAt c' t corrID).1 d' := by
  refine ⟨?_, ?_, fun n => ?_⟩
  · rw [recordFailureAt_settings, h.settings]
  · rw [recordFailureAt_failures, Function.update_of_ne hc.symm, h.failures]
  · rw [← h.alerted, Bool.eq_iff_iff, recordFailureAt_alerted, or_iff_left]
    intro hkey
    exact hc (bucketKey_inj (key_eq_some.mp hkey).2).1

/-- What a client gets is what it gets when the calls for the others are left
out. -/
theorem run_filter (d : BruteForceDetector) (c : Bytes) (calls : List FailureCall) :
    Agree c (d.run calls).1 (d.run (calls.filter fun x => x.clientID = c)).1 ∧
      (d.run calls).2.filter (fun e => e.1.clientID = c) = (d.run (calls.filter fun x => x.clientID = c)).2 := by
  induction calls using List.reverseRecOn with
  | nil => exact ⟨⟨rfl, rfl, fun _ => rfl⟩, rfl⟩
  | append_singleton calls x ih =>
    obtain ⟨hagree, hevents⟩ := ih
    rw [run_concat, record, List.filter_append, List.filter_singleton, List.filter_append, hevents]
    dsimp only
    by_cases hc : x.clientID = c
    · subst hc
      obtain ⟨hev, hagree'⟩ := hagree.recordFailureAt x.time x.corrID
      rw [decide_eq_true rfl, Bool.cond_true, run_concat, record]
      refine ⟨hagree', ?_⟩
      rw [← hev]
      refine congrArg (_ ++ ·) (List.filter_eq_self.mpr fun e he => ?_)
      rw [(mem_published he).1]
      exact decide_eq_true rfl
    · rw [decide_eq_false hc, Bool.cond_false, List.append_nil]
      refine ⟨hagree.recordFailureAt_of_ne hc x.time x.corrID, ?_⟩
      refine (congrArg (_ ++ ·) (List.filter_eq_nil_iff.mpr fun e he => ?_)).trans (List.append_nil _)
      rw [(mem_published he).1, decide_eq_true_eq]
      exact hc

/-! ## The window and its events -/

theorem init_new (workspaceID : Bytes) (threshold windowSec : Int) (h : 0 < windowSec) :
    (init workspaceID threshold windowSec h).New :=
  ⟨fun _ => rfl, fun _ => Bool.false_ne_true⟩

theorem newBruteForceDetector_new (getenv : String → Bytes) (workspaceID : Bytes) :
    (newBruteForceDetector getenv workspaceID).New :=
  init_new ..

theorem lookback_of_fits {d : BruteForceDetector} (h : d.windowSec * second < 2 ^ 63) :
    d.lookback = -(d.windowSec * second) := by
  have hpos := d.windowSec_pos
  rw [lookback, wrap64, Int.neg_mul]
  simp only [second] at h ⊢
  exact Int.bmod_eq_of_le (by norm_num; omega) (by norm_num; omega)

/-- The failures that count are those of the last `windowSec` seconds. -/
theorem window_eq_filter {d : BruteForceDetector} (hfits : d.windowSec * second < 2 ^ 63) {before : List FailureCall}
    {x : FailureCall} (h : InOrder (before ++ [x])) :
    d.window before x = (timesOf x.clientID (before ++ [x])).filter
      fun t => x.time.nanos - d.windowSec * second ≤ t.nanos ∧ t.nanos ≤ x.time.nanos := by
  rw [window, since, timesOf_concat, if_pos rfl, List.filter_append, lookback_of_fits hfits]
  congr 1
  · refine List.filter_congr fun t ht => ?_
    obtain ⟨y, hy, -, rfl⟩ := mem_timesOf.mp ht
    have hle := h.le hy
    rw [decide_eq_decide]
    omega
  · have hpos : 0 < d.windowSec * second := Int.mul_pos d.windowSec_pos (by decide)
    have hx : x.time.nanos - d.windowSec * second ≤ x.time.nanos ∧ x.time.nanos ≤ x.time.nanos := ⟨by omega, le_rfl⟩
    rw [List.filter_singleton, decide_eq_true hx]
    rfl

/-- When there are enough failures, some call up to then has published an event
for the client and the bucket. -/
theorem exists_event {d : BruteForceDetector} (hd : d.New) {before : List FailureCall} {x : FailureCall}
    (h : InOrder (before ++ [x])) (hbreach : d.Breaches before x) :
    ∃ e ∈ (d.run (before ++ [x])).2, ∃ l r, before ++ [x] = l ++ e.1 :: r ∧ e.1.clientID = x.clientID ∧
      d.bucketAt l e.1 = d.bucketAt before x := by
  obtain ⟨l, y, r, heq, hkey, hfirst⟩ := exists_first (keyAt_eq_some.mpr ⟨hbreach, rfl⟩)
  have hy : y ∈ (d.run (before ++ [x])).2.map (fun e => e.1) := by
    rw [run_events hd h]
    exact mem_chosen.mpr ⟨l, r, heq, hfirst⟩
  obtain ⟨e, he, rfl⟩ := List.mem_map.mp hy
  obtain ⟨hclient, hbucket⟩ := bucketKey_inj (keyAt_eq_some.mp hkey).2
  exact ⟨e, he, l, r, heq, hclient, hbucket⟩

/-- Two times of one bucket are less than a window apart. -/
theorem sub_lt_of_tdiv_eq {a b w : Int} (hw : 0 < w) (ha : 0 ≤ a) (hb : 0 ≤ b) (h : a.tdiv w = b.tdiv w) :
    b - w < a := by
  rw [Int.tdiv_eq_ediv_of_nonneg ha, Int.tdiv_eq_ediv_of_nonneg hb] at h
  have hmod := Int.emod_nonneg a hw.ne'
  have hlt := Int.emod_lt_of_pos b hw
  have hda := Int.mul_ediv_add_emod a w
  have hdb := Int.mul_ediv_add_emod b w
  rw [h] at hda
  omega

theorem sec_nonneg {t : Time} (h : 0 ≤ t.nanos) : 0 ≤ t.sec := by
  simp only [Time.nanos, Time.nanosPerSecond] at h
  omega

theorem oldest_nonneg {d : BruteForceDetector} {before : List FailureCall} {x : FailureCall}
    (h : ∀ y ∈ before ++ [x], 0 ≤ y.time.nanos) : 0 ≤ (d.oldest before x).nanos := by
  rcases mem_window.mp (d.oldest_mem before x) with ⟨y, hy, -, hyt, -⟩ | hx
  · rw [← hyt]
    exact h y (List.mem_append_left _ hy)
  · rw [hx]
    exact h x (by simp)

/-- An event for the bucket of a call is less than two windows old. -/
theorem recent_of_bucket {d : BruteForceDetector} (hfits : d.windowSec * second < 2 ^ 63)
    {before l r : List FailureCall} {x y : FailureCall} (h : InOrder (before ++ [x]))
    (hnonneg : ∀ z ∈ before ++ [x], 0 ≤ z.time.nanos) (heq : before ++ [x] = l ++ y :: r)
    (hbucket : d.bucketAt l y = d.bucketAt before x) :
    x.time.nanos - 2 * (d.windowSec * second) < y.time.nanos ∧ y.time.nanos ≤ x.time.nanos := by
  have hy : InOrder (l ++ [y]) := (heq ▸ h).upto
  have hnonneg' : ∀ z ∈ l ++ [y], 0 ≤ z.time.nanos := fun z hz =>
    hnonneg z (by rw [heq, List.append_cons]; exact List.mem_append_left _ hz)
  constructor
  · -- the oldest failure at `y` is less than a window before the one at `x`
    have hsec := sub_lt_of_tdiv_eq d.windowSec_pos (sec_nonneg (oldest_nonneg hnonneg'))
      (sec_nonneg (oldest_nonneg hnonneg)) hbucket
    have hold : (d.oldest l y).nanos ≤ y.time.nanos := hy.le_of_mem_window (d.oldest_mem l y)
    have hcut : x.time.nanos - d.windowSec * second ≤ (d.oldest before x).nanos := by
      have hmem := d.oldest_mem before x
      rw [window_eq_filter hfits h, List.mem_filter, decide_eq_true_eq] at hmem
      exact hmem.2.1
    simp only [Time.nanos, Time.nanosPerSecond, second] at *
    omega
  · have hmem : y ∈ before ++ [x] := by rw [heq]; simp
    rcases List.mem_append.mp hmem with hmem | hmem
    · exact h.le hmem
    · rw [List.mem_singleton.mp hmem]

/-- The failures that are kept of a client are exactly those of the window, and
when there are enough of them an event was published for the client less than
two windows ago. The calls for other clients change neither. -/
theorem brute_force_window_exact (d : BruteForceDetector) (hd : d.New) (hfits : d.windowSec * second < 2 ^ 63)
    (calls : List FailureCall) (horder : InOrder calls) (hnonneg : ∀ x ∈ calls, 0 ≤ x.time.nanos) :
    (∀ (before : List FailureCall) (x : FailureCall) (after : List FailureCall), calls = before ++ x :: after →
      (d.run (before ++ [x])).1.failures x.clientID = ((timesOf x.clientID (before ++ [x])).filter
        fun t => x.time.nanos - d.windowSec * second ≤ t.nanos ∧ t.nanos ≤ x.time.nanos) ∧
      (d.threshold ≤ ((d.run (before ++ [x])).1.failures x.clientID).length →
        ∃ e ∈ (d.run (before ++ [x])).2, e.1.clientID = x.clientID ∧
          e.2.1 = securitySubject d.workspaceID "brute_force_detected" e.1.corrID ∧ e.2.2.clientID = x.clientID ∧
          x.time.nanos - 2 * (d.windowSec * second) < e.1.time.nanos ∧ e.1.time.nanos ≤ x.time.nanos)) ∧
    ∀ c, (d.run calls).1.failures c = (d.run (calls.filter fun x => x.clientID = c)).1.failures c ∧
      (d.run calls).2.filter (fun e => e.1.clientID = c) = (d.run (calls.filter fun x => x.clientID = c)).2 := by
  refine ⟨fun before x after heq => ?_, fun c => ⟨(run_filter d c calls).1.failures, (run_filter d c calls).2⟩⟩
  have h : InOrder (before ++ [x]) := (heq ▸ horder).upto
  have hnonneg' : ∀ z ∈ before ++ [x], 0 ≤ z.time.nanos := fun z hz =>
    hnonneg z (by rw [heq, List.append_cons]; exact List.mem_append_left _ hz)
  rw [run_failures hd h]
  refine ⟨window_eq_filter hfits h, fun hlen => ?_⟩
  obtain ⟨e, he, l, r, hl, hclient, hbucket⟩ := exists_event hd h hlen
  obtain ⟨hsubject, hid⟩ := run_event_data d he
  exact ⟨e, he, hclient, hsubject, hid.trans hclient, recent_of_bucket hfits h hnonneg' hl hbucket⟩

/-- Two failures in a minute are enough. -/
def Sample.detector : BruteForceDetector := init (lit "ws") 2 60 (by decide)

/-- A failure of one client at a second. -/
def Sample.failure (sec : Int) : FailureCall := ⟨lit "mallory", ⟨sec, 0, 0⟩, lit "corr"⟩

def Sample.failures : List FailureCall := [Sample.failure 59, Sample.failure 100, Sample.failure 120]

theorem brute_force_window_exact_sample :
    (Sample.detector.run Sample.failures).1.failures (lit "mallory") = [⟨100, 0, 0⟩, ⟨120, 0, 0⟩] ∧
      ∃ e ∈ (Sample.detector.run Sample.failures).2, e.1.clientID = lit "mallory" ∧ 0 < e.1.time.nanos := by
  obtain ⟨hlist, hevent⟩ := (brute_force_window_exact Sample.detector (init_new ..) (by decide) Sample.failures
    (by decide) (by decide)).1 [Sample.failure 59, Sample.failure 100] (Sample.failure 120) [] rfl
  obtain ⟨e, he, hclient, -, -, hrecent, -⟩ := hevent (by decide)
  refine ⟨hlist.trans (by decide), e, he, hclient, ?_⟩
  exact lt_of_le_of_lt (by decide) hrecent

/-! ## How far events are apart -/

/-- After a call that publishes an event (`run_events`), and for the length of a
window, when there are enough failures the oldest that counts is in the bucket
of that call. -/
def BucketStays (d : BruteForceDetector) (calls : List FailureCall) : Prop :=
  ∀ before x between y after, calls = before ++ x :: (between ++ y :: after) → x.clientID = y.clientID →
    First d.keyAt before x → d.Breaches (before ++ x :: between) y →
    y.time.nanos < x.time.nanos + d.windowSec * second →
    d.bucketAt (before ++ x :: between) y = d.bucketAt before x

/-- The events of one client are a window apart. -/
def Apart (d : BruteForceDetector) (calls : List FailureCall) : Prop :=
  (d.run calls).2.Pairwise fun e e' =>
    e.1.clientID = e'.1.clientID → e.1.time.nanos + d.windowSec * second ≤ e'.1.time.nanos

instance decidableApart (d : BruteForceDetector) (calls : List FailureCall) : Decidable (d.Apart calls) :=
  inferInstanceAs (Decidable (List.Pairwise _ _))

theorem apart_iff {d : BruteForceDetector} (hd : d.New) {calls : List FailureCall} (h : InOrder calls) :
    d.Apart calls ↔
      ∀ before x between y after, calls = before ++ x :: (between ++ y :: after) → First d.keyAt before x →
        First d.keyAt (before ++ x :: between) y → x.clientID = y.clientID →
        x.time.nanos + d.windowSec * second ≤ y.time.nanos := by
  rw [← pairwise_chosen, ← run_events hd h, List.pairwise_map]
  rfl

theorem apart_of_bucketStays {d : BruteForceDetector} (hd : d.New) {calls : List FailureCall} (h : InOrder calls)
    (hstays : d.BucketStays calls) : d.Apart calls := by
  rw [apart_iff hd h]
  intro before x between y after heq hx hy hc
  by_contra hlt
  obtain ⟨k, hk, hnew⟩ := hy
  obtain ⟨hbreach, rfl⟩ := keyAt_eq_some.mp hk
  have hbucket := hstays before x between y after heq hc hx hbreach (by omega)
  -- then the earlier event has the key of the later one
  obtain ⟨k, hkx, -⟩ := hx
  refine hnew before x between rfl (keyAt_eq_some.mpr ⟨(keyAt_eq_some.mp hkx).1, ?_⟩)
  rw [hbucket, hc]

theorem bucketStays_of_apart {d : BruteForceDetector} (hd : d.New) {calls : List FailureCall} (h : InOrder calls)
    (hapart : d.Apart calls) : d.BucketStays calls := by
  rw [apart_iff hd h] at hapart
  intro before x between y after heq hc hx hbreach hlt
  have hxy : InOrder ((before ++ x :: between) ++ [y]) := by
    rw [heq, ← List.cons_append, ← List.append_assoc] at h
    exact h.upto
  -- the first call with the key of `y` published an event
  obtain ⟨l, z, r, hz, hkey, hfirst⟩ := exists_first (keyAt_eq_some.mpr ⟨hbreach, rfl⟩)
  obtain ⟨hzc, hzb⟩ := bucketKey_inj (keyAt_eq_some.mp hkey).2
  rw [List.append_assoc, List.cons_append, append_cons_eq_iff] at hz
  rcases hz with ⟨rfl, rfl, -⟩ | ⟨m, rfl, hm⟩ | ⟨m, rfl, -⟩
  · exact hzb.symm
  · -- after `x`: then it is a window later, and so is `y`
    have hle : z.time.nanos ≤ y.time.nanos := by
      have hz : z ∈ between ++ [y] := by rw [hm]; simp
      rcases List.mem_append.mp hz with hz | hz
      · exact hxy.le (by simp [hz])
      · rw [List.mem_singleton.mp hz]
    have hcalls : calls = before ++ x :: (m ++ z :: (r ++ after)) := by
      rw [heq, List.append_cons between, hm, List.append_assoc, List.cons_append]
    have hfar := hapart before x m z (r ++ after) hcalls hx hfirst (hc.trans hzc.symm)
    omega
  · -- before `x`: then the bucket of `x` lies between two equal ones
    have hlo := bucketAt_mono (d := d) hxy.left.upto (hzc.trans hc.symm)
    have hhi := bucketAt_mono (d := d) hxy hc
    omega

/-- The events of one client are a window apart if and only if, in that time
after an event, the oldest failure that counts does not get into another
bucket. -/
theorem brute_force_dedup_iff (d : BruteForceDetector) (hd : d.New) (calls : List FailureCall)
    (horder : InOrder calls) : d.Apart calls ↔ d.BucketStays calls :=
  ⟨bucketStays_of_apart hd horder, apart_of_bucketStays hd horder⟩

theorem brute_force_dedup_sample :
    InOrder [Sample.failure 100, Sample.failure 101, Sample.failure 119] ∧
      Sample.detector.Apart [Sample.failure 100, Sample.failure 101, Sample.failure 119] ∧
      Sample.detector.BucketStays [Sample.failure 100, Sample.failure 101, Sample.failure 119] :=
  ⟨by decide, by decide, (brute_force_dedup_iff Sample.detector (init_new ..) _ (by decide)).mp (by decide)⟩

/-- At 120 seconds the failure at 59 seconds does not count any more, and the
oldest that does is in the next bucket: there is an event at 100 and another
at 120 seconds. -/
theorem brute_force_events_close :
    InOrder Sample.failures ∧
      (Sample.detector.run Sample.failures).2.map (fun e => (e.1.clientID, e.1.time.sec)) =
        [(lit "mallory", 100), (lit "mallory", 120)] ∧
      ¬ Sample.detector.Apart Sample.failures := by
  decide

end Hanko.BruteForceDetector
