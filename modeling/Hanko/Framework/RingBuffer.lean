import Mathlib

/-!
# Circular buffers

A queue in an array of `n` slots: `head` is the next slot to write, `tail` the
next to read, and `count` the number of slots in use. `contents` is the queue,
oldest element first: `push` appends to it (`contents_push`) unless it has `n`
elements (`push_eq_none`), and `pop` takes its first element (`contents_pop`)
unless there is none (`pop_eq_none`).
-/

/-- A circular buffer of `n` slots. -/
structure RingBuffer (α : Type) (n : Nat) [NeZero n] where
  slots : Fin n → α
  head : Fin n
  tail : Fin n
  count : Nat
  count_le : count ≤ n
  head_eq : head = tail + Fin.ofNat n count

namespace RingBuffer

variable {α : Type} {n : Nat} [NeZero n]

theorem ofNat_succ (k : Nat) : Fin.ofNat n (k + 1) = Fin.ofNat n k + 1 := by
  ext
  simp [Fin.ofNat, Fin.val_add]

theorem ofNat_inj {j k : Nat} (hj : j < n) (hk : k < n) (h : Fin.ofNat n j = Fin.ofNat n k) : j = k := by
  have h := congrArg Fin.val h
  rwa [Fin.val_ofNat, Fin.val_ofNat, Nat.mod_eq_of_lt hj, Nat.mod_eq_of_lt hk] at h

/-- All slots hold the same value, and none is in use. -/
def empty (x : α) : RingBuffer α n := ⟨fun _ => x, 0, 0, 0, Nat.zero_le n, rfl⟩

def push (r : RingBuffer α n) (x : α) : Option (RingBuffer α n) :=
  if h : r.count < n then
    some
      { slots := Function.update r.slots r.head x
        head := r.head + 1
        tail := r.tail
        count := r.count + 1
        count_le := h
        head_eq := by rw [ofNat_succ, ← add_assoc, ← r.head_eq] }
  else none

def pop (r : RingBuffer α n) : Option (α × RingBuffer α n) :=
  match h : r.count with
  | 0 => none
  | k + 1 =>
    some (r.slots r.tail,
      { slots := r.slots
        head := r.head
        tail := r.tail + 1
        count := k
        count_le := (Nat.le_succ k).trans (h ▸ r.count_le)
        head_eq := by rw [r.head_eq, h, ofNat_succ, add_assoc, add_comm (1 : Fin n)] })

/-- The elements of the queue, the next to read first. -/
def contents (r : RingBuffer α n) : List α := (List.range r.count).map fun k => r.slots (r.tail + Fin.ofNat n k)

theorem contents_push {r r' : RingBuffer α n} {x : α} (h : r.push x = some r') : r'.contents = r.contents ++ [x] := by
  rw [push] at h
  split at h
  · rename_i hlt
    obtain rfl := Option.some.inj h
    rw [contents, List.range_succ, List.map_append, List.map_singleton, ← r.head_eq]
    refine congrArg₂ _ (List.map_congr_left fun k hk => ?_) (congrArg (List.cons · []) (Function.update_self ..))
    have hk := List.mem_range.mp hk
    -- the slot written is not in use
    refine Function.update_of_ne (fun heq => hk.ne (ofNat_inj (hk.trans hlt) hlt ?_)) _ _
    exact add_left_cancel (heq.trans r.head_eq)
  · cases h

theorem contents_pop {r r' : RingBuffer α n} {x : α} (h : r.pop = some (x, r')) : r.contents = x :: r'.contents := by
  rw [pop] at h
  split at h
  · cases h
  · rename_i k hk
    obtain ⟨rfl, rfl⟩ := Prod.mk.inj (Option.some.inj h)
    have hrange : List.range r.count = 0 :: (List.range k).map Nat.succ := by rw [hk, List.range_succ_eq_map]
    rw [contents, hrange, List.map_cons, List.map_map]
    refine congrArg₂ _ (congrArg r.slots (add_zero r.tail)) (List.map_congr_left fun j _ => congrArg r.slots ?_)
    change r.tail + Fin.ofNat n (j + 1) = r.tail + 1 + Fin.ofNat n j
    rw [ofNat_succ, add_assoc, add_comm (1 : Fin n)]

@[simp] theorem length_contents (r : RingBuffer α n) : r.contents.length = r.count := by simp [contents]

/-- The slots in use, from the next to read on. -/
theorem getElem?_contents (r : RingBuffer α n) {k : Nat} (hk : k < r.count) :
    r.contents[k]? = some (r.slots (r.tail + Fin.ofNat n k)) := by
  simp [contents, hk]

theorem pop_eq_none {r : RingBuffer α n} : r.pop = none ↔ r.contents = [] := by
  rw [← List.length_eq_zero_iff, length_contents, pop]
  split <;> simp [*]

/-- The oldest element is taken, and the next to read is the one behind it. -/
theorem pop_eq_some {r : RingBuffer α n} {x : α} {xs : List α} (h : r.contents = x :: xs) :
    ∃ r', r.pop = some (x, r') ∧ r'.contents = xs ∧ r'.tail = r.tail + 1 := by
  cases hpop : r.pop with
  | none => cases h.symm.trans (pop_eq_none.mp hpop)
  | some taken =>
    obtain ⟨y, r'⟩ := taken
    obtain ⟨rfl, rfl⟩ := List.cons.inj (h.symm.trans (contents_pop hpop))
    refine ⟨r', rfl, rfl, ?_⟩
    rw [pop] at hpop
    split at hpop
    · cases hpop
    · obtain ⟨-, rfl⟩ := Prod.mk.inj (Option.some.inj hpop)
      rfl

theorem tail_push {r r' : RingBuffer α n} {x : α} (h : r.push x = some r') : r'.tail = r.tail := by
  rw [push] at h
  split at h
  · obtain rfl := Option.some.inj h
    rfl
  · cases h

theorem push_eq_none {r : RingBuffer α n} {x : α} : r.push x = none ↔ r.count = n := by
  have hle := r.count_le
  rw [push]
  split
  · simp
    omega
  · simp
    omega

end RingBuffer
