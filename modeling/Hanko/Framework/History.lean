import Mathlib

/-!
# First occurrences in a history

A history is a list, oldest element first. An element may have a key, which
depends on what came before it (`κ before x`). An element is the first of its
key if no earlier one has it (`First`): these are the ones that pass a filter
which remembers the keys it has seen.

* `exists_first`: if an element has a key, some element up to it is the first
  of that key;
* `chosen`: the elements that satisfy a predicate on them and what came before,
  with `mem_chosen`, `pairwise_chosen`.
-/

namespace History

variable {α β : Type}

/-- No element of `before` has the key that `x` has. -/
def First (κ : List α → α → Option β) (before : List α) (x : α) : Prop :=
  ∃ k, κ before x = some k ∧ ∀ l y r, before = l ++ y :: r → κ l y ≠ some k

theorem exists_first {κ : List α → α → Option β} {before : List α} {x : α} {k : β} (h : κ before x = some k) :
    ∃ l y r, before ++ [x] = l ++ y :: r ∧ κ l y = some k ∧ First κ l y := by
  -- by induction on the number of elements before `x`
  induction hn : before.length using Nat.strong_induction_on generalizing before x with
  | h n ih =>
    by_cases hfirst : First κ before x
    · exact ⟨before, x, [], rfl, h, hfirst⟩
    · simp only [First, not_exists, not_and, not_forall, not_not] at hfirst
      obtain ⟨l, y, r, rfl, hy⟩ := hfirst k h
      have hlt : l.length < n := by
        rw [← hn, List.length_append, List.length_cons]
        omega
      obtain ⟨l', y', r', heq, hy', hfirst'⟩ := ih l.length hlt hy rfl
      refine ⟨l', y', r' ++ (r ++ [x]), ?_, hy', hfirst'⟩
      calc (l ++ y :: r) ++ [x] = (l ++ [y]) ++ (r ++ [x]) := by simp
        _ = l' ++ y' :: (r' ++ (r ++ [x])) := by rw [heq]; simp

/-- Where one element of a history stands, as seen from another. -/
theorem append_cons_eq_iff {before after l r : List α} {x z : α} :
    before ++ x :: after = l ++ z :: r ↔
      before = l ∧ x = z ∧ after = r ∨ (∃ m, l = before ++ x :: m ∧ after = m ++ z :: r) ∨
        ∃ m, before = l ++ z :: m ∧ r = m ++ x :: after := by
  constructor
  · intro h
    rcases List.append_eq_append_iff.mp h with ⟨m, rfl, hm⟩ | ⟨m, rfl, hm⟩
    · cases m with
      | nil =>
        obtain ⟨rfl, rfl⟩ := List.cons.inj hm
        exact .inl ⟨(List.append_nil _).symm, rfl, rfl⟩
      | cons y m =>
        obtain ⟨rfl, rfl⟩ := List.cons.inj hm
        exact .inr (.inl ⟨m, rfl, rfl⟩)
    · cases m with
      | nil =>
        obtain ⟨rfl, rfl⟩ := List.cons.inj hm
        exact .inl ⟨List.append_nil _, rfl, rfl⟩
      | cons y m =>
        obtain ⟨rfl, rfl⟩ := List.cons.inj hm
        exact .inr (.inr ⟨m, rfl, rfl⟩)
  · rintro (⟨rfl, rfl, rfl⟩ | ⟨m, rfl, rfl⟩ | ⟨m, rfl, rfl⟩) <;> simp

/-- Where an element of a history stands that has got one more. -/
theorem concat_eq_iff {l before after : List α} {x z : α} :
    l ++ [z] = before ++ x :: after ↔
      l = before ∧ z = x ∧ after = [] ∨ ∃ r, after = r ++ [z] ∧ l = before ++ x :: r := by
  rw [append_cons_eq_iff]
  constructor
  · rintro (⟨rfl, rfl, rfl⟩ | ⟨m, -, h⟩ | ⟨m, rfl, rfl⟩)
    · exact .inl ⟨rfl, rfl, rfl⟩
    · simp at h
    · exact .inr ⟨m, rfl, rfl⟩
  · rintro (⟨rfl, rfl, rfl⟩ | ⟨m, rfl, rfl⟩)
    · exact .inl ⟨rfl, rfl, rfl⟩
    · exact .inr (.inr ⟨m, rfl, rfl⟩)

open Classical in
/-- The elements of `l`, after `before`, that satisfy `P`. -/
noncomputable def chosenAfter (P : List α → α → Prop) (before : List α) : List α → List α
  | [] => []
  | x :: l => if P before x then x :: chosenAfter P (before ++ [x]) l else chosenAfter P (before ++ [x]) l

/-- The elements that satisfy `P`. -/
noncomputable def chosen (P : List α → α → Prop) (l : List α) : List α := chosenAfter P [] l

variable {P : List α → α → Prop}

theorem chosenAfter_append (before l l' : List α) :
    chosenAfter P before (l ++ l') = chosenAfter P before l ++ chosenAfter P (before ++ l) l' := by
  induction l generalizing before with
  | nil => simp [chosenAfter]
  | cons x l ih =>
    rw [List.cons_append, chosenAfter, chosenAfter, ih]
    split <;> simp

open Classical in
theorem chosen_concat (l : List α) (x : α) : chosen P (l ++ [x]) = chosen P l ++ if P l x then [x] else [] := by
  rw [chosen, chosenAfter_append, List.nil_append]
  rfl

theorem mem_chosen {l : List α} {x : α} : x ∈ chosen P l ↔ ∃ before after, l = before ++ x :: after ∧ P before x := by
  induction l using List.reverseRecOn with
  | nil => simp [chosen, chosenAfter]
  | append_singleton l y ih =>
    rw [chosen_concat, List.mem_append, ih]
    constructor
    · rintro (⟨before, after, rfl, h⟩ | h)
      · exact ⟨before, after ++ [y], by simp, h⟩
      · split at h
        · rename_i hy
          obtain rfl := List.mem_singleton.mp h
          exact ⟨l, [], rfl, hy⟩
        · cases h
    · rintro ⟨before, after, heq, h⟩
      rcases concat_eq_iff.mp heq with ⟨rfl, rfl, -⟩ | ⟨after, -, rfl⟩
      · exact .inr (by simp [h])
      · exact .inl ⟨before, after, rfl, h⟩

/-- A relation between the chosen elements, in terms of the whole history. -/
theorem pairwise_chosen {R : α → α → Prop} {l : List α} :
    (chosen P l).Pairwise R ↔
      ∀ before x between y after, l = before ++ x :: (between ++ y :: after) → P before x →
        P (before ++ x :: between) y → R x y := by
  induction l using List.reverseRecOn with
  | nil => simp [chosen, chosenAfter]
  | append_singleton l z ih =>
    rw [chosen_concat, List.pairwise_append, ih]
    constructor
    · rintro ⟨hl, -, hz⟩ before x between y after heq hx hy
      rw [← List.cons_append, ← List.append_assoc, concat_eq_iff] at heq
      rcases heq with ⟨rfl, rfl, -⟩ | ⟨after, -, rfl⟩
      · exact hz x (mem_chosen.mpr ⟨before, between, rfl, hx⟩) z (by simp [hy])
      · exact hl before x between y after (by simp) hx hy
    · intro h
      refine ⟨fun before x between y after heq => h before x between y (after ++ [z]) (by simp [heq]), ?_, ?_⟩
      · split <;> simp
      · intro x hx y hy
        obtain ⟨before, between, rfl, hP⟩ := mem_chosen.mp hx
        split at hy
        · rename_i hz
          obtain rfl := List.mem_singleton.mp hy
          exact h before x between y [] (by simp) hP hz
        · cases hy

end History
