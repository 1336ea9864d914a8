import Mathlib

/-!
# Loops over maps

A loop over a finite map goes through its entries in some order. What it
computes is stated with the map alone: a map built by inserting
(`lookup_foldl_insert`), a set built by adding keys (`mem_foldl_insert`).
-/

namespace MapRange

variable {κ α β : Type}

theorem nodupKeys {m : Finmap fun _ : κ => α} {es : List (Sigma fun _ : κ => α)}
    (h : (es : Multiset _) = m.entries) : es.NodupKeys := by
  rw [← Multiset.coe_nodupKeys, h]
  exact m.nodupKeys

variable [DecidableEq κ]

section

variable {m : Finmap fun _ : κ => α} {es : List (Sigma fun _ : κ => α)}

theorem mem_iff (h : (es : Multiset _) = m.entries) {k : κ} {v : α} : ⟨k, v⟩ ∈ es ↔ m.lookup k = some v := by
  rw [← Multiset.mem_coe, h]
  exact Finmap.mem_lookup_iff.symm

theorem lookup_eq_dlookup (h : (es : Multiset _) = m.entries) (k : κ) : m.lookup k = es.dlookup k := by
  ext v
  rw [← mem_iff h, ← List.mem_dlookup_iff (nodupKeys h)]
  rfl

/-- The map of a loop that inserts a function of each entry. -/
theorem lookup_foldl_insert_dlookup (f : α → β) (hn : es.NodupKeys) (out : Finmap fun _ : κ => β) (k : κ) :
    (es.foldl (fun out e => out.insert e.1 (f e.2)) out).lookup k = ((es.dlookup k).map f).or (out.lookup k) := by
  induction es generalizing out with
  | nil => rfl
  | cons e es ih =>
    obtain ⟨hnot, hn⟩ := List.nodupKeys_cons.mp hn
    rw [List.foldl_cons, ih hn]
    by_cases hk : k = e.1
    · subst hk
      rw [List.dlookup_eq_none.mpr hnot, Finmap.lookup_insert, List.dlookup_cons_eq es e.1 e.2]
      rfl
    · rw [Finmap.lookup_insert_of_ne _ hk, List.dlookup_cons_ne es e hk]

theorem lookup_foldl_insert (f : α → β) (h : (es : Multiset _) = m.entries) (k : κ) :
    (es.foldl (fun out e => out.insert e.1 (f e.2)) (∅ : Finmap fun _ : κ => β)).lookup k = (m.lookup k).map f := by
  rw [lookup_foldl_insert_dlookup f (nodupKeys h), lookup_eq_dlookup h, Finmap.lookup_empty, Option.or_none]

end

/-- The set of a loop that adds the keys of some entries. -/
theorem mem_foldl_insert {es : List (Sigma fun _ : κ => α)} {P : (Sigma fun _ : κ => α) → Prop} [DecidablePred P]
    {s : Finset κ} {k : κ} :
    k ∈ es.foldl (fun s e => if P e then s else insert e.1 s) s ↔ k ∈ s ∨ ∃ v, ⟨k, v⟩ ∈ es ∧ ¬ P ⟨k, v⟩ := by
  induction es generalizing s with
  | nil => simp
  | cons e es ih =>
    obtain ⟨k', v'⟩ := e
    rw [List.foldl_cons, ih]
    by_cases hP : P ⟨k', v'⟩
    · rw [if_pos hP]
      refine or_congr_right (exists_congr fun v => and_congr_left fun hnot => ?_)
      rw [List.mem_cons, or_iff_right]
      rintro heq
      exact hnot (heq ▸ hP)
    · rw [if_neg hP, Finset.mem_insert]
      simp only [List.mem_cons, Sigma.mk.injEq, heq_eq_eq]
      grind

end MapRange
