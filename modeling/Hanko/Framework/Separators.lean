import Mathlib

/-!
# Texts with a separator

A separator that is not in a part ends it: the part is what stands before the
first separator (`takeWhile_ne`, `takeWhile_ne_append`, `findIdx_append`), or
behind the last (`append_cons_inj`). So parts that are each followed by the
separator are determined by the text they form (`terminated_inj`).
-/

namespace Separators

variable {α : Type} {b : α}

/-- Two texts with the same last separator. -/
theorem append_cons_inj {x y u v : List α} (hu : b ∉ u) (hv : b ∉ v) (h : x ++ b :: u = y ++ b :: v) :
    x = y ∧ u = v := by
  rcases List.append_eq_append_iff.mp h with ⟨w, rfl, hw⟩ | ⟨w, rfl, hw⟩
  · cases w with
    | nil => simpa using hw
    | cons a w => exact absurd (by simp [(List.cons.inj hw).2]) hu
  · cases w with
    | nil => simpa [eq_comm] using hw
    | cons a w => exact absurd (by simp [(List.cons.inj hw).2]) hv

variable [DecidableEq α]

theorem takeWhile_ne {t : List α} (h : b ∉ t) : t.takeWhile (· ≠ b) = t := by
  rw [List.takeWhile_eq_self_iff]
  intro c hc
  rw [decide_eq_true_eq]
  rintro rfl
  exact h hc

/-- What follows the first separator does not matter. -/
theorem takeWhile_ne_append (t rest : List α) : (t ++ b :: rest).takeWhile (· ≠ b) = t.takeWhile (· ≠ b) := by
  induction t with
  | nil => simp
  | cons c t ih => rw [List.cons_append, List.takeWhile_cons, List.takeWhile_cons, ih]

theorem findIdx_append {t : List α} (h : b ∉ t) (rest : List α) : (t ++ b :: rest).findIdx (· = b) = t.length := by
  induction t with
  | nil => rw [List.nil_append, List.findIdx_cons, decide_eq_true rfl]; rfl
  | cons c t ih =>
    rw [List.mem_cons, not_or] at h
    rw [List.cons_append, List.findIdx_cons, decide_eq_false (Ne.symm h.1), ih h.2]
    rfl

/-- Parts without `b`, each followed by it, are read back from what they begin. -/
theorem terminated_inj {ts us : List (List α)} {x y : List α} (hlen : ts.length = us.length) (ht : ∀ t ∈ ts, b ∉ t)
    (hu : ∀ u ∈ us, b ∉ u) (h : ts.flatMap (· ++ [b]) ++ x = us.flatMap (· ++ [b]) ++ y) : ts = us ∧ x = y := by
  induction ts generalizing us with
  | nil =>
    obtain rfl := List.length_eq_zero_iff.mp hlen.symm
    exact ⟨rfl, h⟩
  | cons t ts ih =>
    obtain ⟨u, us, rfl⟩ := List.exists_cons_of_length_eq_add_one hlen.symm
    rw [List.forall_mem_cons] at ht hu
    simp only [List.flatMap_cons, List.append_assoc, List.cons_append] at h
    have htake := congrArg (List.takeWhile (· ≠ b)) h
    rw [takeWhile_ne_append, takeWhile_ne_append, takeWhile_ne ht.1, takeWhile_ne hu.1] at htake
    subst htake
    obtain ⟨rfl, rfl⟩ := ih (Nat.succ.inj hlen) ht.2 hu.2 (List.cons.inj (List.append_cancel_left h)).2
    exact ⟨rfl, rfl⟩

end Separators
