import Hanko.Framework.Pool

/-!
# Serial executions

What the programs of a pool do one after the other (`Serially`), and when a
run of the pool does the same:

* `serially_iff`: where each program alone has a definite effect on the state,
  a serial execution is the composition of the effects;
* `Exec.serial`: if each program writes at most once, and every write has the
  program's effect on the state in which it is made, then the state at the end
  is that of the programs one after the other, the writers in the order of
  their writes.
-/

namespace Interact

variable {S : Sig} {α ι σ : Type}

/-- The programs `ps`, each alone, one after the other in the given order. -/
def Serially (H : Handler S σ) (ps : ι → Prog S α) : List ι → σ → σ → Prop
  | [], s, s' => s' = s
  | i :: order, s, s' => ∃ es a s₁, (ps i).Ends es a ∧ Exec H s es s₁ ∧ Serially H ps order s₁ s'

/-- Alone, `p` returns, and leads from every state `s` to `f s`. -/
def Prog.Effect (H : Handler S σ) (p : Prog S α) (f : σ → σ) : Prop :=
  ∀ s s', (∃ es a, p.Ends es a ∧ Exec H s es s') ↔ s' = f s

/-- The effects of programs, one after the other. -/
def compose (f : ι → σ → σ) (order : List ι) (s : σ) : σ := order.foldl (fun s i => f i s) s

theorem compose_cons (f : ι → σ → σ) (i : ι) (order : List ι) (s : σ) :
    compose f (i :: order) s = compose f order (f i s) := rfl

theorem compose_append (f : ι → σ → σ) (order rest : List ι) (s : σ) :
    compose f (order ++ rest) s = compose f rest (compose f order s) :=
  List.foldl_append

/-- Programs without an effect. -/
theorem compose_eq_self {f : ι → σ → σ} {order : List ι} (h : ∀ i ∈ order, ∀ s, f i s = s) (s : σ) :
    compose f order s = s := by
  induction order generalizing s with
  | nil => rfl
  | cons i order ih =>
    obtain ⟨hi, horder⟩ := List.forall_mem_cons.mp h
    rw [compose_cons, hi, ih horder]

variable {H : Handler S σ} {ps : ι → Prog S α} {f : ι → σ → σ} {s s' : σ}

theorem serially_iff (hf : ∀ i, (ps i).Effect H (f i)) (order : List ι) :
    Serially H ps order s s' ↔ s' = compose f order s := by
  induction order generalizing s with
  | nil => exact Iff.rfl
  | cons i order ih =>
    simp only [Serially, ih, compose_cons]
    constructor
    · rintro ⟨es, a, s₁, hends, hexec, rfl⟩
      rw [(hf i s s₁).mp ⟨es, a, hends, hexec⟩]
    · rintro rfl
      obtain ⟨es, a, hends, hexec⟩ := (hf i s (f i s)).mpr rfl
      exact ⟨es, a, _, hends, hexec, rfl⟩

variable {W : Event S → Bool}

/-- The state without a write. -/
theorem Exec.unwritten (hread : ∀ o s a s', W ⟨o, a⟩ = false → H o s a s' → s' = s) {es : List (Event S)}
    (h : Exec H s es s') (hes : ∀ e ∈ es, W e = false) : s' = s := by
  induction h with
  | nil => rfl
  | cons hstep _ ih =>
    obtain ⟨he, hes⟩ := List.forall_mem_cons.mp hes
    rw [ih hes, hread _ _ _ _ he hstep]

/-- Where there is only one write, a list of events splits at it in only one
way. -/
theorem split_at_write {l₁ l₂ m₁ m₂ : List (Event S)} {x y : Event S} (h : l₁ ++ x :: l₂ = m₁ ++ y :: m₂)
    (hx : W x = true) (h₁ : ∀ z ∈ m₁, W z = false) (h₂ : ∀ z ∈ m₂, W z = false) : l₁ = m₁ ∧ x = y ∧ l₂ = m₂ := by
  have hnot : ∀ {m : List (Event S)}, (∀ z ∈ m, W z = false) → x ∉ m := by
    intro m hm hmem
    rw [hm x hmem] at hx
    cases hx
  induction l₁ generalizing m₁ with
  | nil =>
    cases m₁ with
    | nil => obtain ⟨rfl, rfl⟩ := List.cons.inj h; exact ⟨rfl, rfl, rfl⟩
    | cons z m₁ =>
      obtain ⟨rfl, -⟩ := List.cons.inj h
      exact absurd List.mem_cons_self (hnot h₁)
  | cons a l₁ ih =>
    cases m₁ with
    | nil =>
      obtain ⟨-, rfl⟩ := List.cons.inj h
      exact absurd (List.mem_append_right _ List.mem_cons_self) (hnot h₂)
    | cons z m₁ =>
      obtain ⟨rfl, htail⟩ := List.cons.inj h
      obtain ⟨rfl, rfl, rfl⟩ := ih htail (List.forall_mem_cons.mp h₁).2
      exact ⟨rfl, rfl, rfl⟩

variable [DecidableEq ι] {tr : List (ι × Event S)}

/-- The programs that write, in the order of their writes. -/
theorem Exec.writers (hread : ∀ o s a s', W ⟨o, a⟩ = false → H o s a s' → s' = s)
    (h : Exec H s (tr.map Prod.snd) s')
    (hwrite : ∀ before i e after s₁ s₂, tr = before ++ (i, e) :: after → W e = true →
      Exec H s (before.map Prod.snd) s₁ → H e.op s₁ e.ans s₂ → s₂ = f i s₁)
    (honce : ∀ i, (of i tr).countP W ≤ 1) :
    ∃ order : List ι, order.Nodup ∧ (∀ i, i ∈ order ↔ ∃ e, (i, e) ∈ tr ∧ W e = true) ∧
      s' = compose f order s := by
  induction tr generalizing s with
  | nil => exact ⟨[], .nil, by simp, exec_nil_iff.mp h⟩
  | cons x tr ih =>
    obtain ⟨j, e⟩ := x
    obtain ⟨s₁, hstep, h⟩ := exec_cons_iff.mp h
    have hwrite' : ∀ before i e' after s₂ s₃, tr = before ++ (i, e') :: after → W e' = true →
        Exec H s₁ (before.map Prod.snd) s₂ → H e'.op s₂ e'.ans s₃ → s₃ = f i s₂ := by
      rintro before i e' after s₂ s₃ rfl hw hx hs
      exact hwrite ((j, e) :: before) i e' after s₂ s₃ rfl hw (.cons hstep hx) hs
    have honce' : ∀ i, (of i tr).countP W ≤ 1 := by
      intro i
      refine le_trans ?_ (honce i)
      rw [of_cons]
      split
      · exact (List.sublist_cons_self _ _).countP_le
      · exact le_rfl
    obtain ⟨order, hnodup, hmem, rfl⟩ := ih h hwrite' honce'
    cases hw : W e with
    | false =>
      obtain rfl := hread _ _ _ _ hw hstep
      refine ⟨order, hnodup, fun i => ?_, rfl⟩
      rw [hmem]
      constructor
      · rintro ⟨e', he', hw'⟩; exact ⟨e', List.mem_cons_of_mem _ he', hw'⟩
      · rintro ⟨e', he', hw'⟩
        rcases List.mem_cons.mp he' with heq | he'
        · obtain ⟨-, rfl⟩ := Prod.mk.inj heq
          rw [hw] at hw'; cases hw'
        · exact ⟨e', he', hw'⟩
    | true =>
      -- the second write of `j` would be one too many
      have hnot : j ∉ order := by
        rw [hmem]
        rintro ⟨e', he', hw'⟩
        have hpos : 0 < (of j tr).countP W := List.countP_pos_iff.mpr ⟨e', mem_of.mpr he', hw'⟩
        have hle := honce j
        rw [of_cons, if_pos rfl, List.countP_cons_of_pos hw] at hle
        omega
      refine ⟨j :: order, hnodup.cons hnot, fun i => ?_, ?_⟩
      · rw [List.mem_cons, hmem]
        constructor
        · rintro (rfl | ⟨e', he', hw'⟩)
          · exact ⟨e, List.mem_cons_self, hw⟩
          · exact ⟨e', List.mem_cons_of_mem _ he', hw'⟩
        · rintro ⟨e', he', hw'⟩
          rcases List.mem_cons.mp he' with heq | he'
          · exact .inl (Prod.mk.inj heq).1
          · exact .inr ⟨e', he', hw'⟩
      · rw [compose_cons, hwrite [] j e tr s s₁ rfl hw (.nil _) hstep]

/-- All programs, those that did not write last. -/
theorem Exec.serial [Fintype ι] (hread : ∀ o s a s', W ⟨o, a⟩ = false → H o s a s' → s' = s)
    (h : Exec H s (tr.map Prod.snd) s')
    (hwrite : ∀ before i e after s₁ s₂, tr = before ++ (i, e) :: after → W e = true →
      Exec H s (before.map Prod.snd) s₁ → H e.op s₁ e.ans s₂ → s₂ = f i s₁)
    (honce : ∀ i, (of i tr).countP W ≤ 1)
    (hidle : ∀ i, (∀ e ∈ of i tr, W e = false) → ∀ s, f i s = s) :
    ∃ order : List ι, order.Nodup ∧ (∀ i, i ∈ order) ∧ s' = compose f order s := by
  obtain ⟨order, hnodup, hmem, hs⟩ := h.writers hread hwrite honce
  let rest := (Finset.univ : Finset ι).toList.filter fun i => i ∉ order
  have hrest : ∀ i, i ∈ rest ↔ i ∉ order := by simp [rest]
  refine ⟨order ++ rest, ?_, fun i => ?_, ?_⟩
  · refine List.nodup_append.mpr ⟨hnodup, (Finset.nodup_toList _).filter _, ?_⟩
    rintro i hi j hj rfl
    exact (hrest i).mp hj hi
  · rw [List.mem_append, hrest]
    exact Decidable.em _
  · rw [compose_append, ← hs]
    refine (compose_eq_self (fun i hi => hidle i fun e he => ?_) s').symm
    by_contra hw
    exact (hrest i).mp hi ((hmem i).mpr ⟨e, mem_of.mp he, Bool.not_eq_false _ ▸ hw⟩)

end Interact
