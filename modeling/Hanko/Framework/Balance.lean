import Hanko.Framework.Pool

/-!
# Things that change hands

Accounts of how often a thing is taken and given away:

* `Exec.balance`: in a state that holds things, if every event changes their
  number by what it brings and what it takes;
* `Path.balance`: in a program that takes one thing at a time and gives it
  away with its next question (`Prog.Carries`);
* `countP_of_eq`, `sum_countP_of`: in a pool, if only one program deals with
  the thing, and of all programs together.
-/

namespace Interact

variable {S : Sig} {α β γ ι σ : Type}

theorem countP_cons_toNat (P : γ → Bool) (x : γ) (xs : List γ) :
    (x :: xs).countP P = xs.countP P + (P x).toNat := by
  rw [List.countP_cons]
  cases P x <;> rfl

theorem count_toList [DecidableEq γ] (o : Option γ) (x : γ) : o.toList.count x = (o == some x).toNat := by
  cases o with
  | none => rfl
  | some y =>
    change [y].count x = (y == x).toNat
    rw [List.count_singleton]
    cases y == x <;> rfl

theorem Exec.balance {H : Handler S σ} {f : σ → Nat} {P Q : Event S → Bool}
    (hstep : ∀ o s a s', H o s a s' → f s + (P ⟨o, a⟩).toNat = f s' + (Q ⟨o, a⟩).toNat) {s s' : σ}
    {es : List (Event S)} (h : Exec H s es s') : f s + es.countP P = f s' + es.countP Q := by
  induction h with
  | nil => rfl
  | @cons s s₁ s' e es h _ ih =>
    have hs : f s + (P e).toNat = f s₁ + (Q e).toNat := hstep _ _ _ _ h
    rw [countP_cons_toNat, countP_cons_toNat]
    omega

/-- A program that has in hand what `held` says: it gives it away with its next
question, and may take something with the answer. It returns empty-handed. -/
def Prog.Carries (gives : S.Op → Option γ) (takes : (o : S.Op) → S.Ans o → Option γ) :
    Prog S α → Option γ → Prop
  | .ret _, held => held = none
  | .ask o k, held => held = gives o ∧ ∀ a, (k a).Carries gives takes (takes o a)

section Carries

variable {gives : S.Op → Option γ} {takes : (o : S.Op) → S.Ans o → Option γ}

/-- A program that neither takes nor gives. -/
theorem carries_of_asks {p : Prog S α} (h : p.Asks fun o => gives o = none ∧ ∀ a, takes o a = none) :
    p.Carries gives takes none := by
  induction p with
  | ret a => rfl
  | ask o k ih =>
    refine ⟨h.1.1.symm, fun a => ?_⟩
    rw [h.1.2 a]
    exact ih a (h.2 a)

theorem carries_bind {p : Prog S α} {f : α → Prog S β} {held : Option γ} (hp : p.Carries gives takes held)
    (hf : ∀ a, (f a).Carries gives takes none) : (p.bind f).Carries gives takes held := by
  induction p generalizing held with
  | ret a =>
    obtain rfl : held = none := hp
    exact hf a
  | ask o k ih => exact ⟨hp.1, fun a => ih a (hp.2 a)⟩

theorem Path.balance [DecidableEq γ] {p q : Prog S α} {es : List (Event S)} {held : Option γ}
    (h : Path p es q) (hp : p.Carries gives takes held) (x : γ) :
    ∃ held', q.Carries gives takes held' ∧
      (held == some x).toNat + es.countP (fun e => takes e.op e.ans == some x) =
        es.countP (fun e => gives e.op == some x) + (held' == some x).toNat := by
  induction h generalizing held with
  | nil p => exact ⟨held, hp, by simp⟩
  | @cons o k a es q _ ih =>
    obtain ⟨rfl, hk⟩ := hp
    obtain ⟨held', hq, hcount⟩ := ih (hk a)
    refine ⟨held', hq, ?_⟩
    simp only [countP_cons_toNat]
    omega

end Carries

/-- Events that only one program of a pool has are counted in its own. -/
theorem countP_of_eq [DecidableEq ι] {i : ι} {P : Event S → Bool} {tr : List (ι × Event S)}
    (h : ∀ x ∈ tr, P x.2 = true → x.1 = i) : (of i tr).countP P = (tr.map Prod.snd).countP P := by
  induction tr with
  | nil => rfl
  | cons x tr ih =>
    obtain ⟨j, e⟩ := x
    obtain ⟨hx, htr⟩ := List.forall_mem_cons.mp h
    rw [of_cons, List.map_cons, List.countP_cons, ← ih htr]
    split
    · rw [List.countP_cons]
    · rename_i hj
      rw [if_neg fun he => hj (hx he)]
      rfl

/-- Every event of a trace is counted with one program of a pool. -/
theorem sum_countP_of [DecidableEq ι] [Fintype ι] (P : Event S → Bool) (tr : List (ι × Event S)) :
    ∑ i, (of i tr).countP P = (tr.map Prod.snd).countP P := by
  induction tr with
  | nil => simp
  | cons x tr ih =>
    obtain ⟨j, e⟩ := x
    have hof : ∀ i, (of i ((j, e) :: tr)).countP P = (of i tr).countP P + if j = i then (P e).toNat else 0 := by
      intro i
      rw [of_cons]
      split
      · rw [countP_cons_toNat]
      · rfl
    rw [List.map_cons, countP_cons_toNat, ← ih, Finset.sum_congr rfl fun i _ => hof i, Finset.sum_add_distrib,
      Finset.sum_ite_eq, if_pos (Finset.mem_univ j)]

end Interact
