import Hanko.Framework.Prog

/-!
# Concurrent programs

A pool of programs shares the state of one `Handler`. A run (`Run`) picks, at
each step, any program that has not returned, and has its next question
answered: the questions are atomic, and nothing else is assumed of their
order. A run is, for each program, one of its paths (`Run.path`), and for the
handler an execution of all the events (`Run.exec`), so that what a program
does and what the state allows are argued separately.

* `Run.append`: what happens after a point of a run is a run from the
  configuration at that point.
* `of_sublist`, `countP_of_add_le`: how the events of one program, and of two,
  stand in the trace.
* `Run.of_path`: a program that runs alone, to exhibit runs.
-/

namespace Interact

variable {S : Sig} {α ι σ : Type} [DecidableEq ι]

/-- `Run H ps s tr ps' s'`: from the programs `ps` and the state `s`, the
events `tr`, each of the program it names, lead to `ps'` and `s'`. -/
inductive Run (H : Handler S σ) :
    (ι → Prog S α) → σ → List (ι × Event S) → (ι → Prog S α) → σ → Prop
  | nil (ps : ι → Prog S α) (s : σ) : Run H ps s [] ps s
  | cons {ps ps' : ι → Prog S α} {s s₁ s' : σ} {i : ι} {o : S.Op} {k : S.Ans o → Prog S α}
      {a : S.Ans o} {tr : List (ι × Event S)} : ps i = .ask o k → H o s a s₁ →
    Run H (Function.update ps i (k a)) s₁ tr ps' s' → Run H ps s ((i, ⟨o, a⟩) :: tr) ps' s'

/-- The events of program `i` in a trace. -/
def of (i : ι) (tr : List (ι × Event S)) : List (Event S) :=
  (tr.filter fun x => x.1 = i).map Prod.snd

@[simp] theorem of_nil (i : ι) : of i ([] : List (ι × Event S)) = [] := rfl

@[simp] theorem of_append (i : ι) (tr tr' : List (ι × Event S)) :
    of i (tr ++ tr') = of i tr ++ of i tr' := by
  simp [of]

theorem of_cons (i j : ι) (e : Event S) (tr : List (ι × Event S)) :
    of i ((j, e) :: tr) = if j = i then e :: of i tr else of i tr := by
  by_cases h : j = i <;> simp [of, h]

theorem of_map_ne {i j : ι} (h : j ≠ i) (es : List (Event S)) : of i (es.map (j, ·)) = [] := by
  induction es with
  | nil => rfl
  | cons e es ih => rw [List.map_cons, of_cons, if_neg h, ih]

theorem mem_of {i : ι} {e : Event S} {tr : List (ι × Event S)} : e ∈ of i tr ↔ (i, e) ∈ tr := by
  simp only [of, List.mem_map, List.mem_filter, decide_eq_true_eq, Prod.exists]
  constructor
  · rintro ⟨j, e', ⟨h, rfl⟩, rfl⟩; exact h
  · intro h; exact ⟨i, e, ⟨h, rfl⟩, rfl⟩

theorem of_sublist (i : ι) (tr : List (ι × Event S)) : (of i tr).Sublist (tr.map Prod.snd) :=
  List.filter_sublist.map _

/-- Two programs' events are different events of the trace. -/
theorem countP_of_add_le {i j : ι} (h : i ≠ j) (P : Event S → Bool) (tr : List (ι × Event S)) :
    (of i tr).countP P + (of j tr).countP P ≤ (tr.map Prod.snd).countP P := by
  induction tr with
  | nil => simp
  | cons x tr ih =>
    obtain ⟨l, e⟩ := x
    simp only [of_cons, List.map_cons, List.countP_cons]
    by_cases hi : l = i
    · have hj : l ≠ j := hi ▸ h
      simp only [hi, ↓reduceIte, h, List.countP_cons]; omega
    · by_cases hj : l = j
      · simp only [hj, ↓reduceIte, Ne.symm h, List.countP_cons]; omega
      · simp only [hi, hj, ↓reduceIte]; omega

namespace Run

variable {H : Handler S σ} {ps ps₁ ps' : ι → Prog S α} {s s₁ s' : σ} {tr tr' : List (ι × Event S)}

/-- The events of each program are a path of it. -/
theorem path (h : Run H ps s tr ps' s') (i : ι) : Path (ps i) (of i tr) (ps' i) := by
  induction h with
  | nil => exact .nil _
  | @cons ps ps' s s₁ s' j o k a tr hj _ _ ih =>
    rw [of_cons]
    by_cases hij : j = i
    · subst hij
      rw [if_pos rfl, hj]
      exact .cons (by simpa using ih)
    · rw [if_neg hij]
      simpa [Function.update_of_ne (Ne.symm hij)] using ih

/-- The events of all programs are an execution of the handler. -/
theorem exec (h : Run H ps s tr ps' s') : Exec H s (tr.map Prod.snd) s' := by
  induction h with
  | nil => exact .nil _
  | cons _ h _ ih => exact .cons h ih

/-- A program that has returned did so along its events. -/
theorem ends (h : Run H ps s tr ps' s') {i : ι} {a : α} (hi : ps' i = .ret a) :
    (ps i).Ends (of i tr) a := by
  have hp := h.path i
  rwa [hi] at hp

theorem append (h : Run H ps s tr ps₁ s₁) (h' : Run H ps₁ s₁ tr' ps' s') :
    Run H ps s (tr ++ tr') ps' s' := by
  induction h with
  | nil => exact h'
  | cons hi ha _ ih => exact .cons hi ha (ih h')

/-- A property of programs and state that every step keeps. -/
theorem invariant {I : (ι → Prog S α) → σ → Prop}
    (hI : ∀ ps s i o k a s₁, ps i = .ask o k → H o s a s₁ → I ps s → I (Function.update ps i (k a)) s₁)
    (h : Run H ps s tr ps' s') (hs : I ps s) : I ps' s' := by
  induction h with
  | nil => exact hs
  | cons hi ha _ ih => exact ih (hI _ _ _ _ _ _ _ hi ha hs)

/-- A program running alone along one of its paths. -/
theorem of_path {i : ι} {es : List (Event S)} {q : Prog S α} (hp : Path (ps i) es q)
    (hx : Exec H s es s') : Run H ps s (es.map (i, ·)) (Function.update ps i q) s' := by
  generalize hpi : ps i = p at hp
  induction hp generalizing ps s with
  | nil p =>
    obtain rfl := exec_nil_iff.mp hx
    rw [← hpi, Function.update_eq_self]
    exact .nil _ _
  | @cons o k a es q _ ih =>
    obtain ⟨s₁, ha, hx⟩ := exec_cons_iff.mp hx
    have h := @ih (Function.update ps i (k a)) _ hx (by simp)
    rw [Function.update_idem] at h
    exact .cons hpi ha h

end Run

end Interact
