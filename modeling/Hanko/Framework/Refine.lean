import Hanko.Framework.Pool

/-!
# Refinement between handlers

Two ways to answer the questions of an interface are compared through what
their states mean (`view`):

* `Refines`: every step of one is a step of the other, so every execution is
  (`Exec.refine`), and what holds of all executions of the abstract handler
  holds of the concrete one; runs of one program alone are runs of a pool
  (`Run.alone`, `Run.two`), and so are those by a schedule (`Run.scheduled`);
* `Sim`: a program that keeps to the questions an abstract handler allows, and
  whose result does not depend on more than the abstract handler determines,
  gives the same result over any two implementations of it (`Sim.exec_eq`).
-/

namespace Interact

variable {S T : Sig} {α β σ τ ω : Type}

/-- Every step of `H` is, seen through `view`, a step of `K`. -/
def Refines (H : Handler S σ) (K : Handler S τ) (view : σ → τ) : Prop :=
  ∀ o s a s', H o s a s' → K o (view s) a (view s')

theorem Exec.refine {H : Handler S σ} {K : Handler S τ} {view : σ → τ} (hr : Refines H K view)
    {s s' : σ} {es : List (Event S)} (h : Exec H s es s') : Exec K (view s) es (view s') := by
  induction h with
  | nil => exact .nil _
  | cons h _ ih => exact .cons (hr _ _ _ _ h) ih

theorem Refines.opened {H : Handler S σ} {K : Handler S τ} {view : σ → τ} (hr : Refines H K view) :
    Refines (Handler.opened T H) (Handler.opened T K) view
  | .inl o, s, a, s', h => hr o s a s' h
  | .inr _, _, _, _, h => congrArg view h

/-- A program of a pool, run alone by a function that answers as the handler
may. -/
theorem Run.alone {ι : Type} [DecidableEq ι] {h : (o : S.Op) → σ → S.Ans o × σ} {H : Handler S τ}
    {view : σ → τ} (hr : Refines (Handler.graph h) H view) (ps : ι → Prog S α) (i : ι) (s : σ) :
    ∃ es, Exec (Handler.graph h) s es ((ps i).exec h s).2 ∧ Run H ps (view s) (es.map (i, ·))
      (Function.update ps i (.ret ((ps i).exec h s).1)) (view ((ps i).exec h s).2) := by
  obtain ⟨es, he, hx⟩ := Prog.exec_ends h (ps i) s
  exact ⟨es, hx, .of_path he (hx.refine hr)⟩

/-- Two programs, one run after the other. -/
theorem Run.two {ι : Type} [DecidableEq ι] {h : (o : S.Op) → σ → S.Ans o × σ} {H : Handler S τ}
    {view : σ → τ} (hr : Refines (Handler.graph h) H view) (ps : ι → Prog S α) (s : σ) {i j : ι}
    (hij : i ≠ j) {a b : α} (h₁ : ((ps i).exec h s).1 = a)
    (h₂ : ((ps j).exec h ((ps i).exec h s).2).1 = b) :
    ∃ es es' s₁ s₂, Exec (Handler.graph h) s (es ++ es') s₂ ∧
      Run H ps (view s) (es.map (i, ·)) (Function.update ps i (.ret a)) (view s₁) ∧
      Run H (Function.update ps i (.ret a)) (view s₁) (es'.map (j, ·))
        (Function.update (Function.update ps i (.ret a)) j (.ret b)) (view s₂) := by
  obtain ⟨es, hx, hrun⟩ := Run.alone hr ps i s
  obtain ⟨es', hx', hrun'⟩ := Run.alone hr (Function.update ps i (.ret a)) j ((ps i).exec h s).2
  simp only [h₁, h₂, ne_eq, hij.symm, not_false_eq_true, Function.update_of_ne] at hx' hrun hrun'
  exact ⟨es, es', _, _, exec_append_iff.mpr ⟨_, hx, hx'⟩, hrun, hrun'⟩

/-- The programs of a pool by a schedule: at each step the program named takes
the next question, if it has not returned. -/
def scheduled {ι : Type} [DecidableEq ι] (h : (o : S.Op) → σ → S.Ans o × σ) :
    List ι → (ι → Prog S α) → σ → List (ι × Event S) × (ι → Prog S α) × σ
  | [], ps, s => ([], ps, s)
  | i :: is, ps, s =>
    match ps i with
    | .ret _ => scheduled h is ps s
    | .ask o k =>
      let next := scheduled h is (Function.update ps i (k (h o s).1)) (h o s).2
      ((i, ⟨o, (h o s).1⟩) :: next.1, next.2)

theorem Run.scheduled {ι : Type} [DecidableEq ι] {h : (o : S.Op) → σ → S.Ans o × σ} {H : Handler S τ}
    {view : σ → τ} (hr : Refines (Handler.graph h) H view) (is : List ι) (ps : ι → Prog S α) (s : σ) :
    Run H ps (view s) (scheduled h is ps s).1 (scheduled h is ps s).2.1 (view (scheduled h is ps s).2.2) := by
  induction is generalizing ps s with
  | nil => exact .nil _ _
  | cons i is ih =>
    rw [Interact.scheduled]
    split
    · exact ih ps s
    · rename_i o k hi
      exact .cons hi (hr o s _ _ rfl) (ih _ _)

/-- Two functions that answer the questions of two interfaces, each with its
own state. -/
def both (h : (o : S.Op) → σ → S.Ans o × σ) (g : (o : T.Op) → ω → T.Ans o × ω) :
    (o : (S.sum T).Op) → σ × ω → (S.sum T).Ans o × (σ × ω)
  | .inl o, (s, w) => ((h o s).1, ((h o s).2, w))
  | .inr o, (s, w) => ((g o w).1, (s, (g o w).2))

/-- The first of two functions, where the second is not looked at. -/
theorem Refines.both {h : (o : S.Op) → σ → S.Ans o × σ} {g : (o : T.Op) → ω → T.Ans o × ω}
    {K : Handler S σ} (hK : Refines (Handler.graph h) K id) :
    Refines (Handler.graph (both h g)) (Handler.opened T K) Prod.fst := by
  rintro (o | o) ⟨s, w⟩ a ⟨s', w'⟩ heq
  · have h₁ := Prod.mk.inj heq
    exact hK o s a s' (Prod.ext h₁.1 (Prod.mk.inj h₁.2).1)
  · exact (Prod.mk.inj (Prod.mk.inj heq).2).1.symm

/-- A program over the first interface leaves the state of the second alone. -/
theorem Prog.exec_inl (h : (o : S.Op) → σ → S.Ans o × σ) (g : (o : T.Op) → ω → T.Ans o × ω)
    (p : Prog S α) (s : σ) (w : ω) :
    (p.inl T).exec (both h g) (s, w) = ((p.exec h s).1, ((p.exec h s).2, w)) := by
  induction p generalizing s with
  | ret a => rfl
  | ask o k ih => exact ih _ _

/-- An interpreted program, run alone, runs the implementations. -/
theorem Prog.exec_interp (f : (o : S.Op) → Prog T (S.Ans o)) (h : (o : T.Op) → σ → T.Ans o × σ)
    (p : Prog S α) (s : σ) : (p.interp f).exec h s = p.exec (fun o => (f o).exec h) s := by
  induction p generalizing s with
  | ret a => rfl
  | ask o k ih => rw [Prog.interp, Prog.exec_bind, ih, Prog.exec_ask]

/-- `p` and `q` ask the same allowed questions and return the same result,
given answers that `A` relates and that the abstract handler `K` allows. -/
inductive Sim (K : Handler S τ) (P : S.Op → τ → Prop) (A : (o : S.Op) → S.Ans o → S.Ans o → Prop) :
    τ → Prog S α → Prog S α → Prop
  | ret (t : τ) (a : α) : Sim K P A t (.ret a) (.ret a)
  | ask {t : τ} {o : S.Op} {k k' : S.Ans o → Prog S α} : P o t →
    (∀ a b t', K o t a t' → A o a b → Sim K P A t' (k a) (k' b)) → Sim K P A t (.ask o k) (.ask o k')

section Sim

variable {K : Handler S τ} {P : S.Op → τ → Prop} {A : (o : S.Op) → S.Ans o → S.Ans o → Prop}

/-- `h` implements `K`, for the questions `P` allows, through `view`. -/
def Implements (K : Handler S τ) (P : S.Op → τ → Prop) (h : (o : S.Op) → σ → S.Ans o × σ)
    (view : σ → τ) : Prop :=
  ∀ o s, P o (view s) → K o (view s) (h o s).1 (view (h o s).2)

/-- Over two implementations of a handler that determines its answers up to
`A`, from states that mean the same, related programs return the same and
lead to states that mean the same. -/
theorem Sim.exec_eq {h : (o : S.Op) → σ → S.Ans o × σ} {g : (o : S.Op) → ω → S.Ans o × ω}
    {view : σ → τ} {view' : ω → τ} (hh : Implements K P h view) (hg : Implements K P g view')
    (hdet : ∀ o t a b t₁ t₂, K o t a t₁ → K o t b t₂ → A o a b ∧ t₁ = t₂)
    {t : τ} {p q : Prog S α} (hs : Sim K P A t p q) {s : σ} {w : ω} (ht : view s = t) (ht' : view' w = t) :
    (p.exec h s).1 = (q.exec g w).1 ∧ view (p.exec h s).2 = view' (q.exec g w).2 := by
  induction hs generalizing s w with
  | ret t a => exact ⟨rfl, ht.trans ht'.symm⟩
  | ask hP _ ih =>
    subst ht
    have hk := hh _ s hP
    have hk' := hg _ w (by rw [ht']; exact hP)
    rw [ht'] at hk'
    obtain ⟨hA, heq⟩ := hdet _ _ _ _ _ _ hk hk'
    exact ih _ _ _ hk hA rfl heq.symm

/-- A handler next to a function, each with its own state. -/
def Handler.beside (K : Handler S τ) (g : (o : T.Op) → ω → T.Ans o × ω) : Handler (S.sum T) (τ × ω)
  | .inl o, s, a, s' => K o s.1 a s'.1 ∧ s'.2 = s.2
  | .inr o, s, a, s' => g o s.2 = (a, s'.2) ∧ s'.1 = s.1

/-- The questions allowed of the first of two interfaces, and all of the second. -/
def onFirst (P : S.Op → τ → Prop) : (S.sum T).Op → τ × ω → Prop
  | .inl o, s => P o s.1
  | .inr _, _ => True

theorem Implements.beside {h : (o : S.Op) → σ → S.Ans o × σ} {view : σ → τ} (hK : Implements K P h view)
    (g : (o : T.Op) → ω → T.Ans o × ω) :
    Implements (K.beside g) (onFirst P) (both h g) fun s => (view s.1, s.2)
  | .inl o, (s, _), hP => ⟨hK o s hP, rfl⟩
  | .inr _, _, _ => ⟨rfl, rfl⟩

theorem Sim.bind {t : τ} {p q : Prog S α} {f g : α → Prog S β} {I : τ → Prop} (h : Sim K P A t p q)
    (ht : I t) (hI : ∀ o t a t', P o t → K o t a t' → I t → I t')
    (hf : ∀ t a, I t → Sim K P A t (f a) (g a)) : Sim K P A t (p.bind f) (q.bind g) := by
  induction h with
  | ret t a => exact hf t a ht
  | ask hP _ ih => exact .ask hP fun a b t' hk hA => ih a b t' hk hA (hI _ _ _ _ hP hk ht)

/-- What is always so when a question is asked may be required of it. -/
theorem Sim.restrict {P' : S.Op → τ → Prop} {Q : S.Op → Prop} {I : τ → Prop} {t : τ} {p q : Prog S α}
    (h : Sim K P A t p q)
    (hp : p.Asks Q) (ht : I t) (hI : ∀ o t a t', K o t a t' → I t → I t') (hP : ∀ o t, Q o → I t → P o t → P' o t) :
    Sim K P' A t p q := by
  induction h with
  | ret t a => exact .ret t a
  | @ask t o k k' hask _ ih =>
    exact .ask (hP o t hp.1 ht hask) fun a b t' hk hA => ih a b t' hk hA (hp.2 a) (hI o t a t' hk ht)

end Sim

end Interact
