import Hanko.Framework.Refine

/-!
# Programs that stop early, and programs that keep a state of their own

A program over `S` that may stop with an `ε` is an `ExceptT ε (Prog S)`:
`ends_exceptBind` says how two of them run one after the other. `Prog.trace` is
the path of a program that runs alone, to exhibit runs (`Run.traced`).

Where the operations of one interface are implemented by programs over another,
an execution of those is one of the implemented operations (`Handler.through`,
`Covers.exec`).

A program over two interfaces may answer the questions of the first itself,
from a state that nobody else sees (`Prog.handle`). Its paths are those of the
program whose questions of the first interface are answered by that state
(`Ends.of_handle`), so that what other programs do plays no part in them.
-/

namespace Interact

variable {S T U : Sig} {ε α β σ τ : Type}

/-! ## Stopping -/

/-- The second program is run if the first has not stopped. -/
theorem ends_exceptBind {x : ExceptT ε (Prog S) α} {f : α → ExceptT ε (Prog S) β} {es : List (Event S)}
    {r : Except ε β} : (x >>= f).run.Ends es r ↔ (∃ e, x.run.Ends es (.error e) ∧ r = .error e) ∨
      ∃ es₁ es₂ a, es = es₁ ++ es₂ ∧ x.run.Ends es₁ (.ok a) ∧ (f a).run.Ends es₂ r := by
  refine (ends_bind (p := x.run) (f := ExceptT.bindCont f)).trans ?_
  constructor
  · rintro ⟨es₁, es₂, e | a, rfl, h₁, h₂⟩
    · obtain ⟨rfl, rfl⟩ := ends_ret.mp h₂
      exact .inl ⟨e, by simpa using h₁, rfl⟩
    · exact .inr ⟨es₁, es₂, a, rfl, h₁, h₂⟩
  · rintro (⟨e, h, rfl⟩ | ⟨es₁, es₂, a, rfl, h₁, h₂⟩)
    · exact ⟨es, [], .error e, by simp, h, ends_ret.mpr ⟨rfl, rfl⟩⟩
    · exact ⟨es₁, es₂, .ok a, rfl, h₁, h₂⟩

/-- A program that does not stop. -/
theorem ends_exceptLift {p : Prog S α} {es : List (Event S)} {r : Except ε α} :
    (ExceptT.lift p : ExceptT ε (Prog S) α).run.Ends es r ↔ ∃ a, p.Ends es a ∧ r = .ok a :=
  ends_map

theorem ends_exceptPure {a : α} {es : List (Event S)} {r : Except ε α} :
    (pure a : ExceptT ε (Prog S) α).run.Ends es r ↔ es = [] ∧ r = .ok a :=
  ends_ret

theorem ends_exceptThrow {e : ε} {es : List (Event S)} {r : Except ε α} :
    (throw e : ExceptT ε (Prog S) α).run.Ends es r ↔ es = [] ∧ r = .error e :=
  ends_ret

theorem asks_exceptBind {Q : S.Op → Prop} {x : ExceptT ε (Prog S) α} {f : α → ExceptT ε (Prog S) β}
    (hx : x.run.Asks Q) (hf : ∀ a, (f a).run.Asks Q) : (x >>= f).run.Asks Q := by
  refine asks_bind (p := x.run) (f := ExceptT.bindCont f) hx fun r => ?_
  cases r with
  | error e => exact asks_ret _
  | ok a => exact hf a

/-! ## Running alone -/

/-- The events of a program that is run alone. -/
def Prog.trace (h : (o : S.Op) → σ → S.Ans o × σ) : Prog S α → σ → List (Event S)
  | .ret _, _ => []
  | .ask o k, s => ⟨o, (h o s).1⟩ :: (k (h o s).1).trace h (h o s).2

section Alone

variable {h : (o : S.Op) → σ → S.Ans o × σ}

theorem Prog.trace_ends (p : Prog S α) (s : σ) :
    p.Ends (p.trace h s) (p.exec h s).1 ∧ Exec (Handler.graph h) s (p.trace h s) (p.exec h s).2 := by
  induction p generalizing s with
  | ret a => exact ⟨.nil _, .nil _⟩
  | ask o k ih =>
    obtain ⟨hends, hexec⟩ := ih (h o s).1 (h o s).2
    exact ⟨.cons hends, .cons rfl hexec⟩

theorem Prog.trace_bind (p : Prog S α) (f : α → Prog S β) (s : σ) :
    (p.bind f).trace h s = p.trace h s ++ (f (p.exec h s).1).trace h (p.exec h s).2 := by
  induction p generalizing s with
  | ret a => rfl
  | ask o k ih => exact congrArg (_ :: ·) (ih _ _)

variable {x : ExceptT ε (Prog S) α} {f : α → ExceptT ε (Prog S) β} {s s' : σ} {a : α}

theorem exec_exceptBind (hx : x.run.exec h s = (.ok a, s')) : (x >>= f).run.exec h s = (f a).run.exec h s' := by
  refine (Prog.exec_bind h x.run (ExceptT.bindCont f) s).trans ?_
  rw [hx]
  rfl

theorem trace_exceptBind (hx : x.run.exec h s = (.ok a, s')) :
    (x >>= f).run.trace h s = x.run.trace h s ++ (f a).run.trace h s' := by
  refine (Prog.trace_bind x.run (ExceptT.bindCont f) s).trans ?_
  rw [hx]
  rfl

theorem of_map_self {ι : Type} [DecidableEq ι] (i : ι) (es : List (Event S)) : of i (es.map (i, ·)) = es := by
  induction es with
  | nil => rfl
  | cons e es ih => rw [List.map_cons, of_cons, if_pos rfl, ih]

/-- A program of a pool, run alone by a function that answers as the handler
may. -/
theorem Run.traced {ι : Type} [DecidableEq ι] {H : Handler S τ} {view : σ → τ} (hr : Refines (Handler.graph h) H view)
    (ps : ι → Prog S α) (i : ι) (s : σ) : Run H ps (view s) (((ps i).trace h s).map (i, ·))
      (Function.update ps i (.ret ((ps i).exec h s).1)) (view ((ps i).exec h s).2) := by
  obtain ⟨hends, hexec⟩ := (ps i).trace_ends (h := h) s
  exact .of_path hends (hexec.refine hr)

end Alone

/-- A program that ends along an execution of a function, run alone. -/
theorem Ends.exec_eq {p : Prog S α} {es : List (Event S)} {s s' : σ} {a : α}
    {h : (o : S.Op) → σ → S.Ans o × σ} (he : p.Ends es a) (hx : Exec (Handler.graph h) s es s') :
    p.exec h s = (a, s') := by
  induction p generalizing es s with
  | ret b =>
    obtain ⟨rfl, rfl⟩ := ends_ret.mp he
    rw [exec_nil_iff.mp hx, Prog.exec_ret]
  | ask o k ih =>
    obtain ⟨b, es', rfl, he'⟩ := ends_ask.mp he
    obtain ⟨s₁, hstep, hx'⟩ := exec_cons_iff.mp hx
    rw [Prog.exec_ask, show h o s = (b, s₁) from hstep]
    exact ih b he' hx'

/-! ## Implementations -/

/-- The questions of `S`, each answered by a program over `T`. -/
def Handler.through (f : (o : S.Op) → Prog T (S.Ans o)) (H : Handler T σ) : Handler S σ := fun o s a s' =>
  ∃ es, (f o).Ends es a ∧ Exec H s es s'

theorem Covers.exec {f : (o : S.Op) → Prog T (S.Ans o)} {H : Handler T σ} {es : List (Event S)} {fs : List (Event T)}
    {s s' : σ} (hc : Covers f es fs) (hx : Exec H s fs s') : Exec (H.through f) s es s' := by
  induction hc generalizing s with
  | nil =>
    rw [exec_nil_iff.mp hx]
    exact .nil _
  | cons hg _ ih =>
    obtain ⟨s₁, hx₁, hx₂⟩ := exec_append_iff.mp hx
    exact .cons ⟨_, hg, hx₁⟩ (ih hx₂)

/-- The events of the first interface, answered by its handler. -/
theorem exec_opened_inl {H : Handler S σ} {es : List (Event S)} {s s' : σ} :
    Exec (Handler.opened T H) s (es.map fun e => ⟨.inl e.op, e.ans⟩) s' ↔ Exec H s es s' := by
  induction es generalizing s with
  | nil => simp
  | cons e es ih =>
    simp only [List.map_cons, exec_cons_iff, ih]
    rfl

/-! ## A state of its own -/

/-- The questions of `S` answered from a state that the program keeps, those of
`T` by programs over `U`. -/
def Prog.handle (h : (o : S.Op) → σ → S.Ans o × σ) (f : (o : T.Op) → Prog U (T.Ans o)) :
    Prog (S.sum T) α → σ → Prog U α
  | .ret a, _ => .ret a
  | .ask (.inl o) k, s => (k (h o s).1).handle h f (h o s).2
  | .ask (.inr o) k, s => (f o).bind fun a => (k a).handle h f s

/-- The events of the second interface. -/
def rights (es : List (Event (S.sum T))) : List (Event T) :=
  es.filterMap fun
    | ⟨.inl _, _⟩ => none
    | ⟨.inr o, a⟩ => some ⟨o, a⟩

theorem Ends.of_handle {h : (o : S.Op) → σ → S.Ans o × σ} {f : (o : T.Op) → Prog U (T.Ans o)}
    {p : Prog (S.sum T) α} {s : σ} {fs : List (Event U)} {a : α} (he : (p.handle h f s).Ends fs a) :
    ∃ es s', p.Ends es a ∧ Exec (Handler.opened T (Handler.graph h)) s es s' ∧ Covers f (rights es) fs := by
  induction p generalizing s fs with
  | ret b =>
    obtain ⟨rfl, rfl⟩ := ends_ret.mp he
    exact ⟨[], s, ends_ret.mpr ⟨rfl, rfl⟩, .nil _, .nil⟩
  | ask o k ih =>
    cases o with
    | inl o =>
      obtain ⟨es, s', hp, hx, hc⟩ := ih _ he
      exact ⟨⟨.inl o, (h o s).1⟩ :: es, s', ends_ask.mpr ⟨_, es, rfl, hp⟩, .cons rfl hx, hc⟩
    | inr o =>
      obtain ⟨gs, fs', b, rfl, hg, hf⟩ := ends_bind.mp he
      obtain ⟨es, s', hp, hx, hc⟩ := ih b hf
      exact ⟨⟨.inr o, b⟩ :: es, s', ends_ask.mpr ⟨b, es, rfl, hp⟩, .cons rfl hx, .cons hg hc⟩

theorem asks_inl {U : Sig} {Q : (S.sum U).Op → Prop} (h : ∀ o, Q (.inl o)) (p : Prog S α) : (p.inl U).Asks Q := by
  induction p with
  | ret a => exact asks_ret _
  | ask o k ih => exact ⟨h o, ih⟩

theorem asks_interp {Q : T.Op → Prop} {f : (o : S.Op) → Prog T (S.Ans o)} (hf : ∀ o, (f o).Asks Q) (p : Prog S α) :
    (p.interp f).Asks Q := by
  induction p with
  | ret a => exact asks_ret _
  | ask o k ih => exact asks_bind (hf o) ih

theorem asks_handle {Q : U.Op → Prop} {h : (o : S.Op) → σ → S.Ans o × σ} {f : (o : T.Op) → Prog U (T.Ans o)}
    (hf : ∀ o, (f o).Asks Q) (p : Prog (S.sum T) α) (s : σ) : (p.handle h f s).Asks Q := by
  induction p generalizing s with
  | ret a => exact asks_ret _
  | ask o k ih =>
    cases o with
    | inl o => exact ih _ _
    | inr o => exact asks_bind (hf o) fun a => ih a s

end Interact
