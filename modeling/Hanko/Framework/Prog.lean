import Mathlib

/-!
# Programs over an interface

A program asks its environment questions (the operations of a `Sig`) and
goes on with the answers (`Prog`). Its meaning is the set of its paths
(`Path`): the questions and answers of an execution, in order. What answers
the questions is given separately, as a relation on a state (`Handler`,
`Exec`) or, for one program running alone, as a function (`Prog.exec`).

What a program may ask, whatever it is answered, is said by `Prog.Asks`.

An implementation of one interface by programs over another turns programs
over the first into programs over the second (`Prog.interp`), and every path
of the result comes from a path of the original (`Ends.of_interp`).
-/

namespace Interact

/-- An interface: its operations, and what each of them answers. -/
structure Sig where
  Op : Type
  Ans : Op → Type

/-- The operations of two interfaces. -/
abbrev Sig.sum (S T : Sig) : Sig where
  Op := S.Op ⊕ T.Op
  Ans
    | .inl o => S.Ans o
    | .inr o => T.Ans o

/-- A program over the interface `S` that returns an `α`. -/
inductive Prog (S : Sig) (α : Type) where
  | ret (a : α)
  | ask (o : S.Op) (k : S.Ans o → Prog S α)

variable {S T : Sig} {α β σ : Type}

namespace Prog

def bind : Prog S α → (α → Prog S β) → Prog S β
  | .ret a, f => f a
  | .ask o k, f => .ask o fun a => (k a).bind f

instance : Monad (Prog S) where
  pure := .ret
  bind := .bind

/-- The program that asks one question and returns the answer. -/
def call (o : S.Op) : Prog S (S.Ans o) := .ask o .ret

@[simp] theorem pure_eq (a : α) : (pure a : Prog S α) = .ret a := rfl
@[simp] theorem bind_eq (p : Prog S α) (f : α → Prog S β) : p >>= f = p.bind f := rfl
@[simp] theorem ret_bind (a : α) (f : α → Prog S β) : (Prog.ret a).bind f = f a := rfl
@[simp] theorem ask_bind (o : S.Op) (k : S.Ans o → Prog S α) (f : α → Prog S β) :
    (Prog.ask o k).bind f = .ask o fun a => (k a).bind f := rfl
@[simp] theorem map_eq (f : α → β) (p : Prog S α) : f <$> p = p.bind fun a => .ret (f a) := rfl

/-- A program run alone, its questions answered by a function of the state. -/
def exec (h : (o : S.Op) → σ → S.Ans o × σ) : Prog S α → σ → α × σ
  | .ret a, s => (a, s)
  | .ask o k, s => (k (h o s).1).exec h (h o s).2

@[simp] theorem exec_ret (h : (o : S.Op) → σ → S.Ans o × σ) (a : α) (s : σ) :
    (Prog.ret a).exec h s = (a, s) := rfl

@[simp] theorem exec_ask (h : (o : S.Op) → σ → S.Ans o × σ) (o : S.Op) (k : S.Ans o → Prog S α)
    (s : σ) : (Prog.ask o k).exec h s = (k (h o s).1).exec h (h o s).2 := rfl

theorem exec_bind (h : (o : S.Op) → σ → S.Ans o × σ) (p : Prog S α) (f : α → Prog S β) (s : σ) :
    (p.bind f).exec h s = (f (p.exec h s).1).exec h (p.exec h s).2 := by
  induction p generalizing s with
  | ret a => rfl
  | ask o k ih => exact ih _ _

/-- The implementation of each operation of `S` by a program over `T`. -/
def interp (f : (o : S.Op) → Prog T (S.Ans o)) : Prog S α → Prog T α
  | .ret a => .ret a
  | .ask o k => (f o).bind fun a => (k a).interp f

/-- A program over one of two interfaces. -/
def inl (U : Sig) : Prog T α → Prog (T.sum U) α
  | .ret a => .ret a
  | .ask o k => .ask (.inl o) fun a => (k a).inl U

/-- An implementation of one of two interfaces; the other is passed on. -/
def lift (U : Sig) (f : (o : S.Op) → Prog T (S.Ans o)) : (o : (S.sum U).Op) → Prog (T.sum U) ((S.sum U).Ans o)
  | .inl o => (f o).inl U
  | .inr o => .call (S := T.sum U) (.inr o)

/-- One program after the other. -/
def all : List (Prog S α) → Prog S (List α)
  | [] => .ret []
  | p :: ps => p.bind fun a => (all ps).bind fun as => .ret (a :: as)

theorem exec_all_cons (h : (o : S.Op) → σ → S.Ans o × σ) (p : Prog S α) (ps : List (Prog S α)) (s : σ) :
    (all (p :: ps)).exec h s = ((p.exec h s).1 :: ((all ps).exec h (p.exec h s).2).1,
      ((all ps).exec h (p.exec h s).2).2) := by
  rw [all, exec_bind, exec_bind, exec_ret]

/-- The state after one program more. -/
theorem exec_all_snoc (h : (o : S.Op) → σ → S.Ans o × σ) (ps : List (Prog S α)) (p : Prog S α) (s : σ) :
    ((all (ps ++ [p])).exec h s).2 = (p.exec h ((all ps).exec h s).2).2 := by
  induction ps generalizing s with
  | nil => rw [List.nil_append, exec_all_cons]; rfl
  | cons q ps ih => rw [List.cons_append, exec_all_cons, exec_all_cons, ih]

end Prog

/-- Every question of the program satisfies `Q`, whatever the answers are. -/
def Prog.Asks (Q : S.Op → Prop) : Prog S α → Prop
  | .ret _ => True
  | .ask o k => Q o ∧ ∀ a, (k a).Asks Q

section Asks

variable {Q R : S.Op → Prop}

@[simp] theorem asks_ret (a : α) : (Prog.ret a : Prog S α).Asks Q := trivial

@[simp] theorem asks_ask {o : S.Op} {k : S.Ans o → Prog S α} :
    (Prog.ask o k).Asks Q ↔ Q o ∧ ∀ a, (k a).Asks Q := Iff.rfl

theorem asks_bind {p : Prog S α} {f : α → Prog S β} (hp : p.Asks Q) (hf : ∀ a, (f a).Asks Q) :
    (p.bind f).Asks Q := by
  induction p with
  | ret a => exact hf a
  | ask o k ih => exact ⟨hp.1, fun a => ih a (hp.2 a)⟩

theorem Prog.Asks.mono {p : Prog S α} (h : p.Asks Q) (hQ : ∀ o, Q o → R o) : p.Asks R := by
  induction p with
  | ret a => trivial
  | ask o k ih => exact ⟨hQ o h.1, fun a => ih a (h.2 a)⟩

/-- A program returns the same from states that its questions do not tell
apart. -/
theorem Prog.Asks.exec_eq {h : (o : S.Op) → σ → S.Ans o × σ} {I : σ → σ → Prop}
    (hI : ∀ o s t, Q o → I s t → (h o s).1 = (h o t).1 ∧ I (h o s).2 (h o t).2) {p : Prog S α}
    (hp : p.Asks Q) {s t : σ} (hst : I s t) : (p.exec h s).1 = (p.exec h t).1 := by
  induction p generalizing s t with
  | ret a => rfl
  | ask o k ih =>
    obtain ⟨hans, hnext⟩ := hI o s t hp.1 hst
    rw [Prog.exec_ask, Prog.exec_ask, ← hans]
    exact ih _ (hp.2 _) hnext

end Asks

/-- A question together with its answer. -/
structure Event (S : Sig) where
  op : S.Op
  ans : S.Ans op

/-- `Path p es q`: asking the questions of `es` and given their answers, the
program `p` gets to `q`. -/
inductive Path : Prog S α → List (Event S) → Prog S α → Prop
  | nil (p : Prog S α) : Path p [] p
  | cons {o : S.Op} {k : S.Ans o → Prog S α} {a : S.Ans o} {es : List (Event S)} {q : Prog S α} :
    Path (k a) es q → Path (.ask o k) (⟨o, a⟩ :: es) q

/-- `p` returns `a` along `es`. -/
def Prog.Ends (p : Prog S α) (es : List (Event S)) (a : α) : Prop := Path p es (.ret a)

/-- The events of a path are questions of the program. -/
theorem Path.asks {Q : S.Op → Prop} {p q : Prog S α} {es : List (Event S)} (h : Path p es q)
    (hp : p.Asks Q) : ∀ e ∈ es, Q e.op := by
  induction h with
  | nil => simp
  | cons _ ih => exact List.forall_mem_cons.mpr ⟨hp.1, ih (hp.2 _)⟩

theorem path_ret {a : α} {es : List (Event S)} {q : Prog S α} :
    Path (.ret a) es q ↔ es = [] ∧ q = .ret a := by
  constructor
  · rintro ⟨⟩; exact ⟨rfl, rfl⟩
  · rintro ⟨rfl, rfl⟩; exact .nil _

@[simp] theorem ends_ret {a b : α} {es : List (Event S)} :
    (Prog.ret a).Ends es b ↔ es = [] ∧ b = a := by
  simp [Prog.Ends, path_ret]

/-- A program that asks goes on with the answer. -/
@[simp] theorem ends_ask {o : S.Op} {k : S.Ans o → Prog S α} {es : List (Event S)} {b : α} :
    (Prog.ask o k).Ends es b ↔ ∃ a es', es = ⟨o, a⟩ :: es' ∧ (k a).Ends es' b := by
  constructor
  · intro h; cases h with
    | cons h => exact ⟨_, _, rfl, h⟩
  · rintro ⟨a, es', rfl, h⟩; exact .cons h

theorem ends_inl {U : Sig} {p : Prog T α} {es : List (Event (T.sum U))} {a : α} :
    (p.inl U).Ends es a ↔ ∃ fs, p.Ends fs a ∧ es = fs.map fun e => ⟨.inl e.op, e.ans⟩ := by
  induction p generalizing es with
  | ret b => simp [Prog.inl, and_comm]
  | ask o k ih =>
    simp only [Prog.inl, ends_ask, ih]
    constructor
    · rintro ⟨b, _, rfl, fs, hf, rfl⟩
      exact ⟨⟨o, b⟩ :: fs, ⟨b, fs, rfl, hf⟩, rfl⟩
    · rintro ⟨_, ⟨b, fs, rfl, hf⟩, rfl⟩
      exact ⟨b, _, rfl, fs, hf, rfl⟩

theorem ends_bind {p : Prog S α} {f : α → Prog S β} {es : List (Event S)} {b : β} :
    (p.bind f).Ends es b ↔ ∃ es₁ es₂ a, es = es₁ ++ es₂ ∧ p.Ends es₁ a ∧ (f a).Ends es₂ b := by
  induction p generalizing es with
  | ret a => simp
  | ask o k ih =>
    simp only [Prog.ask_bind, ends_ask, ih]
    constructor
    · rintro ⟨a, _, rfl, es₁, es₂, c, rfl, h₁, h₂⟩
      exact ⟨⟨o, a⟩ :: es₁, es₂, c, rfl, ⟨a, es₁, rfl, h₁⟩, h₂⟩
    · rintro ⟨_, es₂, c, rfl, ⟨a, es₁, rfl, h₁⟩, h₂⟩
      exact ⟨a, es₁ ++ es₂, rfl, es₁, es₂, c, rfl, h₁, h₂⟩

/-- What a program returns, changed by a function. -/
theorem ends_map {p : Prog S α} {f : α → β} {es : List (Event S)} {b : β} :
    (f <$> p).Ends es b ↔ ∃ a, p.Ends es a ∧ b = f a := by
  rw [Prog.map_eq, ends_bind]
  constructor
  · rintro ⟨es₁, es₂, a, rfl, h, h'⟩
    obtain ⟨rfl, rfl⟩ := ends_ret.mp h'
    exact ⟨a, by simpa using h, rfl⟩
  · rintro ⟨a, h, rfl⟩
    exact ⟨es, [], a, by simp, h, ends_ret.mpr ⟨rfl, rfl⟩⟩

/-- A program returns, if every question can be answered. -/
theorem exists_ends (h : ∀ o, Nonempty (S.Ans o)) (p : Prog S α) : ∃ es a, p.Ends es a := by
  induction p with
  | ret a => exact ⟨[], a, .nil _⟩
  | ask o k ih =>
    obtain ⟨x⟩ := h o
    obtain ⟨es, a, hends⟩ := ih x
    exact ⟨⟨o, x⟩ :: es, a, .cons hends⟩

/-- The steps from which a program's events come: `Covers f es fs` when `fs`
is `es` with every event replaced by a path of the program `f` gives for it. -/
inductive Covers (f : (o : S.Op) → Prog T (S.Ans o)) : List (Event S) → List (Event T) → Prop
  | nil : Covers f [] []
  | cons {e : Event S} {es : List (Event S)} {gs fs : List (Event T)} :
    (f e.op).Ends gs e.ans → Covers f es fs → Covers f (e :: es) (gs ++ fs)

/-- Every execution of an interpreted program comes from one of the program. -/
theorem Ends.of_interp {f : (o : S.Op) → Prog T (S.Ans o)} {p : Prog S α} {fs : List (Event T)}
    {a : α} (h : (p.interp f).Ends fs a) : ∃ es, p.Ends es a ∧ Covers f es fs := by
  induction p generalizing fs with
  | ret b =>
    obtain ⟨rfl, rfl⟩ := ends_ret.mp h
    exact ⟨[], ends_ret.mpr ⟨rfl, rfl⟩, .nil⟩
  | ask o k ih =>
    obtain ⟨gs, fs', b, rfl, hg, hf⟩ := ends_bind.mp h
    obtain ⟨es, he, hc⟩ := ih b hf
    exact ⟨⟨o, b⟩ :: es, ends_ask.mpr ⟨b, es, rfl, he⟩, .cons hg hc⟩

/-- Every event is covered by a path of its program. -/
theorem Covers.exists_of_mem {f : (o : S.Op) → Prog T (S.Ans o)} {es : List (Event S)}
    {fs : List (Event T)} (hc : Covers f es fs) {e : Event S} (he : e ∈ es) :
    ∃ gs, (f e.op).Ends gs e.ans ∧ gs ⊆ fs := by
  induction hc with
  | nil => cases he
  | cons hg _ ih =>
    rcases List.mem_cons.mp he with rfl | he
    · exact ⟨_, hg, List.subset_append_left _ _⟩
    · obtain ⟨gs, hgs, hsub⟩ := ih he
      exact ⟨gs, hgs, fun x hx => List.mem_append_right _ (hsub hx)⟩

/-- If the program for each event of the kind `P` has an event of the kind `Q`,
there are at least as many of these. -/
theorem Covers.countP_le {f : (o : S.Op) → Prog T (S.Ans o)} {P : Event S → Bool} {Q : Event T → Bool}
    (h : ∀ e gs, (f e.op).Ends gs e.ans → P e = true → 1 ≤ gs.countP Q) {es : List (Event S)}
    {fs : List (Event T)} (hc : Covers f es fs) : es.countP P ≤ fs.countP Q := by
  induction hc with
  | nil => simp
  | @cons e es gs fs hg _ ih =>
    rw [List.countP_append]
    by_cases hp : P e = true
    · rw [List.countP_cons_of_pos hp]
      have := h e gs hg hp
      omega
    · rw [List.countP_cons_of_neg hp]
      omega

/-- What answers the questions of a program: `H o s a s'` when the question
`o`, asked in the state `s`, may be answered `a` and lead to the state `s'`. -/
abbrev Handler (S : Sig) (σ : Type) := (o : S.Op) → σ → S.Ans o → σ → Prop

/-- The questions of `S` answered by `H`, and those of `T` anyhow, leaving
the state as it is. -/
def Handler.opened (T : Sig) (H : Handler S σ) : Handler (S.sum T) σ
  | .inl o, s, a, s' => H o s a s'
  | .inr _, s, _, s' => s' = s

/-- A function that answers questions, as a handler. -/
def Handler.graph (h : (o : S.Op) → σ → S.Ans o × σ) : Handler S σ :=
  fun o s a s' => h o s = (a, s')

/-- `Exec H s es s'`: `H` can answer the questions of `es`, in order, as `es`
says, from the state `s` and leading to `s'`. -/
inductive Exec (H : Handler S σ) : σ → List (Event S) → σ → Prop
  | nil (s : σ) : Exec H s [] s
  | cons {s s₁ s' : σ} {e : Event S} {es : List (Event S)} :
    H e.op s e.ans s₁ → Exec H s₁ es s' → Exec H s (e :: es) s'

section Exec

variable {H : Handler S σ} {s s' : σ}

@[simp] theorem exec_nil_iff : Exec H s [] s' ↔ s' = s := by
  constructor
  · rintro ⟨⟩; rfl
  · rintro rfl; exact .nil _

@[simp] theorem exec_cons_iff {e : Event S} {es : List (Event S)} :
    Exec H s (e :: es) s' ↔ ∃ s₁, H e.op s e.ans s₁ ∧ Exec H s₁ es s' := by
  constructor
  · intro h; cases h with
    | cons h h' => exact ⟨_, h, h'⟩
  · rintro ⟨s₁, h, h'⟩; exact .cons h h'

theorem exec_append_iff {es fs : List (Event S)} :
    Exec H s (es ++ fs) s' ↔ ∃ s₁, Exec H s es s₁ ∧ Exec H s₁ fs s' := by
  induction es generalizing s with
  | nil => simp
  | cons e es ih =>
    simp only [List.cons_append, exec_cons_iff, ih]
    constructor
    · rintro ⟨s₁, h, s₂, h₁, h₂⟩; exact ⟨s₂, ⟨s₁, h, h₁⟩, h₂⟩
    · rintro ⟨s₂, ⟨s₁, h, h₁⟩, h₂⟩; exact ⟨s₁, h, s₂, h₁, h₂⟩

/-- A property that every answer keeps holds after any execution from a state
that has it. -/
theorem Exec.invariant {I : σ → Prop} (hI : ∀ o s a s', H o s a s' → I s → I s')
    {es : List (Event S)} (h : Exec H s es s') (hs : I s) : I s' := by
  induction h with
  | nil => exact hs
  | cons h _ ih => exact ih (hI _ _ _ _ h hs)

/-- An execution all of whose events are of a kind is one of the handler that
allows only these. -/
theorem Exec.restrict {A : Event S → Prop} {es : List (Event S)} (h : Exec H s es s') (hA : ∀ e ∈ es, A e) :
    Exec (fun o s a s' => H o s a s' ∧ A ⟨o, a⟩) s es s' := by
  induction h with
  | nil => exact .nil _
  | cons h _ ih =>
    obtain ⟨he, hes⟩ := List.forall_mem_cons.mp hA
    exact .cons ⟨h, he⟩ (ih hes)

/-- A property that only the events of a kind establish, and that none undoes,
holds in the end if it did at the start or such an event happened. -/
theorem Exec.grown {I : σ → Prop} {E : Event S → Prop}
    (hI : ∀ o s a s', H o s a s' → (I s' ↔ I s ∨ E ⟨o, a⟩)) {es : List (Event S)} (h : Exec H s es s') :
    I s' ↔ I s ∨ ∃ e ∈ es, E e := by
  induction h with
  | nil => simp
  | cons h _ ih => rw [ih, hI _ _ _ _ h, or_assoc, List.exists_mem_cons_iff]

/-- An event that establishes a kept property has it hold at the end. -/
theorem Exec.established {I : σ → Prop} (hI : ∀ o s a s', H o s a s' → I s → I s')
    {es : List (Event S)} (h : Exec H s es s') {e : Event S} (he : e ∈ es)
    (hest : ∀ s s', H e.op s e.ans s' → I s') : I s' := by
  induction h with
  | nil => cases he
  | cons h h' ih =>
    rcases List.mem_cons.mp he with rfl | he
    · exact h'.invariant hI (hest _ _ h)
    · exact ih he

/-- From a state with a kept property, every event happens in a state that
has it. -/
theorem Exec.forall_mem {I : σ → Prop} (hI : ∀ o s a s', H o s a s' → I s → I s')
    {es : List (Event S)} (h : Exec H s es s') (hs : I s) {P : Event S → Prop}
    (hP : ∀ e s s', I s → H e.op s e.ans s' → P e) : ∀ e ∈ es, P e := by
  induction h with
  | nil => simp
  | cons h _ ih =>
    intro e he
    rcases List.mem_cons.mp he with rfl | he
    · exact hP _ _ _ hs h
    · exact ih (hI _ _ _ _ h hs) e he

section Covers

variable {U : Sig} {f : (o : U.Op) → Prog S (U.Ans o)} {es : List (Event U)} {fs tr : List (Event S)} {e : Event U}

/-- Where every way to carry out an operation has an event that establishes a
kept property, the property holds at the end if the operation was carried out. -/
theorem Exec.established_of_covers {I : σ → Prop} (hI : ∀ o s a s', H o s a s' → I s → I s')
    (h : Exec H s tr s') (hcov : Covers f es fs) (hfs : fs ⊆ tr) (he : e ∈ es)
    (hest : ∀ gs, (f e.op).Ends gs e.ans → ∃ g ∈ gs, ∀ s s', H g.op s g.ans s' → I s') : I s' := by
  obtain ⟨gs, hgs, hsub⟩ := hcov.exists_of_mem he
  obtain ⟨g, hg, hest⟩ := hest gs hgs
  exact h.established hI (hfs (hsub hg)) hest

/-- Where every way to carry out an operation has an event of the kind `A`, or one
that does not happen while a kept property holds, an operation that was carried out
from a state with the property has an event of the kind `A`. -/
theorem Exec.excused_of_covers {I : σ → Prop} (hI : ∀ o s a s', H o s a s' → I s → I s') {A : Event S → Prop}
    (h : Exec H s tr s') (hs : I s) (hcov : Covers f es fs) (hfs : fs ⊆ tr) (he : e ∈ es)
    (hex : ∀ gs, (f e.op).Ends gs e.ans → ∃ g ∈ gs, A g ∨ ∀ s s', I s → ¬ H g.op s g.ans s') : ∃ g ∈ fs, A g := by
  obtain ⟨gs, hgs, hsub⟩ := hcov.exists_of_mem he
  obtain ⟨g, hg, hA | hno⟩ := hex gs hgs
  · exact ⟨g, hsub hg, hA⟩
  · refine absurd rfl (h.forall_mem hI hs (P := fun e => e ≠ g) ?_ g (hfs (hsub hg)))
    rintro e s s' hs hstep rfl
    exact hno s s' hs hstep

end Covers

/-- A latch: if events of the kind `P` happen only where `I` does not hold,
and establish it, and `I` is kept, there is at most one of them. -/
theorem Exec.countP_le_one {I : σ → Prop} (hI : ∀ o s a s', H o s a s' → I s → I s')
    {P : Event S → Bool} (hP : ∀ e s s', P e = true → H e.op s e.ans s' → ¬ I s ∧ I s')
    {es : List (Event S)} (h : Exec H s es s') : es.countP P ≤ 1 := by
  have hzero : ∀ {s es s'}, Exec H s es s' → I s → es.countP P = 0 := by
    intro s es s' h hs
    rw [List.countP_eq_zero]
    exact h.forall_mem hI hs fun e s s' hs h hp => (hP e s s' hp h).1 hs
  induction h with
  | nil => simp
  | @cons s s₁ s' e es h h' ih =>
    by_cases hp : P e = true
    · simp [List.countP_cons_of_pos hp, hzero h' (hP _ _ _ hp h).2]
    · rwa [List.countP_cons_of_neg hp]

end Exec

/-- Where there is at most one event of a kind, two of them are the same. -/
theorem eq_of_countP_le_one {P : Event S → Bool} {es : List (Event S)} (h : es.countP P ≤ 1) {e e' : Event S}
    (he : e ∈ es) (he' : e' ∈ es) (hP : P e = true) (hP' : P e' = true) : e = e' := by
  rw [List.countP_eq_length_filter] at h
  have hm : e ∈ es.filter P := List.mem_filter.mpr ⟨he, hP⟩
  have hm' : e' ∈ es.filter P := List.mem_filter.mpr ⟨he', hP'⟩
  match hf : es.filter P, h with
  | [], _ => rw [hf] at hm; cases hm
  | [x], _ =>
    rw [hf, List.mem_singleton] at hm hm'
    rw [hm, hm']

/-- A program run alone asks and is answered along one of its paths. -/
theorem Prog.exec_ends (h : (o : S.Op) → σ → S.Ans o × σ) (p : Prog S α) (s : σ) :
    ∃ es, p.Ends es (p.exec h s).1 ∧ Exec (Handler.graph h) s es (p.exec h s).2 := by
  induction p generalizing s with
  | ret a => exact ⟨[], ends_ret.mpr ⟨rfl, rfl⟩, .nil _⟩
  | ask o k ih =>
    obtain ⟨es, he, hx⟩ := ih (h o s).1 (h o s).2
    exact ⟨⟨o, (h o s).1⟩ :: es, ends_ask.mpr ⟨_, es, rfl, he⟩, .cons rfl hx⟩

end Interact
