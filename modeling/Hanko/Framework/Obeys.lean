import Hanko.Framework.Prog

/-!
# What a program has done when it asks

`p.Obeys Q R es`: after the events `es`, the program `p` asks a question only if
`Q` allows it after all the events so far, and returns only what `R` allows after
them. The rules are those of a logic of pre- and postconditions, the state of which
is the history: `obeys_ask`, `obeys_bind`, and `obeys_of_asks` for parts of a program
whose questions `Q` always allows. `Path.obeys` and `Ends.obeys` say what that means
for the paths of a program, and so for the runs it is part of.
-/

namespace Interact

variable {S : Sig} {α β : Type} {Q : List (Event S) → S.Op → Prop} {R : List (Event S) → α → Prop}

def Prog.Obeys (Q : List (Event S) → S.Op → Prop) (R : List (Event S) → α → Prop) :
    Prog S α → List (Event S) → Prop
  | .ret a, es => R es a
  | .ask o k, es => Q es o ∧ ∀ a, (k a).Obeys Q R (es ++ [⟨o, a⟩])

@[simp] theorem obeys_ret {a : α} {es : List (Event S)} : (Prog.ret a).Obeys Q R es ↔ R es a := Iff.rfl

@[simp] theorem obeys_ask {o : S.Op} {k : S.Ans o → Prog S α} {es : List (Event S)} :
    (Prog.ask o k).Obeys Q R es ↔ Q es o ∧ ∀ a, (k a).Obeys Q R (es ++ [⟨o, a⟩]) := Iff.rfl

theorem obeys_bind {p : Prog S β} {f : β → Prog S α} {R' : List (Event S) → β → Prop} {es : List (Event S)}
    (hp : p.Obeys Q R' es) (hf : ∀ es' b, R' es' b → (f b).Obeys Q R es') : (p.bind f).Obeys Q R es := by
  induction p generalizing es with
  | ret b => exact hf es b hp
  | ask o k ih => exact ⟨hp.1, fun a => ih a (hp.2 a)⟩

/-- Events that were asked for are part of the history from then on. -/
theorem obeys_of_asks {A : S.Op → Prop} {p : Prog S α} {es : List (Event S)} (hp : p.Asks A)
    (hA : ∀ es o, A o → Q es o) (hR : ∀ fs a, p.Ends fs a → R (es ++ fs) a) : p.Obeys Q R es := by
  induction p generalizing es with
  | ret a => simpa using hR [] a (ends_ret.mpr ⟨rfl, rfl⟩)
  | ask o k ih =>
    refine ⟨hA es o hp.1, fun a => ih a (hp.2 a) fun fs b hb => ?_⟩
    simpa using hR (⟨o, a⟩ :: fs) b (ends_ask.mpr ⟨a, fs, rfl, hb⟩)

/-- Whatever was allowed is allowed on a path. -/
theorem Path.obeys {p q : Prog S α} {es fs : List (Event S)} (h : Path p fs q) (hp : p.Obeys Q R es) :
    q.Obeys Q R (es ++ fs) ∧ ∀ e ∈ fs, ∃ before, before ⊆ es ++ fs ∧ Q before e.op := by
  induction h generalizing es with
  | nil p => simpa using hp
  | @cons o k a fs q _ ih =>
    obtain ⟨hq, hfs⟩ := ih (hp.2 a)
    rw [List.append_assoc, List.singleton_append] at hq hfs
    refine ⟨hq, List.forall_mem_cons.mpr ⟨⟨es, List.subset_append_left _ _, hp.1⟩, hfs⟩⟩

theorem Ends.obeys {p : Prog S α} {es fs : List (Event S)} {a : α} (h : p.Ends fs a) (hp : p.Obeys Q R es) :
    R (es ++ fs) a :=
  (Path.obeys h hp).1

end Interact
