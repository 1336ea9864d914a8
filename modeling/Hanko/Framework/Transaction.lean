import Hanko.Framework.Prog

/-!
# Statements that commit or fail

A statement of a database answers with what it found and commits a new state, or
answers with an error and leaves the old one (`commit`). Where the connection may
also fail, before or after the statement took effect, its database is
`Handler.faulty`: what every statement keeps it keeps (`faulty_keeps`), and an
answer that is no error is that of the statement (`faulty_ok`).
-/

namespace Interact

variable {ε σ α : Type}

/-- A result and the new state, or an error and the old one. -/
def commit (s : σ) : Except ε (α × σ) → Except ε α × σ
  | .ok (a, s') => (.ok a, s')
  | .error e => (.error e, s)

/-- A statement reports what it did, or an error, and then it did nothing. -/
theorem commit_eq_iff {s s' : σ} {r : Except ε (α × σ)} {a : Except ε α} :
    commit s r = (a, s') ↔ (∃ x, r = .ok (x, s') ∧ a = .ok x) ∨ ∃ e, r = .error e ∧ a = .error e ∧ s' = s := by
  cases r with
  | ok x => simp [commit, Prod.ext_iff, eq_comm, and_comm]
  | error e => simp [commit, eq_comm]

section Faulty

variable {Op : Type} {Rows : Op → Type} {step : (o : Op) → σ → Except ε (Rows o) × σ}

/-- A database whose statements may fail: with no effect, or with the effect
committed and the answer lost. -/
def Handler.faulty (step : (o : Op) → σ → Except ε (Rows o) × σ) : Handler ⟨Op, fun o => Except ε (Rows o)⟩ σ :=
  fun o s a s' => step o s = (a, s') ∨ ∃ e, a = .error e ∧ (s' = s ∨ s' = (step o s).2)

/-- A statement that fails changes nothing that the statement itself would not. -/
theorem faulty_keeps (step : (o : Op) → σ → Except ε (Rows o) × σ) {R : σ → σ → Prop} (hrefl : ∀ s, R s s)
    (hstep : ∀ {o s a s'}, step o s = (a, s') → R s s') {o : Op} {s s' : σ} {a : Except ε (Rows o)}
    (h : Handler.faulty step o s a s') : R s s' := by
  rcases h with h | ⟨e, -, rfl | rfl⟩
  · exact hstep h
  · exact hrefl _
  · exact hstep rfl

/-- An answer that is no error is that of the statement. -/
theorem faulty_ok {o : Op} {s s' : σ} {x : Rows o} (h : Handler.faulty step o s (.ok x) s') :
    step o s = (.ok x, s') := by
  rcases h with h | ⟨e, h, -⟩
  · exact h
  · cases h

end Faulty

end Interact
