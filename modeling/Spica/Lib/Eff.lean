import Mathlib.Logic.Relation

/-! # Computations over a state that keep it when they abort

`Eff ρ ε σ α` reads an environment, threads a state and may abort with an error. Unlike
`StateT σ (Except ε)` the state survives an abort, so a caller that catches an error still
sees what the aborted part has done.
-/

/-- A computation that reads `ρ`, updates `σ` and returns an `α` or aborts with an `ε`. -/
def Eff (ρ ε σ α : Type) : Type := ρ → σ → Except ε α × σ

namespace Eff

variable {ρ ε σ α β : Type}

protected def pure (a : α) : Eff ρ ε σ α := fun _ s => (.ok a, s)

protected def bind (m : Eff ρ ε σ α) (f : α → Eff ρ ε σ β) : Eff ρ ε σ β := fun r s =>
  match m r s with
  | (.ok a, s') => f a r s'
  | (.error e, s') => (.error e, s')

instance : Monad (Eff ρ ε σ) where
  pure := Eff.pure
  bind := Eff.bind

/-- Abort. -/
def fail (e : ε) : Eff ρ ε σ α := fun _ s => (.error e, s)

/-- Read a value off the environment and the state. -/
def gets (f : ρ → σ → α) : Eff ρ ε σ α := fun r s => (.ok (f r s), s)

/-- Update the state, with the environment at hand. -/
def change (f : ρ → σ → σ) : Eff ρ ε σ Unit := fun r s => (.ok (), f r s)

theorem bind_assoc {γ : Type} (m : Eff ρ ε σ α) (f : α → Eff ρ ε σ β) (g : β → Eff ρ ε σ γ) :
    m >>= f >>= g = m >>= fun a => f a >>= g := by
  funext r s
  show Eff.bind (Eff.bind m f) g r s = Eff.bind m (fun a => Eff.bind (f a) g) r s
  simp only [Eff.bind]
  rcases m r s with ⟨_ | a, t⟩ <;> rfl

variable {r : ρ} {s s' : σ}

theorem bind_of_ok {m} {f : α → Eff ρ ε σ β} {a} (h : m r s = (.ok a, s')) :
    (m >>= f) r s = f a r s' := by
  show Eff.bind m f r s = _
  simp only [Eff.bind, h]

theorem bind_of_error {m} {f : α → Eff ρ ε σ β} {e} (h : m r s = (.error e, s')) :
    (m >>= f) r s = (.error e, s') := by
  show Eff.bind m f r s = _
  simp only [Eff.bind, h]

@[simp] theorem pure_run (a : α) : (pure a : Eff ρ ε σ α) r s = (.ok a, s) := rfl

@[simp] theorem fail_run (e : ε) : (fail e : Eff ρ ε σ α) r s = (.error e, s) := rfl

@[simp] theorem gets_run (f : ρ → σ → α) : (gets f : Eff ρ ε σ α) r s = (.ok (f r s), s) := rfl

@[simp] theorem change_run (f : ρ → σ → σ) :
    (change f : Eff ρ ε σ Unit) r s = (.ok (), f r s) := rfl

/-- Where the second part gives the same in every state, so does the sequence from there on. -/
theorem bind_fst {m} {f : α → Eff ρ ε σ β} {g} (rest : ∀ a t, (f a r t).1 = g a) :
    ((m >>= f) r s).1 = (m r s).1 >>= g := by
  rcases run : m r s with ⟨_ | a, t⟩
  · rw [bind_of_error run]
    rfl
  · rw [bind_of_ok run]
    exact rest a t

/-- A sequence returns exactly when both parts do. -/
theorem bind_ok_iff {m} {f : α → Eff ρ ε σ β} {b} :
    (m >>= f) r s = (.ok b, s') ↔ ∃ a t, m r s = (.ok a, t) ∧ f a r t = (.ok b, s') := by
  rcases run : m r s with ⟨_ | a, t⟩
  · rw [bind_of_error run]
    simp
  · rw [bind_of_ok run]
    constructor
    · intro h
      exact ⟨a, t, rfl, h⟩
    · rintro ⟨a', t', same, h⟩
      cases same
      exact h

end Eff
