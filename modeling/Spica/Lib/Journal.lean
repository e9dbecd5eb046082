import Mathlib.Data.List.Basic

/-! # Journals

A journal lists what happened, in order. Some of its notes are about a key. The last note about a
key stands until there is another one about it.
-/

namespace Journal

variable {α κ : Type} {about : α → κ → Prop} {j : List α} {k : κ} {n n' m c : Nat} {x x' y : α}

/-- Of the notes before place `m`, the one at place `n` is the last about the key. -/
structure Stands (about : α → κ → Prop) (j : List α) (k : κ) (m n : Nat) (x : α) : Prop where
  noted : j[n]? = some x
  concerns : about x k
  earlier : n < m
  quiet : ∀ i y, n < i → i < m → j[i]? = some y → ¬about y k

/-- Any earlier note about the key is not after the standing one. -/
theorem Stands.latest (stands : Stands about j k m n x) (noted : j[c]? = some y)
    (concerns : about y k) (before : c < m) : c ≤ n := by
  by_contra after
  exact stands.quiet c y (by omega) before noted concerns

theorem Stands.unique (one : Stands about j k m n x) (other : Stands about j k m n' x') :
    n = n' :=
  Nat.le_antisymm (other.latest one.noted one.concerns one.earlier)
    (one.latest other.noted other.concerns other.earlier)

/-- A new note changes nothing about what stood before it. -/
theorem Stands.later (stands : Stands about j k m n x) (inside : m ≤ j.length) (y : α) :
    Stands about (j ++ [y]) k m n x where
  noted := by
    rw [List.getElem?_append_left (by have := stands.earlier; omega)]
    exact stands.noted
  concerns := stands.concerns
  earlier := stands.earlier
  quiet := by
    intro i z after before noted
    rw [List.getElem?_append_left (by omega)] at noted
    exact stands.quiet i z after before noted

/-- What stands is not touched by a new note about something else. -/
theorem Stands.pass (stands : Stands about j k j.length n x) (other : ¬about y k) :
    Stands about (j ++ [y]) k (j ++ [y]).length n x where
  noted := (stands.later (Nat.le_refl _) y).noted
  concerns := stands.concerns
  earlier := by
    have := stands.earlier
    simp only [List.length_append, List.length_singleton]
    omega
  quiet := by
    intro i z after before noted
    rcases Nat.lt_or_ge i j.length with old | new
    · exact (stands.later (Nat.le_refl _) y).quiet i z after old noted
    · have last : i = j.length := by
        simp only [List.length_append, List.length_singleton] at before
        omega
      rw [last, List.getElem?_concat_length] at noted
      cases noted
      exact other

/-- A new note about the key stands. -/
theorem Stands.new (concerns : about y k) :
    Stands about (j ++ [y]) k (j ++ [y]).length j.length y where
  noted := List.getElem?_concat_length
  concerns := concerns
  earlier := by simp
  quiet := by
    intro i z after before
    simp only [List.length_append, List.length_singleton] at before
    omega

/-- A note is the new one, or it was there. -/
theorem noted_concat (noted : (j ++ [y])[n]? = some x) :
    n < j.length ∧ j[n]? = some x ∨ n = j.length ∧ x = y := by
  rcases Nat.lt_or_ge n j.length with old | new
  · rw [List.getElem?_append_left old] at noted
    exact .inl ⟨old, noted⟩
  · have last : n = j.length := by
      have := (List.getElem?_eq_some_iff.mp noted).1
      simp only [List.length_append, List.length_singleton] at this
      omega
    rw [last, List.getElem?_concat_length] at noted
    exact .inr ⟨last, (Option.some.inj noted).symm⟩

end Journal
