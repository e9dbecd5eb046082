import Mathlib.Data.List.Basic
import Mathlib.Data.List.Infix

/-! # Words joined by a separator

A list of segments is written as one word, a separator before each segment. Where no segment
contains the separator the word determines the segments, and a word that begins like another one
agrees with it segment by segment, up to the last.
-/

namespace Segments

variable {α : Type} {sep : α} {a s t x y : List α} {l l' : List (List α)}

/-- The separator does not occur in any segment. -/
def Free (sep : α) (l : List (List α)) : Prop := ∀ s ∈ l, sep ∉ s

theorem free_cons : Free sep (s :: l) ↔ sep ∉ s ∧ Free sep l := by
  simp [Free]

/-- Every segment behind a separator. -/
def joined (sep : α) (l : List (List α)) : List α := l.flatMap (sep :: ·)

@[simp] theorem joined_nil : joined sep [] = [] := rfl

@[simp] theorem joined_cons : joined sep (s :: l) = sep :: (s ++ joined sep l) := rfl

theorem joined_snoc_nil : joined sep (l ++ [[]]) = joined sep l ++ [sep] := by
  simp [joined]

/-- A word without separators that begins a joined word begins its first segment. -/
theorem prefix_append_joined_iff (free : sep ∉ t) : t <+: s ++ joined sep l ↔ t <+: s := by
  constructor
  · intro begins
    rcases List.prefix_or_prefix_of_prefix begins (List.prefix_append s _) with shorter | longer
    · exact shorter
    · obtain ⟨more, rfl⟩ := longer
      rw [List.prefix_append_right_inj] at begins
      cases l with
      | nil =>
        have none : more = [] := List.prefix_nil.mp begins
        rw [none, List.append_nil]
      | cons s' l =>
        cases more with
        | nil => rw [List.append_nil]
        | cons c more =>
          obtain rfl := (List.cons_prefix_cons.mp begins).1
          simp at free
  · exact fun begins => begins.trans (List.prefix_append _ _)

/-- Two words whose first segments are closed by a separator begin alike only if those segments
    are the same. -/
theorem append_cons_prefix_iff (free : sep ∉ a) (free' : sep ∉ s) :
    a ++ sep :: x <+: s ++ joined sep l ↔ a = s ∧ sep :: x <+: joined sep l := by
  constructor
  · intro begins
    have start : a <+: s :=
      (prefix_append_joined_iff free).mp ((List.prefix_append _ _).trans begins)
    obtain ⟨more, rfl⟩ := start
    rw [List.append_assoc, List.prefix_append_right_inj] at begins
    cases more with
    | nil => exact ⟨(List.append_nil a).symm, begins⟩
    | cons c more =>
      obtain rfl := (List.cons_prefix_cons.mp begins).1
      simp at free'
  · rintro ⟨rfl, begins⟩
    exact (List.prefix_append_right_inj a).mpr begins

/-- A joined word begins another one if it has the same segments, the last one begun. -/
theorem joined_prefix_iff (free : Free sep l) (last : sep ∉ t) (free' : Free sep l') :
    joined sep (l ++ [t]) <+: joined sep l' ↔ ∃ s rest, l' = l ++ s :: rest ∧ t <+: s := by
  induction l generalizing l' with
  | nil =>
    cases l' with
    | nil => simp
    | cons s rest =>
      have begun : [] ++ [t] = [t] := rfl
      rw [begun, joined_cons, joined_cons, List.prefix_cons_inj, joined_nil, List.append_nil,
        prefix_append_joined_iff last]
      simp
  | cons a l ih =>
    cases l' with
    | nil => simp
    | cons s rest =>
      obtain ⟨here, later⟩ := free_cons.mp free
      obtain ⟨here', later'⟩ := free_cons.mp free'
      have opened : ∃ y, joined sep (l ++ [t]) = sep :: y := by cases l <;> exact ⟨_, rfl⟩
      obtain ⟨y, opened⟩ := opened
      rw [List.cons_append, joined_cons, joined_cons, List.prefix_cons_inj, opened,
        append_cons_prefix_iff here here', ← opened, ih later later']
      constructor
      · rintro ⟨rfl, s, rest, rfl, begins⟩
        exact ⟨s, rest, rfl, begins⟩
      · rintro ⟨s', rest', same, begins⟩
        obtain ⟨rfl, rfl⟩ := List.cons_eq_cons.mp same
        exact ⟨rfl, s', rest', rfl, begins⟩

/-- The word determines the segments. -/
theorem joined_inj (free : Free sep l) (free' : Free sep l') (same : joined sep l = joined sep l') :
    l = l' := by
  -- closed by one more separator, each begins the other
  have closed : joined sep (l ++ [[]]) = joined sep (l' ++ [[]]) := by
    rw [joined_snoc_nil, joined_snoc_nil, same]
  have snoc {l : List (List α)} (free : Free sep l) : Free sep (l ++ [[]]) := by
    intro s there
    rcases List.mem_append.mp there with there | there
    · exact free s there
    · simp [List.mem_singleton.mp there]
  obtain ⟨s, rest, one, -⟩ := (joined_prefix_iff free List.not_mem_nil (snoc free')).mp
    (closed ▸ List.prefix_rfl)
  obtain ⟨s', rest', other, -⟩ := (joined_prefix_iff free' List.not_mem_nil (snoc free)).mp
    (closed ▸ List.prefix_rfl)
  have one' := congrArg List.length one
  have other' := congrArg List.length other
  simp only [List.length_append, List.length_cons, List.length_nil] at one' other'
  exact (List.append_inj one.symm (by omega)).1

end Segments
