import Mathlib.Data.List.Basic
import Mathlib.Logic.Relation

/-! # Logs read by position

An append-only log is a list whose entries have the positions 1, 2, 3, and so on. A reader
keeps the position it has got to; what it has passed over is a stretch of the log. Entries may
name the position of an earlier one as their cause.
-/

namespace Log

variable {α : Type} {P : α → Prop} {log es : List α} {a b c n : Nat} {e : α}

/-- The entry at a position. -/
def entryAt (log : List α) (pos : Nat) : Option α := if pos = 0 then none else log[pos - 1]?

@[simp] theorem entryAt_succ : entryAt log (n + 1) = log[n]? := by simp [entryAt]

theorem entryAt_eq_some : entryAt log n = some e → 0 < n ∧ n ≤ log.length := by
  cases n with
  | zero => simp [entryAt]
  | succ n =>
    intro found
    rw [entryAt_succ] at found
    have := (List.getElem?_eq_some_iff.mp found).1
    omega

theorem mem_of_entryAt (found : entryAt log n = some e) : e ∈ log := by
  cases n with
  | zero => cases found
  | succ n =>
    rw [entryAt_succ] at found
    exact List.mem_of_getElem? found

theorem entryAt_eq_none (pos : 0 < n) : entryAt log n = none ↔ log.length < n := by
  cases n with
  | zero => omega
  | succ n =>
    rw [entryAt_succ, List.getElem?_eq_none_iff]
    omega

theorem entryAt_append (inside : n ≤ log.length) : entryAt (log ++ es) n = entryAt log n := by
  cases n with
  | zero => rfl
  | succ n =>
    simp only [entryAt_succ]
    exact List.getElem?_append_left inside

theorem entryAt_append_right : entryAt (log ++ es) (log.length + (n + 1)) = es[n]? := by
  rw [← Nat.add_assoc, entryAt_succ, List.getElem?_append_right (by omega)]
  simp

/-- What is in the log stays where it is. -/
theorem entryAt_extend (found : entryAt log n = some e) (es : List α) :
    entryAt (log ++ es) n = some e := by
  rw [entryAt_append (entryAt_eq_some found).2, found]

theorem entryAt_append_cases (found : entryAt (log ++ es) n = some e) :
    entryAt log n = some e ∨ ∃ i, n = log.length + (i + 1) ∧ es[i]? = some e := by
  rcases Nat.lt_or_ge log.length n with new | old
  · obtain ⟨i, rfl⟩ : ∃ i, n = log.length + (i + 1) := ⟨n - log.length - 1, by omega⟩
    rw [entryAt_append_right] at found
    exact .inr ⟨i, rfl, found⟩
  · rw [entryAt_append old] at found
    exact .inl found

theorem take_succ_of_entryAt (found : entryAt log (n + 1) = some e) :
    log.take (n + 1) = log.take n ++ [e] := by
  rw [entryAt_succ] at found
  rw [List.take_add_one, found]
  rfl

/-! ## Tailing

A reader starts at an index and has been handed some entries, in order. -/

section tailing

variable {xs : List α}

theorem drop_handed (handed : xs <+: log.drop n) : log.drop n = xs ++ log.drop (n + xs.length) := by
  obtain ⟨more, whole⟩ := handed
  rw [← List.drop_drop, ← whole, List.drop_left]

theorem handed_grow (handed : xs <+: log.drop n) (es : List α) : xs <+: (log ++ es).drop n := by
  rw [List.drop_append]
  exact handed.trans (List.prefix_append _ _)

theorem handed_next (handed : xs <+: log.drop n) (found : log[n + xs.length]? = some e) :
    xs ++ [e] <+: log.drop n := by
  rw [drop_handed handed]
  refine (List.prefix_append_right_inj xs).mpr ?_
  obtain ⟨inside, rfl⟩ := List.getElem?_eq_some_iff.mp found
  rw [List.drop_eq_getElem_cons inside]
  exact List.prefix_cons_inj _ |>.mpr List.nil_prefix

theorem handed_all (handed : xs <+: log.drop n) (none : log[n + xs.length]? = none) :
    xs = log.drop n := by
  rw [drop_handed handed, List.drop_eq_nil_of_le (List.getElem?_eq_none_iff.mp none),
    List.append_nil]

end tailing

/-- Every entry after position `a` and up to position `b` satisfies `P`. -/
def Between (P : α → Prop) (log : List α) (a b : Nat) : Prop :=
  ∀ n e, a < n → n ≤ b → entryAt log n = some e → P e

namespace Between

theorem empty (none : b ≤ a) : Between P log a b := fun n _ above below => by omega

theorem narrow {a' b'} (all : Between P log a b) (left : a ≤ a') (right : b' ≤ b) :
    Between P log a' b' :=
  fun n e above below found => all n e (by omega) (by omega) found

theorem trans (first : Between P log a b) (rest : Between P log b c) : Between P log a c := by
  intro n e above below found
  by_cases side : n ≤ b
  · exact first n e above side found
  · exact rest n e (by omega) below found

theorem succ (first : Between P log a n) (next : ∀ e, entryAt log (n + 1) = some e → P e) :
    Between P log a (n + 1) := by
  refine first.trans fun m e above below found => ?_
  obtain rfl : m = n + 1 := by omega
  exact next e found

theorem exists_of_not (some : ¬ Between P log a b) :
    ∃ n e, a < n ∧ n ≤ b ∧ entryAt log n = .some e ∧ ¬ P e := by
  unfold Between at some
  push Not at some
  exact some

/-- Appending does not touch what is already there. -/
theorem append (inside : b ≤ log.length) :
    Between P (log ++ es) a b ↔ Between P log a b := by
  constructor
  all_goals
    intro all n e above below found
    refine all n e above below ?_
  · rw [entryAt_append (by omega), found]
  · rwa [entryAt_append (by omega)] at found

/-- What all appended entries satisfy holds from the old end on. -/
theorem appended (new : ∀ e ∈ es, P e) (whole : log.length ≤ a) : Between P (log ++ es) a b := by
  intro n e above _ found
  obtain ⟨k, rfl⟩ : ∃ k, n = log.length + (k + 1) := ⟨n - log.length - 1, by omega⟩
  rw [entryAt_append_right] at found
  exact new e (List.mem_of_getElem? found)

/-- The entries of a stretch, as a list. -/
theorem take_eq (order : a ≤ b) (all : Between P log a b) :
    ∃ es, log.take b = log.take a ++ es ∧ ∀ e ∈ es, P e := by
  refine ⟨(log.drop a).take (b - a), ?_, ?_⟩
  · conv_lhs => rw [← Nat.add_sub_cancel' order]
    exact List.take_add
  · intro e member
    obtain ⟨i, found⟩ := List.mem_iff_getElem?.mp member
    rw [List.getElem?_take] at found
    split at found
    case isTrue short =>
      rw [List.getElem?_drop] at found
      exact all (a + i + 1) e (by omega) (by omega) (by rw [entryAt_succ, found])
    case isFalse => cases found

end Between

/-! ## Segments -/

/-- Cut a log after every entry that closes a segment. -/
def segments (closes : α → Bool) : List α → List (List α)
  | [] => []
  | e :: es =>
    if closes e then [e] :: segments closes es
    else match segments closes es with
      | [] => [[e]]
      | s :: ss => (e :: s) :: ss

variable {closes : α → Bool}

theorem segments_closed (closed : closes e = true) :
    segments closes (e :: es) = [e] :: segments closes es := by
  simp [segments, closed]

theorem segments_open {s ss} (opens : closes e = false) (cut : segments closes es = s :: ss) :
    segments closes (e :: es) = (e :: s) :: ss := by
  simp [segments, opens, cut]

theorem segments_ne_nil : segments closes (e :: es) ≠ [] := by
  unfold segments
  split
  · simp
  · split <;> simp

/-- What follows a closed segment is cut on its own. -/
theorem segments_append (ends : ∀ x ∈ log.getLast?, closes x = true) :
    segments closes (log ++ es) = segments closes log ++ segments closes es := by
  induction log with
  | nil => rfl
  | cons x xs ih =>
    cases xs with
    | nil =>
      have closed : closes x = true := ends x rfl
      simp [segments, closed]
    | cons y ys =>
      have rest : segments closes (y :: ys ++ es) = _ := ih ends
      cases closed : closes x with
      | true => rw [List.cons_append, segments_closed closed, segments_closed closed, rest,
          List.cons_append]
      | false =>
        cases cut : segments closes (y :: ys) with
        | nil => exact absurd cut segments_ne_nil
        | cons s ss =>
          rw [cut] at rest
          rw [List.cons_append, segments_open closed rest, segments_open closed cut]
          rfl

/-- Entries that close nothing, up to one that does, are one segment. -/
theorem segments_single (opens : ∀ x ∈ es, closes x = false) (closed : closes e = true) :
    segments closes (es ++ [e]) = [es ++ [e]] := by
  induction es with
  | nil => simp [segments, closed]
  | cons x xs ih =>
    have rest := ih fun y member => opens y (by simp [member])
    exact segments_open (opens x (by simp)) rest

/-- A list of segments is the cut of what it is a cut of. -/
theorem segments_flatten {ss}
    (each : ∀ s ∈ ss, ∃ es e, s = es ++ [e] ∧ closes e = true ∧ ∀ x ∈ es, closes x = false) :
    segments closes ss.flatten = ss := by
  induction ss with
  | nil => rfl
  | cons s ss ih =>
    obtain ⟨es, e, rfl, closed, opens⟩ := each s List.mem_cons_self
    have rest := ih fun s member => each s (List.mem_cons_of_mem _ member)
    have ends : ∀ x ∈ (es ++ [e]).getLast?, closes x = true := by
      intro x last
      rw [List.getLast?_concat] at last
      cases last
      exact closed
    rw [List.flatten_cons, segments_append ends, segments_single opens closed, rest]
    rfl

/-- The entries of the segments are the entries of the log. -/
theorem mem_segments {s} (member : s ∈ segments closes log) (inside : e ∈ s) : e ∈ log := by
  induction log generalizing s with
  | nil => cases member
  | cons x xs ih =>
    unfold segments at member
    split at member
    · rcases List.mem_cons.mp member with rfl | member
      · simp_all
      · exact List.mem_cons_of_mem _ (ih member inside)
    · split at member
      · simp_all
      case h_2 s' ss cut =>
        rcases List.mem_cons.mp member with rfl | member
        · rcases List.mem_cons.mp inside with rfl | inside
          · simp
          · exact List.mem_cons_of_mem _ (ih (by rw [cut]; simp) inside)
        · exact List.mem_cons_of_mem _ (ih (by rw [cut]; simp [member]) inside)

/-! ## Causes -/

section causes

variable {cause : α → Option Nat} {i j : Nat} {b : Option Nat}

/-- The entry at the second position names the first one as its cause. -/
def CausedBy (cause : α → Option Nat) (log : List α) (i j : Nat) : Prop :=
  ∃ e, entryAt log j = some e ∧ cause e = some i

/-- What an entry causes, directly or through others. -/
def Leads (cause : α → Option Nat) (log : List α) : Nat → Nat → Prop :=
  Relation.TransGen (CausedBy cause log)

/-- Every cause stands before what it causes. -/
def Causal (cause : α → Option Nat) (log : List α) : Prop :=
  ∀ i j, CausedBy cause log i j → i < j

theorem CausedBy.append (caused : CausedBy cause log i j) (es : List α) :
    CausedBy cause (log ++ es) i j := by
  obtain ⟨e, found, named⟩ := caused
  exact ⟨e, by rw [entryAt_append (entryAt_eq_some found).2, found], named⟩

/-- An entry that is there has its cause from the old log, one that is added from its batch. -/
theorem CausedBy.of_append (added : ∀ e ∈ es, cause e = b)
    (caused : CausedBy cause (log ++ es) i j) :
    j ≤ log.length ∧ CausedBy cause log i j ∨ log.length < j ∧ b = some i := by
  obtain ⟨e, found, named⟩ := caused
  by_cases old : j ≤ log.length
  · rw [entryAt_append old] at found
    exact .inl ⟨old, e, found, named⟩
  · obtain ⟨k, rfl⟩ : ∃ k, j = log.length + (k + 1) := ⟨j - log.length - 1, by omega⟩
    rw [entryAt_append_right] at found
    exact .inr ⟨by omega, (added e (List.mem_of_getElem? found)).symm.trans named⟩

theorem Causal.append (causal : Causal cause log) (added : ∀ e ∈ es, cause e = b)
    (inside : ∀ n, b = some n → n ≤ log.length) : Causal cause (log ++ es) := by
  intro i j caused
  rcases caused.of_append added with ⟨-, old⟩ | ⟨after, named⟩
  · exact causal i j old
  · exact Nat.lt_of_le_of_lt (inside i named) after

theorem Leads.lt (causal : Causal cause log) (leads : Leads cause log i j) : i < j := by
  induction leads with
  | single caused => exact causal _ _ caused
  | tail _ caused ih => exact Nat.lt_trans ih (causal _ _ caused)

theorem Leads.append (leads : Leads cause log i j) (es : List α) : Leads cause (log ++ es) i j := by
  induction leads with
  | single caused => exact .single (caused.append es)
  | tail _ caused ih => exact ih.tail (caused.append es)

/-- What is added to a log is led to through the cause of its batch. -/
theorem Leads.of_append (causal : Causal cause log) (added : ∀ e ∈ es, cause e = b)
    (inside : ∀ n, b = some n → n ≤ log.length) (leads : Leads cause (log ++ es) i j) :
    j ≤ log.length ∧ Leads cause log i j ∨
      log.length < j ∧ ∃ n, b = some n ∧ (i = n ∨ Leads cause log i n) := by
  induction leads with
  | single caused =>
    rcases caused.of_append added with ⟨old, caused⟩ | ⟨after, named⟩
    · exact .inl ⟨old, .single caused⟩
    · exact .inr ⟨after, i, named, .inl rfl⟩
  | @tail k j _ caused ih =>
    rcases caused.of_append added with ⟨old, caused⟩ | ⟨after, named⟩
    · -- the cause of an old entry is old
      have before := causal _ _ caused
      rcases ih with ⟨-, leads⟩ | ⟨late, -⟩
      · exact .inl ⟨old, leads.tail caused⟩
      · omega
    · have before := inside k named
      rcases ih with ⟨-, leads⟩ | ⟨late, -⟩
      · exact .inr ⟨after, k, named, .inr leads⟩
      · omega

end causes

end Log
