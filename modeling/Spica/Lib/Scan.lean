import Mathlib.Data.List.AList
import Mathlib.Data.List.Sort
import Mathlib.Data.List.Lex

/-! # Ordered scans

A store of bindings is read in the order of its keys, from a key on. Where keys are words, those
with a common prefix are one contiguous range of the order: a scan from the prefix reads them
first, and everything else after them.
-/

namespace Scan

/-! ## Words -/

section words

variable {α : Type} [LinearOrder α] {p a b : List α}

theorem append_lt_append_iff (p a b : List α) : p ++ a < p ++ b ↔ a < b := by
  induction p with
  | nil => rfl
  | cons c p ih => simp [ih]

theorem append_le_append_iff (p a b : List α) : p ++ a ≤ p ++ b ↔ a ≤ b := by
  rw [← not_lt, ← not_lt, append_lt_append_iff]

end words

/-! ## Bindings -/

section bindings

variable {κ ν : Type}

/-- The bindings of a table. -/
def bindings (t : AList fun _ : κ => ν) : List (κ × ν) := t.entries.map fun e => (e.1, e.2)

theorem bindings_distinct (t : AList fun _ : κ => ν) : ((bindings t).map Prod.fst).Nodup := by
  have keys : (bindings t).map Prod.fst = t.keys := by
    rw [bindings, List.map_map]
    rfl
  exact keys ▸ t.keys_nodup

variable [DecidableEq κ] {t : AList fun _ : κ => ν} {k : κ} {v : ν}

theorem mem_bindings : (k, v) ∈ bindings t ↔ t.lookup k = some v := by
  rw [← Option.mem_def, AList.mem_lookup_iff]
  constructor
  · intro there
    obtain ⟨⟨k', v'⟩, here, same⟩ := List.mem_map.mp there
    obtain ⟨rfl, rfl⟩ := Prod.mk.inj same
    exact here
  · exact fun there => List.mem_map.mpr ⟨_, there, rfl⟩

end bindings

/-! ## In order -/

section order

variable {α κ : Type} [LinearOrder κ] {key : α → κ} {xs ys : List α}

/-- In the order of their keys, no key twice. -/
def Ascending (key : α → κ) (xs : List α) : Prop := xs.Pairwise fun a b => key a < key b

/-- Sorted by key. -/
def ordered (key : α → κ) (xs : List α) : List α := xs.insertionSort fun a b => key a ≤ key b

theorem ordered_perm (key : α → κ) (xs : List α) : (ordered key xs).Perm xs :=
  List.perm_insertionSort _ xs

theorem ordered_ascending (distinct : (xs.map key).Nodup) : Ascending key (ordered key xs) := by
  have total : Std.Total fun a b : α => key a ≤ key b := ⟨fun a b => le_total (key a) (key b)⟩
  have trans : IsTrans α fun a b => key a ≤ key b := ⟨fun _ _ _ => le_trans⟩
  have sorted := List.pairwise_insertionSort (fun a b : α => key a ≤ key b) xs
  have apart : (ordered key xs).Pairwise fun a b => key a ≠ key b :=
    List.pairwise_map.mp (((ordered_perm key xs).map key).nodup_iff.mpr distinct)
  exact (sorted.and apart).imp fun ⟨le, ne⟩ => lt_of_le_of_ne le ne

theorem Ascending.nodup (ascending : Ascending key xs) : xs.Nodup :=
  ascending.imp fun lt same => absurd (same ▸ lt) (lt_irrefl _)

/-- The order leaves no choice. -/
theorem Ascending.eq_of_mem (xsUp : Ascending key xs) (ysUp : Ascending key ys)
    (same : ∀ a, a ∈ xs ↔ a ∈ ys) : xs = ys := by
  have perm := (List.perm_ext_iff_of_nodup xsUp.nodup ysUp.nodup).mpr same
  exact perm.eq_of_pairwise (fun a b _ _ ab ba => absurd (ab.trans ba) (lt_irrefl (key a))) xsUp ysUp

/-- A part that holds, with an element, every smaller one comes first. -/
theorem Ascending.split {inside} (ascending : Ascending key xs)
    (down : ∀ a ∈ xs, ∀ b ∈ xs, key a < key b → inside b = true → inside a = true) :
    xs = xs.filter inside ++ xs.filter fun a => !inside a := by
  induction xs with
  | nil => rfl
  | cons a xs ih =>
    obtain ⟨least, ascending⟩ := List.pairwise_cons.mp ascending
    have rest := ih ascending fun b there c also =>
      down b (List.mem_cons_of_mem a there) c (List.mem_cons_of_mem a also)
    by_cases into : inside a = true
    · simpa [into] using rest
    · have none : xs.filter inside = [] := List.filter_eq_nil_iff.mpr fun b there held =>
        into (down a List.mem_cons_self b (List.mem_cons_of_mem a there) (least b there) held)
      rw [none] at rest
      simpa [into, none] using rest

end order

/-! ## Reading from a key on -/

variable {κ ν : Type} [LinearOrder κ] {t : AList fun _ : κ => ν} {start k : κ} {v : ν}

/-- The bindings from a key on, in order. -/
def iterate (t : AList fun _ : κ => ν) (start : κ) : List (κ × ν) :=
  (ordered Prod.fst (bindings t)).filter fun e => start ≤ e.1

theorem mem_iterate [DecidableEq κ] :
    (k, v) ∈ iterate t start ↔ t.lookup k = some v ∧ start ≤ k := by
  rw [iterate, List.mem_filter, (ordered_perm Prod.fst _).mem_iff, mem_bindings, decide_eq_true_eq]

theorem iterate_ascending (t : AList fun _ : κ => ν) (start : κ) :
    Ascending Prod.fst (iterate t start) :=
  (ordered_ascending (bindings_distinct t)).filter _

section prefixes

variable {α : Type} [DecidableEq α]

/-- The bindings whose key has the prefix. -/
def within (p : List α) (xs : List (List α × ν)) : List (List α × ν) :=
  xs.filter fun e => p.isPrefixOf e.1

/-- The bindings whose key has not. -/
def past (p : List α) (xs : List (List α × ν)) : List (List α × ν) :=
  xs.filter fun e => !p.isPrefixOf e.1

variable {p : List α} {xs : List (List α × ν)} {e : List α × ν}

theorem mem_within : e ∈ within p xs ↔ e ∈ xs ∧ p <+: e.1 := by
  rw [within, List.mem_filter, List.isPrefixOf_iff_prefix]

theorem mem_past : e ∈ past p xs ↔ e ∈ xs ∧ ¬ p <+: e.1 := by
  rw [past, List.mem_filter, Bool.not_eq_true', Bool.eq_false_iff, ne_eq,
    List.isPrefixOf_iff_prefix]

end prefixes

end Scan
