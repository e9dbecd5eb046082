import Mathlib.Data.List.Perm.Basic
import Spica.Lib.Scan

/-! # Pending writes over a table

A batch holds bindings to be written to a table, or decisions about the members of a set. A
reader looks in the batch first and then in the table. What it sees does not depend on how often a
key was written before, nor on the order in which the batch lands in the end.
-/

namespace Overlay

/-! ## Bindings -/

section bindings

variable {κ ν : Type} [DecidableEq κ] {t base batch : AList fun _ : κ => ν} {k j : κ} {v : ν}
  {es : List (κ × ν)}

/-- The binding a reader finds: the pending one, or the table's. -/
def through (base batch : AList fun _ : κ => ν) (k : κ) : Option ν :=
  match batch.lookup k with
  | some v => some v
  | none => base.lookup k

theorem through_insert (base batch : AList fun _ : κ => ν) (k j : κ) (v : ν) :
    through base (batch.insert k v) j = if j = k then some v else through base batch j := by
  unfold through
  by_cases same : j = k
  · rw [same, AList.lookup_insert, if_pos rfl]
  · rw [AList.lookup_insert_ne same, if_neg same]

/-- Every binding is written, later ones over earlier ones. -/
def extend (t : AList fun _ : κ => ν) (es : List (κ × ν)) : AList fun _ : κ => ν :=
  es.foldl (fun t e => t.insert e.1 e.2) t

theorem lookup_extend_of_not_mem (absent : ∀ v, (k, v) ∉ es) :
    (extend t es).lookup k = t.lookup k := by
  induction es generalizing t with
  | nil => rfl
  | cons e es ih =>
    have other : k ≠ e.1 := by
      rintro rfl
      exact absent e.2 List.mem_cons_self
    rw [extend, List.foldl_cons]
    rw [← extend, ih fun v there => absent v (List.mem_cons_of_mem e there)]
    exact AList.lookup_insert_ne other

theorem lookup_extend_of_mem (distinct : (es.map Prod.fst).Nodup) (there : (k, v) ∈ es) :
    (extend t es).lookup k = some v := by
  induction es generalizing t with
  | nil => cases there
  | cons e es ih =>
    obtain ⟨fresh, distinct⟩ := List.nodup_cons.mp distinct
    rcases List.mem_cons.mp there with rfl | there
    · have absent (v' : ν) : (k, v') ∉ es := fun also =>
        fresh (List.mem_map.mpr ⟨(k, v'), also, rfl⟩)
      show (extend (t.insert k v) es).lookup k = some v
      rw [lookup_extend_of_not_mem absent, AList.lookup_insert]
    · exact ih distinct there

/-- Once the batch has landed, in whichever order, the table is what the reader saw. -/
theorem lookup_extend (perm : es.Perm (Scan.bindings batch)) :
    (extend base es).lookup k = through base batch k := by
  have distinct : (es.map Prod.fst).Nodup :=
    (perm.map Prod.fst).nodup_iff.mpr (Scan.bindings_distinct batch)
  unfold through
  cases pending : batch.lookup k with
  | some v => exact lookup_extend_of_mem distinct (perm.mem_iff.mpr (Scan.mem_bindings.mpr pending))
  | none =>
    refine lookup_extend_of_not_mem fun v there => ?_
    rw [Scan.mem_bindings.mp (perm.mem_iff.mp there)] at pending
    cases pending

/-- Tables that bind alike have the same bindings. -/
theorem bindings_perm (same : ∀ k, t.lookup k = base.lookup k) :
    (Scan.bindings t).Perm (Scan.bindings base) := by
  refine (List.perm_ext_iff_of_nodup (.of_map _ (Scan.bindings_distinct t))
    (.of_map _ (Scan.bindings_distinct base))).mpr fun e => ?_
  rw [Scan.mem_bindings, Scan.mem_bindings, same]

end bindings

/-! ## Members -/

section members

variable {α : Type} [DecidableEq α] {xs : List α} {a : α} {es : List (α × Bool)}
  {batch : AList fun _ : α => Bool}

/-- Whether a reader finds the element: as decided, or as the set has it. -/
def Present (xs : List α) (batch : AList fun _ : α => Bool) (a : α) : Prop :=
  (batch.lookup a).elim (a ∈ xs) (· = true)

theorem present_insert (xs : List α) (batch : AList fun _ : α => Bool) (a b : α) (present : Bool) :
    Present xs (batch.insert b present) a ↔ if a = b then present = true else Present xs batch a := by
  unfold Present
  by_cases same : a = b
  · rw [same, AList.lookup_insert, if_pos rfl, Option.elim_some]
  · rw [AList.lookup_insert_ne same, if_neg same]

/-- Every decision is carried out: an element put in or taken out. -/
def settle (xs : List α) (es : List (α × Bool)) : List α :=
  es.foldl (fun xs e => if e.2 then xs.insert e.1 else xs.filter (· ≠ e.1)) xs

theorem mem_settle_cons (e : α × Bool) :
    a ∈ settle xs (e :: es) ↔
      a ∈ settle (if e.2 then xs.insert e.1 else xs.filter (· ≠ e.1)) es := .rfl

theorem mem_settle_of_not_mem (absent : ∀ present, (a, present) ∉ es) :
    a ∈ settle xs es ↔ a ∈ xs := by
  induction es generalizing xs with
  | nil => rfl
  | cons e es ih =>
    have other : a ≠ e.1 := by
      rintro rfl
      exact absent e.2 List.mem_cons_self
    rw [mem_settle_cons, ih fun present there => absent present (List.mem_cons_of_mem e there)]
    cases e.2 <;> simp [other]

theorem mem_settle_of_mem {present} (there : (a, present) ∈ es)
    (agreed : ∀ other, (a, other) ∈ es → other = present) : a ∈ settle xs es ↔ present = true := by
  induction es generalizing xs with
  | nil => cases there
  | cons e es ih =>
    rw [mem_settle_cons]
    -- a later decision, if there is one, says the same
    by_cases again : ∃ other, (a, other) ∈ es
    · obtain ⟨other, later⟩ := again
      obtain rfl := agreed other (List.mem_cons_of_mem e later)
      exact ih later fun other there => agreed other (List.mem_cons_of_mem e there)
    · rcases List.mem_cons.mp there with rfl | there
      · rw [mem_settle_of_not_mem fun other later => again ⟨other, later⟩]
        cases present <;> simp
      · exact absurd ⟨present, there⟩ again

/-- If the decisions about an element are those of a batch, so is what becomes of it. -/
theorem mem_settle_of_decided {pending}
    (decided : ∀ present, (a, present) ∈ es ↔ pending = some present) :
    a ∈ settle xs es ↔ pending.elim (a ∈ xs) (· = true) := by
  cases pending with
  | some present =>
    refine mem_settle_of_mem ((decided present).mpr rfl) fun other there => ?_
    exact (Option.some.inj ((decided other).mp there)).symm
  | none =>
    refine mem_settle_of_not_mem fun present there => ?_
    cases (decided present).mp there

/-- Once the decisions are carried out, in whichever order, the set is what the reader saw. -/
theorem mem_settle (perm : es.Perm (Scan.bindings batch)) :
    a ∈ settle xs es ↔ Present xs batch a := by
  have decided (present : Bool) : (a, present) ∈ es ↔ batch.lookup a = some present := by
    rw [perm.mem_iff, Scan.mem_bindings]
  exact mem_settle_of_decided decided

end members

end Overlay
