import Mathlib.Logic.Function.Basic

/-! # Ownership forests

Objects are filed under keys. Each has an identity, an owner and is live or settled; beside the
objects stands a relation of edges that is kept on its own. A forest is sound when the edges are
exactly the pairs of an owner and its live object and when, of the objects their owner holds,
none outlives it.
-/

structure Forest.Node (ι : Type) where
  id : ι
  owner : Option ι
  live : Bool
  deriving DecidableEq

structure Forest (κ ι : Type) where
  node : κ → Option (Forest.Node ι)
  edge : ι → ι → Prop

namespace Forest

variable {κ ι : Type} {key : ι → κ} {held : κ → Prop} {f : Forest κ ι} {k : κ} {n m : Node ι}
  {p c : ι}

structure Sound (key : ι → κ) (held : κ → Prop) (f : Forest κ ι) : Prop where
  /-- An object is filed under the key of its identity. -/
  filed : ∀ {k n}, f.node k = some n → key n.id = k
  mirrors : ∀ p c, f.edge p c ↔ ∃ n, f.node (key c) = some n ∧ n.id = c ∧ n.owner = some p ∧ n.live
  /-- A held object's owner exists, and is live as long as the object is. -/
  owned : ∀ {k n p}, held k → f.node k = some n → n.owner = some p →
    ∃ m, f.node (key p) = some m ∧ m.id = p ∧ (n.live → m.live)

/-- No object has two owners that hold an edge to it. -/
theorem Sound.unique_owner (sound : f.Sound key held) {q} (one : f.edge p c) (other : f.edge q c) :
    p = q := by
  obtain ⟨n, found, -, owner, -⟩ := (sound.mirrors p c).mp one
  obtain ⟨m, found', -, owner', -⟩ := (sound.mirrors q c).mp other
  rw [found] at found'
  cases found'
  rw [owner] at owner'
  exact Option.some.inj owner'

section Changes

variable [DecidableEq κ]

/-- A new object, with the edge from its owner. -/
def born (f : Forest κ ι) (k : κ) (n : Node ι) : Forest κ ι where
  node := Function.update f.node k (some n)
  edge p c := f.edge p c ∨ n.owner = some p ∧ c = n.id

/-- An object settles and its owner's edge to it goes. -/
def settled (f : Forest κ ι) (k : κ) (n : Node ι) : Forest κ ι where
  node := Function.update f.node k (some { n with live := false })
  edge p c := f.edge p c ∧ ¬(n.owner = some p ∧ c = n.id)

theorem born_self : (f.born k n).node k = some n := Function.update_self ..

theorem born_other {k'} (other : k' ≠ k) : (f.born k n).node k' = f.node k' :=
  Function.update_of_ne other ..

theorem settled_self : (f.settled k n).node k = some { n with live := false } :=
  Function.update_self ..

theorem settled_other {k'} (other : k' ≠ k) : (f.settled k n).node k' = f.node k' :=
  Function.update_of_ne other ..

theorem Sound.born (sound : f.Sound key held) (fresh : f.node k = none) (filed : key n.id = k)
    (live : n.live) (owned : held k → ∀ p, n.owner = some p →
      ∃ m, f.node (key p) = some m ∧ m.id = p ∧ m.live) : (f.born k n).Sound key held := by
  -- whoever was there before is not the new object
  have other : ∀ {k' m}, f.node k' = some m → k' ≠ k := by
    rintro k' m found rfl
    rw [fresh] at found
    cases found
  constructor
  · intro k' m found
    by_cases same : k' = k
    · subst same
      rw [born_self] at found
      cases found
      exact filed
    · rw [born_other same] at found
      exact sound.filed found
  · intro p c
    by_cases same : key c = k
    · have none_before : ¬f.edge p c := by
        intro edge
        obtain ⟨m, found, -⟩ := (sound.mirrors p c).mp edge
        exact other found same
      rw [same, born_self]
      simp only [Forest.born, Option.some.injEq, exists_eq_left', live, and_true, none_before,
        false_or]
      exact ⟨fun ⟨owner, id⟩ => ⟨id.symm, owner⟩, fun ⟨id, owner⟩ => ⟨owner, id.symm⟩⟩
    · have not_new : c ≠ n.id := fun id => same (id ▸ filed)
      rw [born_other same]
      simp only [Forest.born, not_new, and_false, or_false]
      exact sound.mirrors p c
  · intro k' m p holds found owner
    by_cases same : k' = k
    · subst same
      rw [born_self] at found
      cases found
      obtain ⟨o, there, id, live⟩ := owned holds p owner
      exact ⟨o, by rw [born_other (other there), there], id, fun _ => live⟩
    · rw [born_other same] at found
      obtain ⟨o, there, rest⟩ := sound.owned holds found owner
      exact ⟨o, by rw [born_other (other there), there], rest⟩

theorem Sound.settled (sound : f.Sound key held) (present : f.node k = some n)
    (drained : ∀ c, f.edge n.id c → ¬held (key c)) : (f.settled k n).Sound key held := by
  constructor
  · intro k' m found
    by_cases same : k' = k
    · subst same
      rw [settled_self] at found
      cases found
      exact (sound.filed present : _)
    · rw [settled_other same] at found
      exact sound.filed found
  · intro p c
    by_cases same : key c = k
    · rw [same, settled_self]
      simp only [Forest.settled, Option.some.injEq, exists_eq_left', Bool.false_eq_true, and_false,
        iff_false]
      rintro ⟨edge, gone⟩
      obtain ⟨m, found, id, owner, -⟩ := (sound.mirrors p c).mp edge
      rw [same, present] at found
      cases found
      exact gone ⟨owner, id.symm⟩
    · have not_it : c ≠ n.id := fun id => same (id ▸ sound.filed present)
      rw [settled_other same]
      simp only [Forest.settled, not_it, and_false, not_false_eq_true, and_true]
      exact sound.mirrors p c
  · intro k' m p holds found owner
    -- the object as it was before
    obtain ⟨m₀, found₀, owner₀, live₀⟩ : ∃ m₀, f.node k' = some m₀ ∧ m₀.owner = some p ∧
        (m.live → m₀.live) := by
      by_cases same : k' = k
      · subst same
        rw [settled_self] at found
        cases found
        exact ⟨n, present, owner, fun live => absurd live Bool.false_ne_true⟩
      · rw [settled_other same] at found
        exact ⟨m, found, owner, id⟩
    obtain ⟨o, there, rfl, alive⟩ := sound.owned holds found₀ owner₀
    by_cases same : key o.id = k
    · rw [same, present] at there
      cases there
      refine ⟨{ n with live := false }, by rw [same, settled_self], rfl, fun live => ?_⟩
      -- a live held object would have been an edge of the one that settles
      have filed := sound.filed found₀
      refine absurd ?_ (drained m₀.id ((sound.mirrors _ _).mpr
        ⟨m₀, by rw [filed, found₀], rfl, owner₀, live₀ live⟩))
      rwa [filed]
    · exact ⟨o, by rw [settled_other same, there], rfl,
        fun live => alive (live₀ live)⟩

end Changes

/-! ## What lies below an object -/

/-- The held objects below another one in the forest. -/
inductive Below (key : ι → κ) (held : κ → Prop) (f : Forest κ ι) (p : ι) : ι → Prop
  | child {c : ι} {n} : held (key c) → f.node (key c) = some n → n.id = c →
      n.owner = some p → Below key held f p c
  | deeper {q c n} : Below key held f p q → held (key c) →
      f.node (key c) = some n → n.id = c → n.owner = some q → Below key held f p c

/-- A held child of a settled object is settled. -/
theorem Sound.child_settled (sound : f.Sound key held) (holds : held (key c))
    (found : f.node (key c) = some n) (owner : n.owner = some p)
    (settled : ∀ m, f.node (key p) = some m → m.id = p → m.live = false) : n.live = false := by
  obtain ⟨m, there, id, alive⟩ := sound.owned holds found owner
  by_contra live
  rw [Bool.not_eq_false] at live
  rw [settled m there id] at alive
  exact Bool.false_ne_true (alive live)

/-- Everything below a settled object is settled. -/
theorem Sound.below_settled (sound : f.Sound key held) (below : Below key held f p c)
    (settled : ∀ m, f.node (key p) = some m → m.id = p → m.live = false) :
    ∀ n, f.node (key c) = some n → n.id = c → n.live = false := by
  induction below with
  | child holds found id owner =>
    intro n found' _
    rw [found] at found'
    cases found'
    exact sound.child_settled holds found owner settled
  | deeper _ holds found id owner ih =>
    intro n found' _
    rw [found] at found'
    cases found'
    exact sound.child_settled holds found owner ih

end Forest
