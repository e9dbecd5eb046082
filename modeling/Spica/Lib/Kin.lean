import Mathlib.Logic.Relation
import Mathlib.Order.RelClasses
import Mathlib.Logic.Function.Basic

/-! # Families

Objects are filed under keys. Each has an identity and an owner, unless it is a root, and carries
the identity of the root it says it belongs to. In a sound family that is the root at the top of
its chain of owners, and the chains go down a rank.
-/

namespace Kin

variable {κ ι : Type}

structure Member (ι : Type) where
  id : ι
  owner : Option ι
  root : ι
  deriving DecidableEq

/-- The object filed under the second key is owned by the one under the first. -/
def Owns (key : ι → κ) (member : κ → Option (Member ι)) (j k : κ) : Prop :=
  ∃ m i, member k = some m ∧ m.owner = some i ∧ key i = j

/-- The chain of owners of the object under the first key ends at the root under the second. -/
inductive Rooted (key : ι → κ) (member : κ → Option (Member ι)) : κ → κ → Prop
  | root {k m} (found : member k = some m) (top : m.owner = none) : Rooted key member k k
  | owned {k r m i} (found : member k = some m) (owner : m.owner = some i)
      (above : Rooted key member (key i) r) : Rooted key member k r

structure Sound (key : ι → κ) (rank : κ → Nat) (member : κ → Option (Member ι)) : Prop where
  filed : ∀ {k m}, member k = some m → key m.id = k
  top : ∀ {k m}, member k = some m → m.owner = none → m.root = m.id
  owned : ∀ {k m i}, member k = some m → m.owner = some i →
    ∃ n, member (key i) = some n ∧ n.id = i ∧ n.root = m.root ∧ rank (key i) < rank k

variable {key : ι → κ} {rank : κ → Nat} {member member' : κ → Option (Member ι)} {k r : κ}
  {m : Member ι}

theorem empty_sound : Sound key rank (fun _ => none : κ → Option (Member ι)) where
  filed := by rintro _ _ ⟨⟩
  top := by rintro _ _ ⟨⟩
  owned := by rintro _ _ _ ⟨⟩

/-- There is no endless chain of owners. -/
theorem Sound.wellFounded (sound : Sound key rank member) : WellFounded (Owns key member) := by
  have down : Subrelation (Owns key member) (measure rank).rel := by
    rintro _ k ⟨m, i, found, owner, rfl⟩
    obtain ⟨n, -, -, -, below⟩ := sound.owned found owner
    exact below
  exact down.wf (measure rank).wf

/-- Every object's chain ends at the root it carries. -/
theorem Sound.rooted (sound : Sound key rank member) (found : member k = some m) :
    Rooted key member k (key m.root) := by
  induction k using sound.wellFounded.induction generalizing m with
  | _ k ih =>
    cases owner : m.owner with
    | none =>
      rw [sound.top found owner, sound.filed found]
      exact .root found owner
    | some i =>
      obtain ⟨n, there, -, same, -⟩ := sound.owned found owner
      have above := ih (key i) ⟨m, i, found, owner, rfl⟩ there
      rw [same] at above
      exact .owned found owner above

/-- The root an object carries is there. -/
theorem Sound.root (sound : Sound key rank member) (found : member k = some m) :
    ∃ n, member (key m.root) = some n ∧ n.id = m.root := by
  induction k using sound.wellFounded.induction generalizing m with
  | _ k ih =>
    cases owner : m.owner with
    | none =>
      refine ⟨m, ?_, (sound.top found owner).symm⟩
      rw [sound.top found owner, sound.filed found]
      exact found
    | some i =>
      obtain ⟨n, there, -, same, -⟩ := sound.owned found owner
      rw [← same]
      exact ih (key i) ⟨m, i, found, owner, rfl⟩ there

/-- A chain has one end. -/
theorem Rooted.unique {r'} (one : Rooted key member k r) (other : Rooted key member k r') :
    r = r' := by
  induction one with
  | root found top =>
    cases other with
    | root => rfl
    | owned found' owner =>
      cases found.symm.trans found'
      cases top.symm.trans owner
  | owned found owner _ ih =>
    cases other with
    | root found' top =>
      cases found.symm.trans found'
      cases top.symm.trans owner
    | owned found' owner' above =>
      cases found.symm.trans found'
      cases owner.symm.trans owner'
      exact ih above

theorem Rooted.found (rooted : Rooted key member k r) : ∃ m, member k = some m := by
  cases rooted with
  | root found | owned found => exact ⟨_, found⟩

theorem Sound.rooted_iff (sound : Sound key rank member) :
    Rooted key member k r ↔ ∃ m, member k = some m ∧ key m.root = r := by
  constructor
  · intro rooted
    obtain ⟨m, found⟩ := rooted.found
    exact ⟨m, found, (sound.rooted found).unique rooted⟩
  · rintro ⟨m, found, rfl⟩
    exact sound.rooted found

/-- One family goes on from another: no member is lost or changed. -/
def Grows (member member' : κ → Option (Member ι)) : Prop :=
  ∀ k m, member k = some m → member' k = some m

theorem Grows.refl : Grows member member := fun _ _ found => found

theorem Grows.trans {member''} (first : Grows member member') (second : Grows member' member'') :
    Grows member member'' :=
  fun k m found => second k m (first k m found)

/-! ## What is under an object -/

/-- The object under the second key is the one under the first, or owned by it in the end. -/
abbrev Under (key : ι → κ) (member : κ → Option (Member ι)) : κ → κ → Prop :=
  Relation.ReflTransGen (Owns key member)

theorem Grows.owns {j} (grows : Grows member member') (owns : Owns key member j k) :
    Owns key member' j k := by
  obtain ⟨m, i, found, owner, filed⟩ := owns
  exact ⟨m, i, grows _ _ found, owner, filed⟩

theorem Grows.under {j} (grows : Grows member member') (under : Under key member j k) :
    Under key member' j k :=
  Relation.ReflTransGen.mono (fun _ _ => grows.owns) _ _ under

theorem Owns.unique {i j} (one : Owns key member i k) (other : Owns key member j k) : i = j := by
  obtain ⟨m, o, found, owner, rfl⟩ := one
  obtain ⟨m', o', found', owner', rfl⟩ := other
  cases found.symm.trans found'
  cases owner.symm.trans owner'
  rfl

/-- An owner of what is under an object is under it too, but for the owner of the object. -/
theorem Under.owner {i j} (under : Under key member j k) (other : k ≠ j)
    (owns : Owns key member i k) : Under key member j i := by
  cases under with
  | refl => exact absurd rfl other
  | tail above last => exact last.unique owns ▸ above

/-- Nothing is under what it owns. -/
theorem Sound.not_under {j} (sound : Sound key rank member) (owns : Owns key member j k) :
    ¬Under key member k j := by
  intro under
  have around : Relation.TransGen (Owns key member) k k := .tail' under owns
  exact sound.wellFounded.transGen.asymmetric _ _ around around

variable [DecidableEq κ]

theorem grows_update (fresh : member k = none) : Grows member (Function.update member k (some m)) := by
  intro j n found
  rw [Function.update_of_ne]
  · exact found
  · rintro rfl
    cases fresh.symm.trans found

/-- A birth keeps a family sound. -/
theorem Sound.born (sound : Sound key rank member) (fresh : member k = none) (filed : key m.id = k)
    (top : m.owner = none → m.root = m.id)
    (owned : ∀ i, m.owner = some i →
      ∃ n, member (key i) = some n ∧ n.id = i ∧ n.root = m.root ∧ rank (key i) < rank k) :
    Sound key rank (Function.update member k (some m)) := by
  have grows : Grows member (Function.update member k (some m)) := grows_update fresh
  have old {j : κ} {n : Member ι} (found : Function.update member k (some m) j = some n) :
      j = k ∧ n = m ∨ member j = some n := by
    by_cases same : j = k
    · subst same
      rw [Function.update_self] at found
      exact .inl ⟨rfl, (Option.some.inj found).symm⟩
    · rw [Function.update_of_ne same] at found
      exact .inr found
  constructor
  · intro j n found
    rcases old found with ⟨rfl, rfl⟩ | found
    · exact filed
    · exact sound.filed found
  · intro j n found
    rcases old found with ⟨rfl, rfl⟩ | found
    · exact top
    · exact sound.top found
  · intro j n i found owner
    rcases old found with ⟨rfl, rfl⟩ | found
    · obtain ⟨o, there, rest⟩ := owned i owner
      exact ⟨o, grows _ _ there, rest⟩
    · obtain ⟨o, there, rest⟩ := sound.owned found owner
      exact ⟨o, grows _ _ there, rest⟩

end Kin
