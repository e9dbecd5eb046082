import Mathlib.Data.List.AList

/-! # JSON values

`serde_json::Value` and the variable scopes built from it. A floating-point number is kept as
its bit pattern: no arithmetic is done on it here, and the few places that convert one take
the conversion as a parameter.
-/

namespace Spica

/-! The number of values of the source's machine integers. -/

def u32Size : Nat := 4294967296
def u64Size : Nat := 18446744073709551616

/-- A finite map, as the association list that holds each key once. -/
abbrev Table (κ ν : Type) : Type := AList (fun _ : κ => ν)

/-- A double, as its bit pattern. -/
structure F64 where
  bits : Nat
  deriving Repr, DecidableEq

/-- `serde_json::Number`: an unsigned, a negative, or a floating-point number. -/
inductive Number where
  | posInt (n : Nat)
  | negInt (i : Int)
  | float (x : F64)
  deriving Repr, DecidableEq

/-- `serde_json::Value`. -/
inductive Json where
  | null
  | bool (b : Bool)
  | number (n : Number)
  | string (s : String)
  | array (items : List Json)
  /-- the fields in key order -/
  | object (fields : List (String × Json))
  deriving Repr, Inhabited

namespace Json

mutual
/-- Structural comparison. -/
def same : Json → Json → Bool
  | .null, .null => true
  | .bool a, .bool b => a == b
  | .number a, .number b => a == b
  | .string a, .string b => a == b
  | .array as, .array bs => sameItems as bs
  | .object fs, .object gs => sameFields fs gs
  | _, _ => false

def sameItems : List Json → List Json → Bool
  | [], [] => true
  | a :: as, b :: bs => same a b && sameItems as bs
  | _, _ => false

def sameFields : List (String × Json) → List (String × Json) → Bool
  | [], [] => true
  | (k, a) :: fs, (l, b) :: gs => k == l && same a b && sameFields fs gs
  | _, _ => false
end

mutual
theorem same_iff (a b : Json) : same a b = true ↔ a = b := by
  cases a with
  | null | bool | number | string => cases b <;> simp [same]
  | array as => cases b <;> simp [same, sameItems_iff as]
  | object fs => cases b <;> simp [same, sameFields_iff fs]

theorem sameItems_iff (as bs : List Json) : sameItems as bs = true ↔ as = bs := by
  cases as with
  | nil => cases bs <;> simp [sameItems]
  | cons a as => cases bs <;> simp [sameItems, same_iff a, sameItems_iff as]

theorem sameFields_iff (fs gs : List (String × Json)) : sameFields fs gs = true ↔ fs = gs := by
  cases fs with
  | nil => cases gs <;> simp [sameFields]
  | cons f fs =>
    obtain ⟨k, a⟩ := f
    cases gs with
    | nil => simp [sameFields]
    | cons g gs =>
      obtain ⟨l, b⟩ := g
      simp [sameFields, same_iff a, sameFields_iff fs, and_assoc]
end

instance : DecidableEq Json := fun a b => decidable_of_iff _ (same_iff a b)

/-- `Value::get` on a key: the field of an object, nothing on anything else. -/
def get (v : Json) (key : String) : Option Json :=
  match v with
  | .object fields => fields.lookup key
  | _ => none

/-- `Value::as_str`. -/
def asStr : Json → Option String
  | .string s => some s
  | _ => none

end Json

/-- A thread's variable scope. -/
abbrev Variables : Type := Table String Json

/-- Bind every pair in order, later ones overriding earlier ones. -/
def Variables.bindAll (scope : Variables) (fields : List (String × Json)) : Variables :=
  fields.foldl (fun acc (k, v) => AList.insert k v acc) scope

end Spica
