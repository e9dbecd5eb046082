import Spica.Types.Json

/-! # Names, references and object metadata

Rows are addressed by name. A plain name is user supplied; a generated one is a plain base
followed by `-` and a number minted from the partition's counter. The `uid` distinguishes
incarnations but is not part of any storage key.
-/

namespace Spica

variable {k : ObjectKind}

/-- Milliseconds since the epoch. -/
structure Timestamp where
  millis : Nat
  deriving Repr, DecidableEq, Inhabited

namespace Timestamp

/-- `checked_add` of a span in whole seconds: `none` when the span or the sum leaves `u64`. -/
def checkedAdd (at_ : Timestamp) (seconds : Nat) : Option Timestamp :=
  if seconds * 1000 < u64Size then
    if at_.millis + seconds * 1000 < u64Size then some ⟨at_.millis + seconds * 1000⟩ else none
  else none

end Timestamp

/-- A 128-bit identifier. -/
structure Ulid where
  value : Nat
  deriving Repr, DecidableEq, Inhabited

namespace Ulid

def nil : Ulid := ⟨0⟩

end Ulid

/-- Identifies one client request awaiting its acknowledgement. -/
structure RequestId where
  id : Ulid
  deriving Repr, DecidableEq, Inhabited

def RequestId.nil : RequestId := ⟨Ulid.nil⟩

/-! ## Names -/

/-- The rule `PlainName::new` enforces: 4 to 64 characters of `A-Za-z0-9_`, the first one
    alphanumeric. -/
def PlainName.isValid (raw : String) : Bool :=
  let chars := raw.toList
  4 ≤ chars.length && chars.length ≤ 64 && (chars.head?.any Char.isAlphanum)
    && chars.all fun c => c.isAlphanum || c == '_'

/-- A user-supplied name. `-` is reserved for generated names. -/
structure PlainName where
  raw : String
  valid : PlainName.isValid raw = true
  deriving DecidableEq

instance : ToString PlainName := ⟨PlainName.raw⟩

abbrev FlowName : Type := PlainName
abbrev ScopeName : Type := PlainName

inductive ObjectName where
  | plain (name : PlainName)
  | generated (base : PlainName) (suffix : Nat)
  deriving DecidableEq

namespace PlainName

def generatedFromKey (base : PlainName) (key : Nat) : ObjectName := .generated base key

end PlainName

namespace ObjectName

def base : ObjectName → PlainName
  | .plain p => p
  | .generated b _ => b

def suffix : ObjectName → Option Nat
  | .plain _ => none
  | .generated _ n => some n

def asPlain : ObjectName → Option PlainName
  | .plain p => some p
  | .generated _ _ => none

def asStr : ObjectName → String
  | .plain p => p.raw
  | .generated b n => s!"{b.raw}-{n}"

instance : ToString ObjectName := ⟨asStr⟩

end ObjectName

/-! ## References -/

inductive ObjectKind where
  | flow
  | flowVersion
  | execution
  | thread
  | activity
  | task
  deriving Repr, DecidableEq

def ObjectKind.asStr : ObjectKind → String
  | .flow => "flow"
  | .flowVersion => "flowversion"
  | .execution => "execution"
  | .thread => "thread"
  | .activity => "activity"
  | .task => "task"

instance : ToString ObjectKind := ⟨ObjectKind.asStr⟩

structure RawObjectRef where
  kind : ObjectKind
  name : ObjectName
  uid : Ulid
  deriving DecidableEq

instance : ToString RawObjectRef := ⟨fun r => s!"{r.kind}/{r.name}"⟩

/-- A reference whose kind is fixed by its type. -/
structure ObjectRef (kind : ObjectKind) where
  name : ObjectName
  uid : Ulid
  deriving DecidableEq

namespace ObjectRef

/-- `as_raw_object_ref` / `into_raw_object_ref`. -/
def raw {k : ObjectKind} (r : ObjectRef k) : RawObjectRef := ⟨k, r.name, r.uid⟩

instance {k : ObjectKind} : ToString (ObjectRef k) := ⟨fun r => toString r.raw⟩

@[simp] theorem raw_kind (r : ObjectRef k) : r.raw.kind = k := rfl
@[simp] theorem raw_name (r : ObjectRef k) : r.raw.name = r.name := rfl
@[simp] theorem raw_uid (r : ObjectRef k) : r.raw.uid = r.uid := rfl

theorem raw_injective {r s : ObjectRef k} (h : r.raw = s.raw) : r = s := by
  cases r
  cases s
  simpa [raw] using h

end ObjectRef

/-- `RawObjectRef::typed` once the caller has matched the kind. -/
def RawObjectRef.typed (r : RawObjectRef) (k : ObjectKind) : ObjectRef k := ⟨r.name, r.uid⟩

theorem RawObjectRef.typed_raw {r : RawObjectRef} (h : r.kind = k) : (r.typed k).raw = r := by
  cases r
  cases h
  rfl

/-- A thread is owned by its execution (the root thread) or by a fan-out activity. -/
inductive ThreadOwner where
  | execution (r : ObjectRef .execution)
  | activity (r : ObjectRef .activity)
  deriving DecidableEq

def ThreadOwner.raw : ThreadOwner → RawObjectRef
  | .execution r => r.raw
  | .activity r => r.raw

/-! ## Metadata -/

/-- `ObjectMeta` of an object whose owner slot has type `ω`. -/
structure ObjectMeta (ω : Type) where
  tenant : ScopeName
  ns : ScopeName
  name : ObjectName
  uid : Ulid
  createdAt : Timestamp
  updatedAt : Timestamp
  owner : ω
  deriving DecidableEq

namespace ObjectMeta

variable {ω : Type}

private def defaultScope : ScopeName := ⟨"default", by decide⟩

/-- `ObjectMeta::builder(uid).name(name).at(at).with_owner(owner)`. -/
def build (uid : Ulid) (name : ObjectName) (at_ : Timestamp) (owner : ω) : ObjectMeta ω where
  tenant := defaultScope
  ns := defaultScope
  name := name
  uid := uid
  createdAt := at_
  updatedAt := at_
  owner := owner

def objectRef (m : ObjectMeta ω) (k : ObjectKind) : ObjectRef k := ⟨m.name, m.uid⟩

/-- `with_update_at`. -/
def withUpdateAt (m : ObjectMeta ω) (at_ : Timestamp) : ObjectMeta ω := { m with updatedAt := at_ }

/-- Everything of the metadata that no update may touch. -/
def SameIdentity (m n : ObjectMeta ω) : Prop :=
  m.tenant = n.tenant ∧ m.ns = n.ns ∧ m.name = n.name ∧ m.uid = n.uid ∧
    m.createdAt = n.createdAt ∧ m.owner = n.owner

end ObjectMeta

end Spica
