import Spica.Keys
import Spica.Serde

/-! # Names, references and metadata as JSON

Names, identities and state paths are strings, instants numbers. A reference is an object with its
kind, and a slot for one kind refuses every other.

The source reads any string as a plain name; one that breaks the rule of `new` is no value of the
type here.
-/

namespace Spica.Wire

open Serde

/-! ## Names -/

abbrev plainName : Codec PlainName :=
  Codec.string.checked
    (fun s => if valid : PlainName.isValid s = true then .ok ⟨s, valid⟩
      else .error (.invalidValue "plain object name"))
    PlainName.raw (fun _ => True) (fun p _ => ⟨trivial, dif_pos p.valid⟩)

abbrev objectName : Codec ObjectName :=
  Codec.string.checked (fun s => (ObjectName.fromParsed id s).mapError .invalidValue)
    ObjectName.asStr ObjectName.Fits
    (fun n fits => ⟨trivial, by rw [ObjectName.fromParsed_asStr id fits]; rfl⟩)

/-! ## Kinds and instants -/

def objectKindVariant : ObjectKind → Variant ObjectKind
  | .flow => .unit "Flow" .flow
  | .flowVersion => .unit "FlowVersion" .flowVersion
  | .execution => .unit "Execution" .execution
  | .thread => .unit "Thread" .thread
  | .activity => .unit "Activity" .activity
  | .task => .unit "Task" .task

def objectKind : Codec ObjectKind :=
  .enum objectKindVariant
    [("Flow", readUnit .flow), ("FlowVersion", readUnit .flowVersion),
      ("Execution", readUnit .execution), ("Thread", readUnit .thread),
      ("Activity", readUnit .activity), ("Task", readUnit .task)]
    (by intro k; cases k <;> rfl)

instance : objectKind.Exact := enum_exact fun k => by cases k <;> rfl

theorem objectKind_valid (k : ObjectKind) : objectKind.Valid k := by cases k <;> trivial

abbrev timestamp : Codec Timestamp := (Codec.unsigned u64Size).iso .mk Timestamp.millis fun _ => rfl

/-! ## Slots of the metadata -/

/-- The owner slot of a root: no field is written, and none may be there. -/
def noOwner : Fields Unit where
  names := ["owner"]
  write _ := []
  read fields := do
    match ← field "owner" fields with
    | none | some .null => .ok ()
    | some _ => .error (.invalidValue "a root object cannot be owned")
  Valid _ := True
  back := id
  named _ _ there := by cases there
  law _ _ _ fields here := by
    simp only [field, filter_name here]
    rfl

instance : noOwner.Exact := ⟨fun _ => rfl⟩

theorem noOwner_named : noOwner.names = ["owner"] := rfl

theorem owner_named {ω : Type} (c : Codec ω) : (Fields.required "owner" c).names = ["owner"] := rfl

/-- The kind is the type's: it is written, and a row of another kind is refused. -/
abbrev kindTag (k : ObjectKind) : Codec Unit :=
  objectKind.checked
    (fun seen => if seen = k then .ok () else .error (.invalidValue "object meta kind mismatch"))
    (fun _ => k) (fun _ => True) (fun _ _ => ⟨objectKind_valid k, if_pos rfl⟩)

/-! ## Identities and state paths -/

def u128Size : Nat := 340282366920938463463374607431768211456

/-- Each character is marked, and each token closed. -/
def mark (tokens : List String) : List Char :=
  tokens.flatMap fun t => (t.toList.flatMap fun c => ['~', c]) ++ ['/']

def unmark : List Char → Option (List String)
  | [] => some []
  | '/' :: cs => (unmark cs).map ("" :: ·)
  | '~' :: c :: cs =>
    match unmark cs with
    | some (t :: ts) => some (String.ofList (c :: t.toList) :: ts)
    | _ => none
  | _ => none

theorem unmark_mark (tokens : List String) : unmark (mark tokens) = some tokens := by
  have one (token : List Char) {cs : List Char} {ts : List String} (rest : unmark cs = some ts) :
      unmark ((token.flatMap fun c => ['~', c]) ++ '/' :: cs) =
        some (String.ofList token :: ts) := by
    induction token with
    | nil => simp [unmark, rest]
    | cons c token ih => simp [unmark, ih]
  induction tokens with
  | nil => rfl
  | cons t ts ih => simpa [mark] using one t.toList ih

/-- The texts that other crates define: of an identity, of a state path, which is a JSON pointer, and
    of a failed decoding. What is written of the first two is read back. -/
class Texts where
  ulid : Ulid → String
  ulidFromString : String → Except String Ulid
  ulid_read : ∀ u : Ulid, u.value < u128Size → ulidFromString (ulid u) = .ok u
  pointer : StatePath → String
  parsePointer : String → Except String StatePath
  pointer_read : ∀ p, parsePointer (pointer p) = .ok p
  shown : DecodeError → String

/-- There are such texts: as many strokes as the identity counts, and the marked path. -/
abbrev Texts.marked : Texts where
  ulid u := String.ofList (List.replicate u.value '1')
  ulidFromString s := .ok ⟨s.toList.length⟩
  ulid_read u _ := by simp
  pointer p := String.ofList (mark p.tokens)
  parsePointer s := (unmark s.toList).elim (.error "malformed") fun tokens => .ok ⟨tokens⟩
  pointer_read p := by simp [unmark_mark]
  shown _ := ""

section texts

variable [Texts]

abbrev ulid : Codec Ulid :=
  Codec.string.checked (fun s => (Texts.ulidFromString s).mapError .invalidValue) Texts.ulid
    (fun u => u.value < u128Size)
    (fun u small => ⟨trivial, by rw [Texts.ulid_read u small]; rfl⟩)

abbrev requestId : Codec RequestId := ulid.iso .mk RequestId.id fun _ => rfl

abbrev statePath : Codec StatePath :=
  Codec.string.checked (fun s => (Texts.parsePointer s).mapError .invalidValue) Texts.pointer
    (fun _ => True) (fun p _ => ⟨trivial, by rw [Texts.pointer_read p]; rfl⟩)

/-! ## References -/

abbrev rawObjectRef : Codec RawObjectRef :=
  (Codec.struct
    (.and (.required "kind" objectKind) <|
      .and (.required "name" objectName) <| .required "uid" ulid) (Fields.distinct rfl)).iso
    (fun (a, b, c) => ⟨a, b, c⟩) (fun r => (r.kind, r.name, r.uid)) fun _ => rfl

/-- The name and the identity are in range. -/
def RefFits (name : ObjectName) (uid : Ulid) : Prop := name.Fits ∧ uid.value < u128Size

instance (name : ObjectName) (uid : Ulid) : Decidable (RefFits name uid) :=
  inferInstanceAs (Decidable (_ ∧ _))

theorem rawObjectRef_valid {r} (fits : RefFits r.name r.uid) :
    rawObjectRef.Valid r := ⟨objectKind_valid _, fits.1, fits.2⟩

/-- A reference of another kind is refused. -/
abbrev objectRef (k : ObjectKind) : Codec (ObjectRef k) :=
  rawObjectRef.checked
    (fun r => if r.kind = k then .ok ⟨r.name, r.uid⟩
      else .error (.invalidValue "reference kind mismatch"))
    ObjectRef.raw (fun r => RefFits r.name r.uid)
    (fun _ fits => ⟨rawObjectRef_valid fits, if_pos rfl⟩)

/-- The kind decides which owner it is. -/
abbrev threadOwner : Codec ThreadOwner :=
  rawObjectRef.checked
    (fun r =>
      if r.kind = .execution then .ok (.execution ⟨r.name, r.uid⟩)
      else if r.kind = .activity then .ok (.activity ⟨r.name, r.uid⟩)
      else .error (.invalidValue "reference kind mismatch"))
    ThreadOwner.raw (fun o => RefFits o.raw.name o.raw.uid)
    (fun o fits => ⟨rawObjectRef_valid fits, by cases o <;> rfl⟩)

/-! ## Metadata -/

abbrev metaFields (k : ObjectKind) : Fields (Unit × ScopeName × ScopeName × ObjectName × Ulid ×
    Timestamp × Timestamp) :=
  .and (.required "kind" (kindTag k)) <|
  .and (.required "tenant" plainName) <|
  .and (.required "namespace" plainName) <|
  .and (.required "name" objectName) <|
  .and (.required "uid" ulid) <|
  .and (.required "created_at" timestamp) <| .required "updated_at" timestamp

theorem metaFields_names (k : ObjectKind) : (metaFields k).names =
    ["kind", "tenant", "namespace", "name", "uid", "created_at", "updated_at"] := rfl

def objectMeta {ω : Type} (k : ObjectKind) (owner : Fields ω) (named : owner.names = ["owner"]) :
    Codec (ObjectMeta ω) :=
  (Codec.struct ((metaFields k).and owner) (by
    show ((metaFields k).names ++ owner.names).Nodup
    rw [named, metaFields_names]
    decide)).iso
    (fun t => ⟨t.1.2.1, t.1.2.2.1, t.1.2.2.2.1, t.1.2.2.2.2.1, t.1.2.2.2.2.2.1, t.1.2.2.2.2.2.2, t.2⟩)
    (fun m => (((), m.tenant, m.ns, m.name, m.uid, m.createdAt, m.updatedAt), m.owner))
    fun _ => rfl

instance {ω : Type} (k : ObjectKind) (owner : Fields ω) (named : owner.names = ["owner"])
    [owner.Exact] : (objectMeta k owner named).Exact := by unfold objectMeta; infer_instance

end texts

end Spica.Wire
