import Spica.Types.Json
import Spica.Lib.Numerals

/-! # Serde's rules

How values are written as JSON and read back: fields of structs by name, in any order, fields that
may be absent, enums by an outer tag, maps with their keys as strings. A codec carries, beside the
two functions, the values it is for and what each of them is read back as. An optional field that
holds a JSON null is read back as absent, so that is not always the value itself.

A JSON text is its tree here, with the fields of an object in the order they are written.
-/

namespace Spica

/-- Neither an infinity nor not a number. -/
def F64.isFinite (x : F64) : Bool := x.bits / 4503599627370496 % 2048 != 2047

namespace Serde

/-- Why a JSON value is not read. -/
inductive DecodeError where
  | missingField (name : String)
  | duplicateField (name : String)
  | unknownVariant (name : String)
  | invalidType (expected : String)
  | invalidValue (reason : String)
  deriving DecidableEq

structure Codec (α : Type) where
  write : α → Json
  read : Json → Except DecodeError α
  /-- the values of the source's type, whose numbers are bounded -/
  Valid : α → Prop
  back : α → α
  law : ∀ a, Valid a → read (write a) = .ok (back a)
  decides : DecidablePred Valid := by infer_instance

instance {α : Type} (c : Codec α) : DecidablePred c.Valid := c.decides

/-- Every value is read back as itself. -/
class Codec.Exact {α : Type} (c : Codec α) : Prop where
  back_eq : ∀ a, c.back a = a

/-- No value is written as null. -/
class Codec.Present {α : Type} (c : Codec α) : Prop where
  ne_null : ∀ a, c.write a ≠ .null

theorem Codec.read_write {α : Type} (c : Codec α) [exact : c.Exact] {a} (valid : c.Valid a) :
    c.read (c.write a) = .ok a := by
  rw [c.law a valid, exact.back_eq]

variable {α β : Type}

/-! ## Scalars -/

namespace Codec

def json : Codec Json where
  write := id
  read := .ok
  Valid _ := True
  back := id
  law _ _ := rfl

instance : json.Exact := ⟨fun _ => rfl⟩

def string : Codec String where
  write := .string
  read
    | .string s => .ok s
    | _ => .error (.invalidType "a string")
  Valid _ := True
  back := id
  law _ _ := rfl

instance : string.Exact := ⟨fun _ => rfl⟩
instance : string.Present := ⟨fun _ => by rintro ⟨⟩⟩

/-- An unsigned integer below a bound. -/
def unsigned (size : Nat) : Codec Nat where
  write n := .number (.posInt n)
  read
    | .number (.posInt n) => if n < size then .ok n else .error (.invalidValue "out of range")
    | _ => .error (.invalidType "an unsigned integer")
  Valid n := n < size
  back := id
  law _ small := if_pos small

instance (size : Nat) : (unsigned size).Exact := ⟨fun _ => rfl⟩
instance (size : Nat) : (unsigned size).Present := ⟨fun _ => by rintro ⟨⟩⟩

def i64Bound : Int := 9223372036854775808

def i64 : Codec Int where
  write i := if 0 ≤ i then .number (.posInt i.toNat) else .number (.negInt i)
  read
    | .number (.posInt n) =>
      if (n : Int) < i64Bound then .ok n else .error (.invalidValue "out of range")
    | .number (.negInt i) =>
      if -i64Bound ≤ i ∧ i < i64Bound then .ok i else .error (.invalidValue "out of range")
    | _ => .error (.invalidType "i64")
  Valid i := -i64Bound ≤ i ∧ i < i64Bound
  back := id
  law i range := by
    by_cases sign : 0 ≤ i
    · simp only [if_pos sign, Int.toNat_of_nonneg sign, if_pos range.2]
      rfl
    · simp only [if_neg sign]
      exact if_pos range

instance : i64.Exact := ⟨fun _ => rfl⟩
instance : i64.Present := ⟨fun i => by
  show (if 0 ≤ i then _ else _) ≠ _
  split <;> rintro ⟨⟩⟩

/-- A double; what is no number is written as null. An integer is converted. -/
def f64 : Codec F64 where
  write x := if x.isFinite then .number (.float x) else .null
  read
    | .number (.float x) => .ok x
    | .number (.posInt n) => .ok ⟨(Float.ofNat n).toBits.toNat⟩
    | .number (.negInt i) => .ok ⟨(Float.ofInt i).toBits.toNat⟩
    | _ => .error (.invalidType "f64")
  Valid x := x.isFinite = true
  back := id
  law x finite := by
    rw [if_pos finite]
    rfl

instance : f64.Exact := ⟨fun _ => rfl⟩

/-! ## Newtypes and checked types -/

/-- A value written as another one that it can be made from again. -/
def iso (c : Codec α) (mk : α → β) (get : β → α) (_ : ∀ b, mk (get b) = b) : Codec β where
  write b := c.write (get b)
  read v := (c.read v).map mk
  Valid b := c.Valid (get b)
  back b := mk (c.back (get b))
  law b valid := by
    rw [c.law _ valid]
    rfl

instance iso_exact (c : Codec α) (mk : α → β) (get : β → α) (inv : ∀ b, mk (get b) = b)
    [exact : c.Exact] : (c.iso mk get inv).Exact := ⟨fun b => by
  show mk (c.back (get b)) = b
  rw [exact.back_eq, inv]⟩

instance iso_present (c : Codec α) (mk : α → β) (get : β → α) (inv : ∀ b, mk (get b) = b)
    [present : c.Present] : (c.iso mk get inv).Present := ⟨fun b => present.ne_null (get b)⟩

/-- A value read as another one that then has to pass a check. -/
def checked (c : Codec α) [exact : c.Exact] (check : α → Except DecodeError β) (get : β → α)
    (Valid : β → Prop) [DecidablePred Valid]
    (inv : ∀ b, Valid b → c.Valid (get b) ∧ check (get b) = .ok b) : Codec β where
  write b := c.write (get b)
  read v := c.read v >>= check
  Valid := Valid
  back := id
  law b valid := by
    obtain ⟨inner, passes⟩ := inv b valid
    rw [c.read_write inner]
    exact passes

instance checked_exact (c : Codec α) [c.Exact] (check : α → Except DecodeError β) (get : β → α)
    (Valid : β → Prop) [DecidablePred Valid]
    (inv : ∀ b, Valid b → c.Valid (get b) ∧ check (get b) = .ok b) :
    (c.checked check get Valid inv).Exact := ⟨fun _ => rfl⟩

instance checked_present (c : Codec α) [c.Exact] [present : c.Present]
    (check : α → Except DecodeError β) (get : β → α) (Valid : β → Prop) [DecidablePred Valid]
    (inv : ∀ b, Valid b → c.Valid (get b) ∧ check (get b) = .ok b) :
    (c.checked check get Valid inv).Present := ⟨fun b => present.ne_null (get b)⟩

/-! ## Options -/

/-- An `Option` is its value or null. -/
def readOption (read : Json → Except DecodeError α) (v : Json) : Except DecodeError (Option α) :=
  if v = .null then .ok none else (read v).map some

/-- A value that is written as null is read back as absent. -/
def backOption (c : Codec α) (a : Option α) : Option α :=
  a.bind fun a => if c.write a = .null then none else some (c.back a)

theorem readOption_write (c : Codec α) {a} (valid : c.Valid a) :
    readOption c.read (c.write a) = .ok (backOption c (some a)) := by
  unfold readOption
  simp only [backOption, Option.bind_some]
  split
  next => rfl
  next =>
    rw [c.law a valid]
    rfl

theorem backOption_exact (c : Codec α) [exact : c.Exact] [present : c.Present] (a : Option α) :
    backOption c a = a := by
  cases a with
  | none => rfl
  | some a =>
    simp only [backOption, Option.bind_some]
    rw [if_neg (present.ne_null a), exact.back_eq]

def option (c : Codec α) : Codec (Option α) where
  write a := a.elim .null c.write
  read := readOption c.read
  Valid a := ∀ b ∈ a, c.Valid b
  back := backOption c
  law a valid := by
    cases a with
    | none => rfl
    | some a => exact readOption_write c (valid a rfl)

instance option_exact (c : Codec α) [c.Exact] [c.Present] : c.option.Exact :=
  ⟨backOption_exact c⟩

/-! ## Sequences -/

def readItems (read : Json → Except DecodeError α) : List Json → Except DecodeError (List α)
  | [] => .ok []
  | v :: vs => do
    let a ← read v
    let as ← readItems read vs
    return a :: as

theorem readItems_write (c : Codec α) {as : List α} (valid : ∀ a ∈ as, c.Valid a) :
    readItems c.read (as.map c.write) = .ok (as.map c.back) := by
  induction as with
  | nil => rfl
  | cons a as ih =>
    have rest := ih fun b there => valid b (List.mem_cons_of_mem a there)
    simp only [List.map_cons, readItems, c.law a (valid a List.mem_cons_self), rest]
    rfl

def list (c : Codec α) : Codec (List α) where
  write as := .array (as.map c.write)
  read
    | .array vs => readItems c.read vs
    | _ => .error (.invalidType "a sequence")
  Valid as := ∀ a ∈ as, c.Valid a
  back as := as.map c.back
  law _ valid := readItems_write c valid

instance list_exact (c : Codec α) [exact : c.Exact] : c.list.Exact := ⟨fun as => by
  show as.map c.back = as
  rw [List.map_congr_left fun a _ => exact.back_eq a, List.map_id']⟩

instance list_present (c : Codec α) : c.list.Present := ⟨fun _ => by rintro ⟨⟩⟩

end Codec

/-! ## Maps -/

/-- A map's keys as the strings of an object. -/
structure KeyText (κ : Type) where
  text : κ → String
  parse : String → Option κ
  Valid : κ → Prop
  law : ∀ k, Valid k → parse (text k) = some k
  decides : DecidablePred Valid := by infer_instance

instance {κ : Type} (key : KeyText κ) : DecidablePred key.Valid := key.decides

def KeyText.string : KeyText String where
  text := id
  parse := some
  Valid _ := True
  law _ _ := rfl

/-- An integer key is the number in decimal. -/
def KeyText.unsigned (size : Nat) : KeyText Nat where
  text n := toString n
  parse s :=
    let digits := s.toList
    if digits.isEmpty = false ∧ digits.all Char.isDigit = true ∧ Numerals.Canonical digits then
      let n := Nat.ofDigitChars 10 digits 0
      if n < size then some n else none
    else none
  Valid n := n < size
  law n small := by
    have digits : (toString n).toList = Nat.toDigits 10 n := Nat.toList_repr
    have canonical : (Nat.toDigits 10 n).isEmpty = false ∧
        (Nat.toDigits 10 n).all Char.isDigit = true ∧ Numerals.Canonical (Nat.toDigits 10 n) :=
      ⟨List.isEmpty_eq_false_iff.mpr Nat.toDigits_ne_nil,
        List.all_eq_true.mpr fun _ => Numerals.toDigits_decimal, Numerals.toDigits_canonical n⟩
    dsimp only
    rw [digits, if_pos canonical, Numerals.value_toDigits, if_pos small]

section tables

variable {κ ν ξ : Type}

theorem keys_map_snd (f : ν → ξ) (es : List (Sigma fun _ : κ => ν)) :
    (es.map fun e => (⟨e.1, f e.2⟩ : Sigma fun _ : κ => ξ)).keys = es.keys := by
  simp only [List.keys, List.map_map]
  rfl

/-- The same keys with other values. -/
def mapTable (f : ν → ξ) (t : Table κ ν) : Table κ ξ where
  entries := t.entries.map fun e => ⟨e.1, f e.2⟩
  nodupKeys := by
    rw [List.NodupKeys, keys_map_snd]
    exact t.nodupKeys

theorem mapTable_id (t : Table κ ν) {f} (same : ∀ v, f v = v) : mapTable f t = t := by
  refine AList.ext ?_
  show t.entries.map _ = t.entries
  rw [List.map_congr_left (g := id) fun e _ => by rw [same]; rfl, List.map_id]

variable [DecidableEq κ]

theorem lookup_mapTable (f : ν → ξ) (t : Table κ ν) (k : κ) :
    (mapTable f t).lookup k = (t.lookup k).map f := by
  obtain ⟨es, nodup⟩ := t
  show List.dlookup k (es.map fun e => (⟨e.1, f e.2⟩ : Sigma fun _ : κ => ξ)) =
    (List.dlookup k es).map f
  clear nodup
  induction es with
  | nil => rfl
  | cons e es ih =>
    obtain ⟨k', v⟩ := e
    rw [List.map_cons]
    by_cases same : k = k'
    · subst same
      rw [List.dlookup_cons_eq, List.dlookup_cons_eq]
      rfl
    · rw [List.dlookup_cons_ne _ _ same, List.dlookup_cons_ne _ _ same, ih]

theorem mapTable_insert (f : ν → ξ) (t : Table κ ν) (k : κ) (v : ν) :
    mapTable f (t.insert k v) = (mapTable f t).insert k (f v) := by
  obtain ⟨es, nodup⟩ := t
  refine AList.ext ?_
  show List.map (fun e : Sigma fun _ : κ => ν => (⟨e.1, f e.2⟩ : Sigma fun _ : κ => ξ))
      (⟨k, v⟩ :: List.kerase k es) =
    ⟨k, f v⟩ :: List.kerase k (es.map fun e => ⟨e.1, f e.2⟩)
  rw [List.map_cons]
  congr 1
  clear nodup
  induction es with
  | nil => rfl
  | cons e es ih =>
    obtain ⟨k', w⟩ := e
    rw [List.map_cons]
    by_cases same : k = k'
    · have here : k = (⟨k', w⟩ : Sigma fun _ : κ => ν).1 := same
      have there : k = (⟨k', f w⟩ : Sigma fun _ : κ => ξ).1 := same
      rw [List.kerase_cons_eq here, List.kerase_cons_eq there]
    · have here : k ≠ (⟨k', w⟩ : Sigma fun _ : κ => ν).1 := same
      have there : k ≠ (⟨k', f w⟩ : Sigma fun _ : κ => ξ).1 := same
      rw [List.kerase_cons_ne here, List.kerase_cons_ne there, List.map_cons, ih]

/-- Bindings are put in one after the other; the last one of a key stays. -/
def readBindings (key : KeyText κ) (read : Json → Except DecodeError ν) :
    List (String × Json) → Table κ ν → Except DecodeError (Table κ ν)
  | [], t => .ok t
  | (k, v) :: rest, t =>
    match key.parse k with
    | none => .error (.invalidType "a key")
    | some k => do
      let v ← read v
      readBindings key read rest (t.insert k v)

theorem readBindings_write (key : KeyText κ) (c : Codec ν) {es : List (Sigma fun _ : κ => ν)}
    (valid : ∀ e ∈ es, key.Valid e.1 ∧ c.Valid e.2) (t : Table κ ν) :
    readBindings key c.read (es.map fun e => (key.text e.1, c.write e.2)) t =
      .ok (es.foldl (fun t e => t.insert e.1 (c.back e.2)) t) := by
  induction es generalizing t with
  | nil => rfl
  | cons e es ih =>
    obtain ⟨goodKey, good⟩ := valid e List.mem_cons_self
    rw [List.map_cons, readBindings, key.law e.1 goodKey, List.foldl_cons,
      ← ih fun d there => valid d (List.mem_cons_of_mem e there)]
    dsimp only
    rw [c.law e.2 good]
    rfl

/-- Bindings put in from the last one to the first lie as they did. -/
theorem foldl_insert_reverse (f : ν → ν) {es : List (Sigma fun _ : κ => ν)} (nodup : es.NodupKeys) :
    es.reverse.foldl (fun t e => AList.insert e.1 (f e.2) t) (∅ : Table κ ν) =
      mapTable f ⟨es, nodup⟩ := by
  induction es with
  | nil => rfl
  | cons e es ih =>
    obtain ⟨fresh, rest⟩ := List.nodupKeys_cons.mp nodup
    rw [List.reverse_cons, List.foldl_append, ih rest, List.foldl_cons, List.foldl_nil]
    refine AList.ext ?_
    have absent : e.1 ∉ mapTable f ⟨es, rest⟩ := by
      rw [AList.mem_keys]
      show e.1 ∉ List.keys _
      rw [mapTable, keys_map_snd]
      exact fresh
    rw [AList.entries_insert_of_notMem absent]
    rfl

/-- A hash map, in the order it happens to be walked. -/
def Codec.table (key : KeyText κ) (c : Codec ν) : Codec (Table κ ν) where
  write t := .object (t.entries.reverse.map fun e => (key.text e.1, c.write e.2))
  read
    | .object fields => readBindings key c.read fields ∅
    | _ => .error (.invalidType "a map")
  Valid t := ∀ e ∈ t.entries, key.Valid e.1 ∧ c.Valid e.2
  back := mapTable c.back
  law t valid := by
    have written := readBindings_write key c
      (fun e there => valid e (List.mem_reverse.mp there)) (∅ : Table κ ν)
    exact written.trans (congrArg Except.ok (foldl_insert_reverse c.back t.nodupKeys))

instance table_exact (key : KeyText κ) (c : Codec ν) [exact : c.Exact] : (c.table key).Exact :=
  ⟨fun t => mapTable_id t exact.back_eq⟩

instance table_present (key : KeyText κ) (c : Codec ν) : (c.table key).Present :=
  ⟨fun _ => by rintro ⟨⟩⟩

end tables

/-! ## Structs -/

/-- The field of a name. -/
def field (name : String) (fields : List (String × Json)) : Except DecodeError (Option Json) :=
  match fields.filter fun f => f.1 = name with
  | [] => .ok none
  | [f] => .ok (some f.2)
  | _ => .error (.duplicateField name)

/-- Some fields of a struct. Fields of other names do not disturb them. -/
structure Fields (α : Type) where
  names : List String
  write : α → List (String × Json)
  read : List (String × Json) → Except DecodeError α
  Valid : α → Prop
  back : α → α
  named : ∀ a, ∀ f ∈ write a, f.1 ∈ names
  law : names.Nodup → ∀ a, Valid a → ∀ fields,
    (fields.filter fun f => f.1 ∈ names) = write a → read fields = .ok (back a)
  decides : DecidablePred Valid := by infer_instance

instance (fs : Fields α) : DecidablePred fs.Valid := fs.decides

class Fields.Exact (fs : Fields α) : Prop where
  back_eq : ∀ a, fs.back a = a

theorem filter_name {name : String} {fields written : List (String × Json)}
    (here : (fields.filter fun f => f.1 ∈ [name]) = written) :
    (fields.filter fun f => f.1 = name) = written := by
  rw [← here]
  refine List.filter_congr fun f _ => ?_
  simp only [List.mem_singleton]

namespace Fields

/-- A field that is always written, and what an absent one is read as. -/
def one (name : String) (c : Codec α) (absent : Except DecodeError α) : Fields α where
  names := [name]
  write a := [(name, c.write a)]
  read fields := do
    match ← field name fields with
    | none => absent
    | some v => c.read v
  Valid := c.Valid
  back := c.back
  named a f there := by
    rw [List.mem_singleton] at there ⊢
    rw [there]
  law _ a valid fields here := by
    simp only [field, filter_name here]
    exact c.law a valid

def required (name : String) (c : Codec α) : Fields α := one name c (.error (.missingField name))

theorem required_distinct (name : String) (c : Codec α) : (required name c).names.Nodup :=
  List.nodup_singleton name

/-- `#[serde(default)]`. -/
def defaulted (name : String) (c : Codec α) (default : α) : Fields α := one name c (.ok default)

/-- An `Option`, written as null when it is `None`; an absent field is `None`. -/
def nullable (name : String) (c : Codec α) : Fields (Option α) := one name c.option (.ok none)

instance required_exact (name : String) (c : Codec α) [exact : c.Exact] : (required name c).Exact :=
  ⟨exact.back_eq⟩

instance defaulted_exact (name : String) (c : Codec α) (default : α) [exact : c.Exact] :
    (defaulted name c default).Exact := ⟨exact.back_eq⟩

instance nullable_exact (name : String) (c : Codec α) [c.Exact] [c.Present] :
    (nullable name c).Exact := ⟨Codec.backOption_exact c⟩

/-- An `Option` that is left out when it is `None`; an absent field is `None`. -/
def skipped (name : String) (c : Codec α) : Fields (Option α) where
  names := [name]
  write a := a.elim [] fun a => [(name, c.write a)]
  read fields := do
    match ← field name fields with
    | none => .ok none
    | some v => Codec.readOption c.read v
  Valid a := ∀ b ∈ a, c.Valid b
  back := Codec.backOption c
  named a f there := by
    cases a with
    | none => cases there
    | some a =>
      rw [Option.elim_some, List.mem_singleton] at there
      rw [List.mem_singleton, there]
  law _ a valid fields here := by
    cases a with
    | none =>
      simp only [field, filter_name here]
      rfl
    | some a =>
      simp only [field, filter_name here]
      exact Codec.readOption_write c (valid a rfl)

instance skipped_exact (name : String) (c : Codec α) [c.Exact] [c.Present] :
    (skipped name c).Exact := ⟨Codec.backOption_exact c⟩

theorem filter_names {f : Fields α} {names : List String}
    (apart : ∀ n ∈ names, n ∉ f.names) (a : α) :
    ((f.write a).filter fun e => e.1 ∈ names) = [] := by
  refine List.filter_eq_nil_iff.mpr fun e there inside => ?_
  exact apart e.1 (of_decide_eq_true inside) (f.named a e there)

theorem filter_own (f : Fields α) (a : α) :
    ((f.write a).filter fun e => e.1 ∈ f.names) = f.write a :=
  List.filter_eq_self.mpr fun e there => decide_eq_true (f.named a e there)

/-- The fields of two parts of a struct. -/
def and (f : Fields α) (g : Fields β) : Fields (α × β) where
  names := f.names ++ g.names
  write p := f.write p.1 ++ g.write p.2
  read fields := do
    let a ← f.read fields
    let b ← g.read fields
    return (a, b)
  Valid p := f.Valid p.1 ∧ g.Valid p.2
  back p := (f.back p.1, g.back p.2)
  named p e there := by
    rw [List.mem_append] at there ⊢
    exact there.imp (f.named p.1 e) (g.named p.2 e)
  law distinct p valid fields here := by
    obtain ⟨lefts, rights, apart⟩ := List.nodup_append.mp distinct
    have part : ∀ names : List String, (∀ n ∈ names, n ∈ f.names ++ g.names) →
        (fields.filter fun e => e.1 ∈ names) =
          (f.write p.1 ++ g.write p.2).filter fun e => e.1 ∈ names := by
      intro names inside
      rw [← here, List.filter_filter]
      refine List.filter_congr fun e _ => ?_
      by_cases named : e.1 ∈ names
      · simp only [named, inside e.1 named, decide_true, Bool.and_true]
      · simp only [named, decide_false, Bool.false_and]
    have left : (fields.filter fun e => e.1 ∈ f.names) = f.write p.1 := by
      rw [part _ fun n there => List.mem_append_left _ there, List.filter_append, filter_own,
        filter_names fun n there own => apart n there n own rfl, List.append_nil]
    have right : (fields.filter fun e => e.1 ∈ g.names) = g.write p.2 := by
      rw [part _ fun n there => List.mem_append_right _ there, List.filter_append, filter_own,
        filter_names fun n there own => apart n own n there rfl, List.nil_append]
    rw [f.law lefts p.1 valid.1 fields left, g.law rights p.2 valid.2 fields right]
    rfl

instance and_exact (f : Fields α) (g : Fields β) [left : f.Exact] [right : g.Exact] :
    (f.and g).Exact := ⟨fun p => by
  show (f.back p.1, g.back p.2) = p
  rw [left.back_eq, right.back_eq]⟩

/-- The names are looked at only, whatever the codecs of the fields are. -/
theorem distinct {fs : Fields α} (differ : decide fs.names.Nodup = true) :
    fs.names.Nodup := of_decide_eq_true differ

end Fields

/-- A struct is an object of its fields. Fields of other names are passed over. -/
def Codec.struct (fs : Fields α) (distinct : fs.names.Nodup) : Codec α where
  write a := .object (fs.write a)
  read
    | .object fields => fs.read fields
    | _ => .error (.invalidType "a struct")
  Valid := fs.Valid
  back := fs.back
  law a valid := fs.law distinct a valid _ (fs.filter_own a)

instance struct_exact (fs : Fields α) (distinct : fs.names.Nodup) [exact : fs.Exact] :
    (Codec.struct fs distinct).Exact := ⟨exact.back_eq⟩

instance struct_present (fs : Fields α) (distinct : fs.names.Nodup) :
    (Codec.struct fs distinct).Present := ⟨fun _ => by rintro ⟨⟩⟩

/-! ## Enums -/

/-- How the content beside a variant's tag is read; a unit variant has none. -/
abbrev Content (α : Type) : Type := Option Json → Except DecodeError α

def readUnit (a : α) : Content α
  | none | some .null => .ok a
  | some _ => .error (.invalidType "unit variant")

def readNewtype (c : Codec α) (mk : α → β) : Content β
  | none => .error (.invalidType "newtype variant")
  | some v => (c.read v).map mk

/-- A value of an enum as it is written: the tag of its variant and the content. -/
structure Variant (α : Type) where
  tag : String
  content : Option Json
  read : Content α
  Valid : Prop
  back : α
  law : Valid → read content = .ok back
  decides : Decidable Valid := by infer_instance

instance (v : Variant α) : Decidable v.Valid := v.decides

def Variant.unit (tag : String) (a : α) : Variant α where
  tag := tag
  content := none
  read := readUnit a
  Valid := True
  back := a
  law _ := rfl

def Variant.newtype (tag : String) (c : Codec α) (mk : α → β) (a : α) : Variant β where
  tag := tag
  content := some (c.write a)
  read := readNewtype c mk
  Valid := c.Valid a
  back := mk (c.back a)
  law valid := by
    show (c.read (c.write a)).map mk = _
    rw [c.law a valid]
    rfl

@[simp] theorem Variant.back_unit (tag : String) (a : α) : (Variant.unit tag a).back = a := rfl

@[simp] theorem Variant.back_newtype (tag : String) (c : Codec α) (mk : α → β) (a : α)
    [exact : c.Exact] : (Variant.newtype tag c mk a).back = mk a :=
  congrArg mk (exact.back_eq a)

/-- An enum with the tag outside: a unit variant is its tag, any other an object with the tag as
    its only key. -/
def Codec.enum (variant : α → Variant α) (readers : List (String × Content α))
    (known : ∀ a, readers.lookup (variant a).tag = some (variant a).read) : Codec α where
  write a :=
    match (variant a).content with
    | none => .string (variant a).tag
    | some v => .object [((variant a).tag, v)]
  read
    | .string tag => (readers.lookup tag).elim (.error (.unknownVariant tag)) (· none)
    | .object [(tag, v)] => (readers.lookup tag).elim (.error (.unknownVariant tag)) (· (some v))
    | _ => .error (.invalidType "an enum")
  Valid a := (variant a).Valid
  back a := (variant a).back
  law a valid := by
    have law := (variant a).law valid
    cases held : (variant a).content with
    | none =>
      rw [held] at law
      simp only [known a, Option.elim_some]
      exact law
    | some v =>
      rw [held] at law
      simp only [known a, Option.elim_some]
      exact law

theorem enum_exact {variant : α → Variant α} {readers : List (String × Content α)} {known}
    (same : ∀ a, (variant a).back = a) : (Codec.enum variant readers known).Exact := ⟨same⟩

instance enum_present (variant : α → Variant α) (readers : List (String × Content α))
    (known : ∀ a, readers.lookup (variant a).tag = some (variant a).read) :
    (Codec.enum variant readers known).Present := ⟨fun a => by
  unfold Codec.enum
  dsimp only
  split <;> rintro ⟨⟩⟩

end Serde

end Spica
