import Spica.Keys
import Spica.Lib.Numerals

/-! # Names and references as text

A name is built in three ways: by `new`, which checks it; by `from_parsed`, which reads an address;
and from JSON. A plain name's derived `Deserialize` takes any string, so the names here are plain
strings and the rule of `new` is a predicate on them. `Spica.PlainName` has those that satisfy it.
-/

namespace Spica.Spelling

variable {p : PlainName} {r : RawObjectRef}

structure PlainName where
  raw : String
  deriving DecidableEq

/-- The suffix is a `u64`. -/
inductive ObjectName where
  | plain (name : PlainName)
  | generated (base : PlainName) (suffix : Fin u64Size)
  deriving DecidableEq

structure RawObjectRef where
  kind : ObjectKind
  name : ObjectName
  uid : Ulid
  deriving DecidableEq

def PlainName.generatedFromKey (base : PlainName) (key : Fin u64Size) : ObjectName :=
  .generated base key

namespace ObjectName

def base : ObjectName → PlainName
  | .plain p => p
  | .generated b _ => b

def asStr : ObjectName → String
  | .plain p => p.raw
  | .generated b n => s!"{b.raw}-{n.val}"

end ObjectName

section

-- how a text is shown in a message
variable (quoted : String → String)

def PlainName.new (raw : String) : Except String PlainName :=
  if Spica.PlainName.isValid raw = true then .ok ⟨raw⟩
  else .error (s!"invalid plain object name {quoted raw}: must be 4..=64 chars of A-Za-z0-9_; " ++
    "'-' is reserved for generated names")

/-- `str::parse::<u64>`. A sign does not get this far. -/
def parseU64 (digits : List Char) : Option (Fin u64Size) :=
  if digits ≠ [] ∧ digits.all Char.isDigit then
    let value := Nat.ofDigitChars 10 digits 0
    if fits : value < u64Size then some ⟨value, fits⟩ else none
  else none

def ObjectName.fromParsed (raw : String) : Except String ObjectName :=
  let chars := raw.toList
  if chars.head?.any Char.isAlphanum &&
      chars.all fun c => c.isAlphanum || c == '_' || c == '-' then
    match chars.span (· != '-') with
    | (_, []) => (PlainName.new quoted raw).map .plain
    | (base, _ :: suffix) =>
      match parseU64 suffix with
      | none => .error
          s!"invalid generateName suffix {quoted (String.ofList suffix)}: must be a decimal u64"
      | some key => (PlainName.new quoted (String.ofList base)).map (·.generatedFromKey key)
  else .error s!"invalid object name {quoted raw} in address"

/-! ## References -/

def ObjectKind.parse : String → Option ObjectKind
  | "flow" => some .flow
  | "flowversion" => some .flowVersion
  | "execution" => some .execution
  | "thread" => some .thread
  | "activity" => some .activity
  | "task" => some .task
  | _ => none

/-- `Display`: the identity is not part of the text. -/
def RawObjectRef.display (r : RawObjectRef) : String := s!"{r.kind.asStr}/{r.name.asStr}"

def invalidOwnerRef (s : String) : ExecutionError :=
  .runtime (.invalidDefinition
    s!"invalid owner reference {quoted s}: expected \x7bkind\x7d/\x7bname\x7d")

/-- `FromStr`. -/
def RawObjectRef.fromStr (s : String) : Except ExecutionError RawObjectRef :=
  match s.toList.splitOn '/' with
  | [] => .error (invalidOwnerRef quoted s)
  | kindRaw :: parts =>
    match ObjectKind.parse (String.ofList kindRaw) with
    | none => .error (invalidOwnerRef quoted s)
    | some kind =>
      match parts with
      | [] => .error (invalidOwnerRef quoted s)
      | nameRaw :: parts =>
        match ObjectName.fromParsed quoted (String.ofList nameRaw) with
        | .error e => .error (.runtime (.invalidDefinition e))
        | .ok name =>
          if parts ≠ [] then .error (invalidOwnerRef quoted s)
          else .ok ⟨kind, name, .nil⟩

/-! ## From JSON -/

/-- The derived `Deserialize` of a newtype: that of the string inside. -/
def PlainName.deserialize : Json → Except String PlainName
  | .string s => .ok ⟨s⟩
  | _ => .error "invalid type, expected a string"

def ObjectName.deserialize : Json → Except String ObjectName
  | .string s => ObjectName.fromParsed quoted s
  | _ => .error "invalid type, expected a string"

end

/-! ## The names of the engine

Where a name is checked the two notions of a name agree. -/

theorem parseU64_val (ds : List Char) : (parseU64 ds).map Fin.val = Spica.parseU64 ds := by
  unfold parseU64 Spica.parseU64
  split
  next =>
    dsimp only
    split
    next fits => exact (if_pos fits).symm
    next large => exact (if_neg large).symm
  next => rfl

def ObjectName.suffix : ObjectName → Option Nat
  | .plain _ => none
  | .generated _ n => some n.val

theorem PlainName.new_eq (quoted : String → String) (s : String) :
    PlainName.new quoted s = (Spica.PlainName.new quoted s).map fun p => ⟨p.raw⟩ := by
  unfold PlainName.new Spica.PlainName.new
  split <;> rfl

/-- The strings read as names, the messages and the parts read are the same. -/
theorem ObjectName.fromParsed_eq (quoted : String → String) (s : String) :
    (fromParsed quoted s).map (fun n => (n.base.raw, n.suffix)) =
      (Spica.ObjectName.fromParsed quoted s).map fun n => (n.base.raw, n.suffix) := by
  unfold fromParsed Spica.ObjectName.fromParsed
  dsimp only
  generalize s.toList.span (· != '-') = parts
  split
  next =>
    obtain ⟨base, - | ⟨_, suffix⟩⟩ := parts
    · simp only [PlainName.new_eq]
      cases Spica.PlainName.new quoted s <;> rfl
    · simp only [PlainName.new_eq, ← parseU64_val]
      cases parseU64 suffix with
      | none => rfl
      | some key => cases Spica.PlainName.new quoted (String.ofList base) <;> rfl
  next => rfl

/-! ## The rules -/

/-- The rule `PlainName::new` enforces. -/
def PlainName.Valid (p : PlainName) : Prop := Spica.PlainName.isValid p.raw = true

/-- The number after the `-` has no leading zero. -/
def Canonical (s : String) : Prop :=
  Numerals.Canonical ((s.toList.dropWhile (· != '-')).drop 1)

instance : DecidablePred Canonical := fun s =>
  inferInstanceAs (Decidable (Numerals.Canonical ((s.toList.dropWhile (· != '-')).drop 1)))

variable {quoted : String → String} {s : String} {n : ObjectName}

theorem PlainName.Valid.chars (valid : p.Valid) :
    p.raw.toList.head?.any Char.isAlphanum = true ∧
      ∀ c ∈ p.raw.toList, (c.isAlphanum || c == '_') = true :=
  Spica.PlainName.chars ⟨p.raw, valid⟩

theorem PlainName.Valid.no_dash (valid : p.Valid) : ∀ c ∈ p.raw.toList, (c != '-') = true :=
  Spica.PlainName.no_dash ⟨p.raw, valid⟩

theorem PlainName.new_map_ok {α : Type} {g} {a : α} :
    (PlainName.new quoted s).map g = .ok a ↔ (⟨s⟩ : PlainName).Valid ∧ a = g ⟨s⟩ := by
  unfold PlainName.new PlainName.Valid
  split
  next valid => simp [Except.map, valid, eq_comm]
  next invalid => simp [Except.map, invalid]

theorem parseU64_ok {ds key} :
    parseU64 ds = some key ↔
      ds ≠ [] ∧ (∀ c ∈ ds, c.isDigit = true) ∧ Nat.ofDigitChars 10 ds 0 = key.val := by
  rw [← List.all_eq_true]
  unfold parseU64
  split
  next digits =>
    obtain ⟨some_, decimal⟩ := digits
    dsimp only
    split
    next fits =>
      rw [Option.some.injEq, Fin.ext_iff]
      exact ⟨fun same => ⟨some_, decimal, same⟩, fun all => all.2.2⟩
    next large =>
      constructor
      · intro parsed
        cases parsed
      · rintro ⟨-, -, same⟩
        exact absurd (same ▸ key.isLt) large
  next other =>
    constructor
    · intro parsed
      cases parsed
    · rintro ⟨some_, decimal, -⟩
      exact absurd ⟨some_, decimal⟩ other

/-- The text of a name, as its base and what follows. -/
def ObjectName.tail : ObjectName → List Char
  | .plain _ => []
  | .generated _ n => '-' :: Nat.toDigits 10 n.val

theorem ObjectName.toList_asStr (n : ObjectName) : n.asStr.toList = n.base.raw.toList ++ n.tail := by
  cases n with
  | plain p => simp [asStr, base, tail]
  | generated b n =>
    have digits : (toString n.val).toList = Nat.toDigits 10 n.val := Nat.toList_repr
    show (toString b.raw ++ toString "-" ++ toString n.val).toList = _
    rw [String.toList_append, String.toList_append, digits, List.append_assoc]
    rfl

/-- The first `-` ends a valid base. -/
theorem PlainName.Valid.span (valid : p.Valid) (suffix : List Char) :
    (p.raw.toList ++ '-' :: suffix).span (· != '-') = (p.raw.toList, '-' :: suffix) := by
  rw [List.span_eq_takeWhile_dropWhile, List.takeWhile_append_of_pos valid.no_dash,
    List.dropWhile_append_of_pos valid.no_dash]
  simp

/-- An address starts with a valid base, and a number is all that may follow. -/
theorem ObjectName.fromParsed_ok :
    fromParsed quoted s = .ok n ↔ n.base.Valid ∧
      (n = .plain ⟨s⟩ ∨ ∃ suffix key, s.toList = n.base.raw.toList ++ '-' :: suffix ∧
        parseU64 suffix = some key ∧ n = .generated n.base key) := by
  constructor
  · intro parsed
    unfold fromParsed at parsed
    dsimp only at parsed
    split at parsed
    next =>
      split at parsed
      next =>
        obtain ⟨valid, rfl⟩ := PlainName.new_map_ok.mp parsed
        exact ⟨valid, .inl rfl⟩
      next front dash suffix parts =>
        split at parsed
        next => cases parsed
        next key number =>
          obtain ⟨valid, rfl⟩ := PlainName.new_map_ok.mp parsed
          rw [List.span_eq_takeWhile_dropWhile] at parts
          obtain ⟨before, rest⟩ := Prod.mk.inj parts
          have stops := List.head?_dropWhile_not (· != '-') s.toList
          rw [rest] at stops
          obtain rfl : dash = '-' := by simpa using stops
          refine ⟨valid, .inr ⟨suffix, key, ?_, number, rfl⟩⟩
          have whole := List.takeWhile_append_dropWhile (p := (· != '-')) (l := s.toList)
          rw [before, rest] at whole
          simp [base, PlainName.generatedFromKey, whole]
    next => cases parsed
  · rintro ⟨valid, rfl | ⟨suffix, key, text, number, same⟩⟩
    · have valid : (⟨s⟩ : PlainName).Valid := valid
      obtain ⟨first, chars⟩ := valid.chars
      have all : (s.toList.all fun c => c.isAlphanum || c == '_' || c == '-') = true :=
        List.all_eq_true.mpr fun c there => by simp [chars c there]
      have parts : s.toList.span (· != '-') = (s.toList, []) := by
        rw [List.span_eq_takeWhile_dropWhile, List.takeWhile_eq_self_iff.mpr valid.no_dash,
          List.dropWhile_eq_nil_iff.mpr valid.no_dash]
      simp only [fromParsed, first, all, Bool.and_true, if_true, parts]
      exact PlainName.new_map_ok.mpr ⟨valid, rfl⟩
    · obtain ⟨first, chars⟩ := valid.chars
      obtain ⟨-, decimal, -⟩ := parseU64_ok.mp number
      have first' : s.toList.head?.any Char.isAlphanum = true := by
        rw [text, List.head?_append]
        cases head : n.base.raw.toList.head? with
        | none => rw [head] at first; cases first
        | some c => rw [head] at first; exact first
      have all : (s.toList.all fun c => c.isAlphanum || c == '_' || c == '-') = true := by
        rw [text, List.all_append, List.all_cons, List.all_eq_true.mpr fun c there => ?_,
          List.all_eq_true.mpr fun c there => ?_]
        · rfl
        · simp [Char.isAlphanum, decimal c there]
        · simp [chars c there]
      have parts := valid.span suffix
      rw [← text] at parts
      simp only [fromParsed, first', all, Bool.and_true, if_true, parts, number,
        String.ofList_toList]
      exact PlainName.new_map_ok.mpr ⟨valid, same⟩

/-- A name is read back from its text exactly when its base is valid. -/
theorem ObjectName.fromParsed_asStr_iff : fromParsed quoted n.asStr = .ok n ↔ n.base.Valid := by
  rw [fromParsed_ok]
  refine ⟨And.left, fun valid => ⟨valid, ?_⟩⟩
  cases n with
  | plain p => exact .inl rfl
  | generated b key =>
    refine .inr ⟨Nat.toDigits 10 key.val, key, toList_asStr (.generated b key), ?_, rfl⟩
    exact parseU64_ok.mpr ⟨Nat.toDigits_ne_nil, fun _ => Numerals.toDigits_decimal,
      Numerals.value_toDigits _⟩

/-- The text a name was read from is the name's own exactly when it is canonical. -/
theorem ObjectName.asStr_eq_iff (parsed : fromParsed quoted s = .ok n) :
    n.asStr = s ↔ Canonical s := by
  obtain ⟨valid, rfl | ⟨suffix, key, text, number, same⟩⟩ := fromParsed_ok.mp parsed
  · have plain : s.toList.dropWhile (· != '-') = [] :=
      List.dropWhile_eq_nil_iff.mpr (PlainName.Valid.no_dash (p := ⟨s⟩) valid)
    have canonical : Canonical s := by
      rw [Canonical, plain]
      intro zero
      cases zero
    exact iff_of_true rfl canonical
  · have rest : s.toList.dropWhile (· != '-') = '-' :: suffix := by
      have parts := valid.span suffix
      rw [← text, List.span_eq_takeWhile_dropWhile] at parts
      exact (Prod.mk.inj parts).2
    obtain ⟨some_, decimal, value⟩ := parseU64_ok.mp number
    have own : n.asStr.toList = n.base.raw.toList ++ '-' :: Nat.toDigits 10 key.val := by
      rw [n.toList_asStr]
      conv => lhs; rw [same]
      rfl
    rw [Canonical, rest, List.drop_one, List.tail_cons,
      ← Numerals.toDigits_value_iff some_ decimal, value, ← String.toList_inj, own, text,
      List.append_right_inj, List.cons.injEq]
    exact and_iff_right rfl

theorem ObjectKind.parse_ok {kind} : ObjectKind.parse s = some kind ↔ s = kind.asStr := by
  unfold ObjectKind.parse
  constructor
  · intro parsed
    split at parsed <;> cases parsed <;> rfl
  · rintro rfl
    cases kind <;> rfl

theorem kind_chars (kind : ObjectKind) :
    '/' ∉ kind.asStr.toList ∧ ∀ c ∈ kind.asStr.toList, (c != '-') = true := by
  cases kind <;> simp [ObjectKind.asStr]

theorem RawObjectRef.toList_display (r : RawObjectRef) :
    r.display.toList = r.kind.asStr.toList ++ '/' :: r.name.asStr.toList := by
  show (toString r.kind.asStr ++ toString "/" ++ toString r.name.asStr).toList = _
  rw [String.toList_append, String.toList_append, List.append_assoc]
  rfl

theorem ObjectName.fromParsed_no_slash (parsed : fromParsed quoted s = .ok n) :
    '/' ∉ s.toList := by
  intro slash
  unfold fromParsed at parsed
  dsimp only at parsed
  split at parsed
  next guard =>
    have chars := List.all_eq_true.mp (Bool.and_eq_true_iff.mp guard).2 '/' slash
    cases chars
  next => cases parsed

/-- An address is a kind, a `/` and a name's address. -/
theorem RawObjectRef.fromStr_ok :
    fromStr quoted s = .ok r ↔ ∃ text, s.toList = r.kind.asStr.toList ++ '/' :: text ∧
      ObjectName.fromParsed quoted (String.ofList text) = .ok r.name ∧ r.uid = .nil := by
  constructor
  · intro parsed
    unfold fromStr at parsed
    split at parsed
    next => cases parsed
    next kindRaw parts split =>
      split at parsed
      next => cases parsed
      next kind isKind =>
        have kindText := ObjectKind.parse_ok.mp isKind
        split at parsed
        next => cases parsed
        next nameRaw parts =>
          split at parsed
          next => cases parsed
          next name named =>
            split at parsed
            next => cases parsed
            next last =>
              cases parsed
              obtain rfl := not_not.mp last
              refine ⟨nameRaw, ?_, named, rfl⟩
              have whole : ['/'].intercalate (s.toList.splitOn '/') = s.toList :=
                List.intercalate_splitOn '/'
              rw [split] at whole
              rw [← whole, ← kindText, String.toList_ofList]
              simp [List.intercalate]
  · rintro ⟨text, whole, named, nil⟩
    have slashless := ObjectName.fromParsed_no_slash named
    rw [String.toList_ofList] at slashless
    have split : s.toList.splitOn '/' = [r.kind.asStr.toList, text] := by
      have joined : s.toList = ['/'].intercalate [r.kind.asStr.toList, text] := by
        rw [whole]
        simp [List.intercalate]
      rw [joined]
      refine List.splitOn_intercalate '/' ?_ (by simp)
      simp only [List.mem_cons, List.not_mem_nil, or_false]
      rintro l (rfl | rfl)
      · exact (kind_chars r.kind).1
      · exact slashless
    have isKind : ObjectKind.parse r.kind.asStr = some r.kind := ObjectKind.parse_ok.mpr rfl
    cases r
    cases nil
    unfold fromStr
    simp only [split, String.ofList_toList, isKind, named]
    rfl

/-- A reference is read back from its text when its name is, but its identity is not. -/
theorem RawObjectRef.fromStr_display_iff :
    fromStr quoted r.display = .ok r ↔ r.name.base.Valid ∧ r.uid = .nil := by
  rw [fromStr_ok, r.toList_display]
  constructor
  · rintro ⟨text, same, named, nil⟩
    obtain rfl : r.name.asStr.toList = text := by simpa using same
    rw [String.ofList_toList] at named
    exact ⟨ObjectName.fromParsed_asStr_iff.mp named, nil⟩
  · rintro ⟨valid, nil⟩
    refine ⟨r.name.asStr.toList, rfl, ?_, nil⟩
    rw [String.ofList_toList]
    exact ObjectName.fromParsed_asStr_iff.mpr valid

theorem RawObjectRef.display_eq_iff (parsed : fromStr quoted s = .ok r) :
    r.display = s ↔ Canonical s := by
  obtain ⟨text, whole, named, -⟩ := fromStr_ok.mp parsed
  have dashless : ∀ c ∈ r.kind.asStr.toList ++ ['/'], (c != '-') = true := by
    intro c there
    rcases List.mem_append.mp there with inKind | slash
    · exact (kind_chars r.kind).2 c inKind
    · obtain rfl := List.mem_singleton.mp slash
      rfl
  have rest : s.toList.dropWhile (· != '-') = text.dropWhile (· != '-') := by
    rw [whole, List.append_cons, List.dropWhile_append_of_pos dashless]
  have canonical : Canonical s ↔ Canonical (String.ofList text) := by
    rw [Canonical, Canonical, rest, String.toList_ofList]
  rw [canonical, ← ObjectName.asStr_eq_iff named, ← String.toList_inj, r.toList_display, whole,
    List.append_right_inj, List.cons.injEq, ← String.toList_inj, String.toList_ofList]
  exact and_iff_right rfl

/-- What of names and references survives being written and read. -/
theorem names_round_trip_iff (quoted : String → String) :
    (∀ n : ObjectName, ObjectName.fromParsed quoted n.asStr = .ok n ↔ n.base.Valid) ∧
      (∀ s n, ObjectName.fromParsed quoted s = .ok n → (n.asStr = s ↔ Canonical s)) ∧
      (∀ r : RawObjectRef, RawObjectRef.fromStr quoted r.display = .ok r ↔
        r.name.base.Valid ∧ r.uid = .nil) ∧
      (∀ s r, RawObjectRef.fromStr quoted s = .ok r → (r.display = s ↔ Canonical s)) ∧
      (∀ v n, ObjectName.deserialize quoted v = .ok n → n.base.Valid) ∧
      ∀ v, (∀ p, PlainName.deserialize v = .ok p → p.Valid) ↔
        ∀ s, v = .string s → Spica.PlainName.isValid s = true := by
  refine ⟨fun n => ObjectName.fromParsed_asStr_iff, fun s n => ObjectName.asStr_eq_iff,
    fun r => RawObjectRef.fromStr_display_iff, fun s r => RawObjectRef.display_eq_iff, ?_, ?_⟩
  · intro v n parsed
    cases v with
    | string s => exact (ObjectName.fromParsed_ok.mp parsed).1
    | null | bool | number | array | object => cases parsed
  · intro v
    constructor
    · rintro valid s rfl
      exact valid ⟨s⟩ rfl
    · intro valid p parsed
      cases v with
      | string s =>
        cases parsed
        exact valid s rfl
      | null | bool | number | array | object => cases parsed

/-- Two addresses of one object, a reference that loses its identity, and a name from JSON that
    breaks the rule and is not read back. -/
theorem names_not_round_trip :
    (ObjectName.fromParsed id "flow-007" = .ok (.generated ⟨"flow"⟩ ⟨7, by decide⟩) ∧
      (ObjectName.generated ⟨"flow"⟩ ⟨7, by decide⟩).asStr = "flow-7") ∧
    RawObjectRef.fromStr id (RawObjectRef.display ⟨.flow, .plain ⟨"flow"⟩, ⟨1⟩⟩) ≠
      .ok ⟨.flow, .plain ⟨"flow"⟩, ⟨1⟩⟩ ∧
    PlainName.deserialize (.string "a-1") = .ok ⟨"a-1"⟩ ∧
    Spica.PlainName.isValid "a-1" = false ∧
    ObjectName.fromParsed id (ObjectName.plain ⟨"a-1"⟩).asStr ≠ .ok (.plain ⟨"a-1"⟩) := by
  decide +kernel

end Spica.Spelling
