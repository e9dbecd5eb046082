import Mathlib.Data.Char
import Mathlib.Data.List.TakeDrop
import Mathlib.Data.List.TakeWhile
import Spica.Gateway
import Spica.Lib.Scan

/-! # Storage keys

The persistent store keeps everything in one space of text keys: a leading `/` before each
segment, the scope first. A row's last segment is its name, and no segment of a row's key
contains a `/`. A key is compared as its bytes are, character by character.
-/

namespace Spica

abbrev Key : Type := List Char

/-- Every segment behind a `/`. -/
def join (segments : List String) : Key := segments.flatMap fun s => '/' :: s.toList

/-- `Kind::from_object(kind).segment()`. -/
def ObjectKind.segment : ObjectKind → String
  | .execution => "execution"
  | .thread => "thread"
  | .activity => "activity"
  | .task => "task"
  | .flow => "flow"
  | .flowVersion => "flowversion"

structure KeyBuilder where
  tenant : ScopeName
  ns : ScopeName

namespace KeyBuilder

variable (keys : KeyBuilder)

def row (kind : ObjectKind) (identifier : String) : Key :=
  join [keys.tenant.raw, keys.ns.raw, kind.segment, identifier]

def execution (r : ObjectRef .execution) : Key := keys.row .execution r.name.asStr
def thread (r : ObjectRef .thread) : Key := keys.row .thread r.name.asStr
def activity (r : ObjectRef .activity) : Key := keys.row .activity r.name.asStr
def task (r : ObjectRef .task) : Key := keys.row .task r.name.asStr
def flow (name : FlowName) : Key := keys.row .flow name.raw
def flowVersion (name : ObjectName) : Key := keys.row .flowVersion name.asStr

def taskPrefix : Key := join [keys.tenant.raw, keys.ns.raw, ObjectKind.task.segment, ""]

def kindPrefix (kind : ObjectKind) : Key := join [keys.tenant.raw, keys.ns.raw, kind.segment, ""]

def flowVersionPrefix (flowName : FlowName) : Key :=
  join [keys.tenant.raw, keys.ns.raw, ObjectKind.flowVersion.segment, s!"{flowName}-"]

def childEdgePrefix (parent : RawObjectRef) : Key :=
  join [keys.tenant.raw, keys.ns.raw, "_index", "children", parent.kind.segment,
    parent.name.asStr, ""]

def childEdge (parent child : RawObjectRef) : Key :=
  join [keys.tenant.raw, keys.ns.raw, "_index", "children", parent.kind.segment,
    parent.name.asStr, child.kind.segment, child.name.asStr]

def vars (threadName : ObjectName) : Key :=
  join [keys.tenant.raw, keys.ns.raw, "_index", "variables", threadName.asStr]

def lastProcessedPosition : Key :=
  join [keys.tenant.raw, keys.ns.raw, "_global", "last_processed_position"]

def nextGeneratedSeq : Key := join [keys.tenant.raw, keys.ns.raw, "_global", "next_generated_seq"]

end KeyBuilder

/-! ## Names as text -/

theorem PlainName.chars (p : PlainName) :
    p.raw.toList.head?.any Char.isAlphanum = true ∧
      ∀ c ∈ p.raw.toList, (c.isAlphanum || c == '_') = true := by
  have valid := p.valid
  simp only [PlainName.isValid, Bool.and_eq_true, List.all_eq_true] at valid
  exact ⟨valid.1.2, valid.2⟩

theorem PlainName.new_raw (quoted : String → String) (p : PlainName) :
    PlainName.new quoted p.raw = .ok p := by
  rw [PlainName.new, dif_pos p.valid]

/-- A suffix is a `u64`. -/
def ObjectName.Fits (n : ObjectName) : Prop := ∀ key ∈ n.suffix, key < u64Size

instance : DecidablePred ObjectName.Fits := fun n =>
  inferInstanceAs (Decidable (∀ key ∈ n.suffix, key < u64Size))

theorem ObjectName.toList_generated (b : PlainName) (n : Nat) :
    (ObjectName.generated b n).asStr.toList = b.raw.toList ++ '-' :: Nat.toDigits 10 n := by
  have digits : (toString n).toList = Nat.toDigits 10 n := Nat.toList_repr
  show (toString b.raw ++ toString "-" ++ toString n).toList = _
  rw [String.toList_append, String.toList_append, digits, List.append_assoc]
  rfl

theorem parseU64_digits {n} (fits : n < u64Size) : parseU64 (Nat.toDigits 10 n) = some n := by
  have decimal : (Nat.toDigits 10 n).all Char.isDigit = true :=
    List.all_eq_true.mpr fun c there => Nat.isDigit_of_mem_toDigits (by decide) (by decide) there
  have value : (Nat.toDigits 10 n).foldl (fun n c => 10 * n + (c.toNat - '0'.toNat)) 0 = n :=
    Nat.ofDigitChars_toDigits (by decide) (by decide)
  rw [parseU64, if_pos ⟨Nat.toDigits_ne_nil, decimal⟩, value, if_pos fits]

theorem PlainName.no_dash (p : PlainName) : ∀ c ∈ p.raw.toList, (c != '-') = true := by
  intro c there
  have plain := p.chars.2 c there
  rw [bne_iff_ne]
  rintro rfl
  exact absurd plain (by decide)

/-- What the text of a name adds to its base. -/
def ObjectName.tail : ObjectName → List Char
  | .plain _ => []
  | .generated _ n => '-' :: Nat.toDigits 10 n

/-- The first `-` of a name's text ends the base. -/
theorem ObjectName.span_asStr (n : ObjectName) :
    n.asStr.toList.span (· != '-') = (n.base.raw.toList, n.tail) := by
  rw [List.span_eq_takeWhile_dropWhile]
  cases n with
  | plain p =>
    show (p.raw.toList.takeWhile _, p.raw.toList.dropWhile _) = (p.raw.toList, [])
    rw [List.takeWhile_eq_self_iff.mpr p.no_dash, List.dropWhile_eq_nil_iff.mpr p.no_dash]
  | generated b key =>
    rw [ObjectName.toList_generated, List.takeWhile_append_of_pos b.no_dash,
      List.dropWhile_append_of_pos b.no_dash]
    simp [ObjectName.base, ObjectName.tail]

/-- A name is read back from its text. -/
theorem ObjectName.fromParsed_asStr (quoted : String → String) {n} (fits : n.Fits) :
    ObjectName.fromParsed quoted n.asStr = .ok n := by
  have parts := n.span_asStr
  cases n with
  | plain p =>
    obtain ⟨first, chars⟩ := p.chars
    have all : (p.raw.toList.all fun c => c.isAlphanum || c == '_' || c == '-') = true :=
      List.all_eq_true.mpr fun c there => by simp [chars c there]
    simp only [ObjectName.asStr, ObjectName.tail, ObjectName.base] at parts
    simp only [ObjectName.fromParsed, ObjectName.asStr, first, all, Bool.and_true, if_true, parts,
      PlainName.new_raw]
    rfl
  | generated b key =>
    obtain ⟨first, chars⟩ := b.chars
    have text := ObjectName.toList_generated b key
    have first' : (ObjectName.generated b key).asStr.toList.head?.any Char.isAlphanum = true := by
      rw [text, List.head?_append]
      cases head : b.raw.toList.head? with
      | none => rw [head] at first; cases first
      | some c => rw [head] at first; exact first
    have all : ((ObjectName.generated b key).asStr.toList.all
        fun c => c.isAlphanum || c == '_' || c == '-') = true := by
      rw [text, List.all_append, List.all_cons, List.all_eq_true.mpr fun c there => ?_,
        List.all_eq_true.mpr fun c there => ?_]
      · rfl
      · simp [Char.isAlphanum, Nat.isDigit_of_mem_toDigits (by decide) (by decide) there]
      · simp [chars c there]
    simp only [ObjectName.tail, ObjectName.base] at parts
    simp only [ObjectName.fromParsed, first', all, Bool.and_true, if_true, parts,
      parseU64_digits (fits key rfl), String.ofList_toList, PlainName.new_raw]
    rfl

theorem PlainName.raw_inj {p p' : PlainName} (same : p.raw = p'.raw) : p = p' := by
  cases p
  cases p'
  cases same
  rfl

theorem ObjectName.asStr_inj {n n' : ObjectName} (same : n.asStr = n'.asStr) : n = n' := by
  have parts := n.span_asStr
  rw [same, n'.span_asStr] at parts
  obtain ⟨bases, tails⟩ := Prod.mk.inj parts
  have base : n.base = n'.base := PlainName.raw_inj (String.toList_inj.mp bases.symm)
  cases n with
  | plain p =>
    cases n' with
    | plain p' => exact congrArg ObjectName.plain base
    | generated b' key' => cases tails
  | generated b key =>
    cases n' with
    | plain p' => cases tails
    | generated b' key' =>
      have digits : Nat.toDigits 10 key' = Nat.toDigits 10 key := (List.cons.inj tails).2
      have value := congrArg (Nat.ofDigitChars 10 · 0) digits
      simp only [Nat.ofDigitChars_toDigits (by decide : 1 < 10) (by decide : 10 ≤ 10)] at value
      have base : b = b' := base
      rw [base, value]

/-! ## The order of the families -/

/-- The kinds whose rows follow in the order of the keys. -/
def ObjectKind.later : ObjectKind → List ObjectKind
  | .activity => [.execution, .flow, .flowVersion, .task, .thread]
  | .execution => [.flow, .flowVersion, .task, .thread]
  | .flow => [.flowVersion, .task, .thread]
  | .flowVersion => [.task, .thread]
  | .task => [.thread]
  | .thread => []

namespace KeyBuilder

variable (keys : KeyBuilder) (kind other : ObjectKind) (text : String)

/-- What every key starts with. -/
def root : Key := join [keys.tenant.raw, keys.ns.raw, ""]

theorem kindPrefix_eq : keys.kindPrefix kind = keys.root ++ (kind.segment.toList ++ ['/']) := by
  simp [kindPrefix, root, join]

theorem row_eq : keys.row kind text = keys.kindPrefix kind ++ text.toList := by
  simp [row, kindPrefix, join]

/-- The tables beside the rows are spelled with a leading `_`. -/
def Aside (key : Key) : Prop := ∃ rest, key = keys.root ++ '_' :: rest

theorem childEdge_aside (parent child : RawObjectRef) : keys.Aside (keys.childEdge parent child) :=
  ⟨_, by simp [childEdge, root, join]; rfl⟩

theorem vars_aside (n : ObjectName) : keys.Aside (keys.vars n) :=
  ⟨_, by simp [vars, root, join]; rfl⟩

theorem lastProcessedPosition_aside : keys.Aside keys.lastProcessedPosition :=
  ⟨_, by simp [lastProcessedPosition, root, join]; rfl⟩

theorem nextGeneratedSeq_aside : keys.Aside keys.nextGeneratedSeq :=
  ⟨_, by simp [nextGeneratedSeq, root, join]; rfl⟩

/-- They come before all rows. -/
theorem Aside.lt_kindPrefix {keys : KeyBuilder} (kind : ObjectKind) {key} (aside : keys.Aside key) :
    key < keys.kindPrefix kind := by
  obtain ⟨rest, rfl⟩ := aside
  rw [kindPrefix_eq, Scan.append_lt_append_iff]
  cases kind <;> simp [ObjectKind.segment, List.cons_lt_cons_iff]

theorem kindPrefix_le_row_iff :
    keys.kindPrefix kind ≤ keys.row other text ↔ other = kind ∨ other ∈ kind.later := by
  rw [row_eq, kindPrefix_eq, kindPrefix_eq, List.append_assoc, Scan.append_le_append_iff,
    ← not_lt]
  cases kind <;> cases other <;>
    simp [ObjectKind.segment, ObjectKind.later, List.cons_lt_cons_iff]

theorem kindPrefix_prefix_row_iff : keys.kindPrefix kind <+: keys.row other text ↔ other = kind := by
  rw [row_eq, kindPrefix_eq, kindPrefix_eq, List.append_assoc, List.prefix_append_right_inj]
  cases kind <;> cases other <;> simp [ObjectKind.segment]

variable {keys kind other text}

theorem row_ne_aside {key : Key} (aside : keys.Aside key) : keys.row kind text ≠ key := by
  rintro rfl
  have above := (keys.kindPrefix_le_row_iff kind kind text).mpr (.inl rfl)
  exact absurd (aside.lt_kindPrefix kind) (not_lt.mpr above)

/-- A row's key names it. -/
theorem row_inj {n n' : ObjectName} (same : keys.row kind n.asStr = keys.row other n'.asStr) :
    (kind, n) = (other, n') := by
  have kinds : kind = other := by
    rw [← keys.kindPrefix_prefix_row_iff other kind n.asStr, same, keys.kindPrefix_prefix_row_iff]
  subst kinds
  rw [row_eq, row_eq, List.append_cancel_left_eq, String.toList_inj] at same
  rw [ObjectName.asStr_inj same]

end KeyBuilder

end Spica
