import Spica.Scans
import Spica.Stored

/-! # Lists of objects, page by page

A list is read through the query facade: one row more than the page has room for is asked of
storage, to see whether there are further ones, and the name of the last object is the token of the
next page. The rows come as JSON, so an object is what its row is read back as.
-/

namespace Spica

open Serde RocksStorage
open InMemoryStorage (isAfter)

section

variable [Wire.Texts]

/-! ## Objects -/

/-- A row of one of the six kinds. -/
abbrev QueryObject : Type := Encoded

/-- The name of a row; the values beside the rows have none. -/
def Encoded.name : Encoded → Option ObjectName
  | .execution e => some e.metadata.name
  | .thread t => some t.metadata.name
  | .activity a => some a.metadata.name
  | .task t => some t.metadata.name
  | .flow f => some f.metadata.name
  | .flowVersion v => some v.metadata.name
  | .vars _ | .child _ | .number _ => none

def Encoded.bytes : Encoded → Json
  | .execution e => Wire.execution.write e
  | .thread t => Wire.thread.write t
  | .activity a => Wire.activity.write a
  | .task t => Wire.task.write t
  | .flow f => Wire.flow.write f
  | .flowVersion v => Wire.flowVersion.write v
  | .vars scope => Stored.scope.write scope
  | .child r => Wire.rawObjectRef.write r
  | .number n => Codec.i64.write n

/-- The numbers of a row are in the range of their types. -/
def Encoded.Valid : Encoded → Prop
  | .execution e => Wire.execution.Valid e
  | .thread t => Wire.thread.Valid t
  | .activity a => Wire.activity.Valid a
  | .task t => Wire.task.Valid t
  | .flow f => Wire.flow.Valid f
  | .flowVersion v => Wire.flowVersion.Valid v
  | .vars _ | .child _ | .number _ => True

instance : DecidablePred Encoded.Valid := fun v => by
  cases v <;> unfold Encoded.Valid <;> infer_instance

/-- What a row is read back as. -/
def Encoded.back : Encoded → QueryObject
  | .execution e => .execution (Wire.execution.back e)
  | .thread t => .thread (Wire.thread.back t)
  | .activity a => .activity (Wire.activity.back a)
  | v => v

def Encoded.NullFree : Encoded → Prop
  | .execution e => e.NullFree
  | .thread t => t.NullFree
  | .activity a => a.NullFree
  | _ => True

theorem Encoded.back_name (v : Encoded) : v.back.name = v.name := by
  cases v with
  | execution e => rw [back, Wire.execution_back]; rfl
  | thread t => rw [back, Wire.thread_back]; rfl
  | activity a => rw [back, Wire.activity_back]; rfl
  | _ => rfl

namespace Listing

/-! ## One page -/

structure QueryListPage where
  objects : List QueryObject
  continueToken : Option String

section facade

-- how a text and a name are shown in a message
variable (quoted : String → String) (shown : ObjectName → String)

def decode (kind : ObjectKind) (name : ObjectName) (bytes : Json) :
    Except ExecutionError QueryObject :=
  Except.mapError (fun _ => .runtime (.invalidDefinition
    s!"Query decode of {kind.asStr} {shown name} failed")) <|
  match kind with
  | .flow => (Wire.flow.read bytes).map .flow
  | .flowVersion => (Wire.flowVersion.read bytes).map .flowVersion
  | .execution => (Wire.execution.read bytes).map .execution
  | .thread => (Wire.thread.read bytes).map .thread
  | .activity => (Wire.activity.read bytes).map .activity
  | .task => (Wire.task.read bytes).map .task

/-- The name a page starts after. -/
def startAfter : Option String → Except ExecutionError (Option ObjectName)
  | none => .ok none
  | some t =>
    if t.toList.isEmpty then .ok none
    else match ObjectName.fromParsed quoted t with
      | .ok name => .ok (some name)
      | .error e => .error (.runtime (.invalidDefinition
          s!"invalid continue_token {quoted t}: {e}"))

/-- `limit + 1` saturates. -/
def listKind (order : Order (ObjectName × Encoded)) (p : Projection) (kind : ObjectKind)
    (limit : Nat) (continueToken : Option String) : Except ExecutionError QueryListPage := do
  let after ← startAfter quoted continueToken
  let rows := InMemoryStorage.listKind order p kind after (min (limit + 1) (u64Size - 1))
  let objects ← (rows.take limit).mapM fun row => decode shown kind row.1 row.2.bytes
  return ⟨objects, if limit < rows.length then
    objects.getLast?.bind fun o => o.name.map ObjectName.asStr else none⟩

end facade

/-- The rows of the kind lie under their own names, and there are no more than can be counted. -/
structure Listable (p : Projection) (kind : ObjectKind) : Prop where
  filed : ∀ n v, p.row kind n = some v → v.name = some n
  fits : ∀ n v, p.row kind n = some v → n.Fits
  valid : ∀ n v, p.row kind n = some v → v.Valid
  few : (InMemoryStorage.rows p kind).length < u64Size

variable {quoted : String → String} {shown : ObjectName → String} {p : Projection}
  {kind : ObjectKind} {n : ObjectName} {v : Encoded} {limit : Nat} {start : Option ObjectName}

theorem decode_bytes (found : p.row kind n = some v) (valid : v.Valid) :
    decode shown kind n v.bytes = .ok v.back := by
  cases kind with
  | flow | flowVersion | task =>
    obtain ⟨x, -, rfl⟩ := Option.map_eq_some_iff.mp found
    simp only [decode, Encoded.bytes, Codec.read_write _ valid]
    rfl
  | execution | thread | activity =>
    obtain ⟨x, -, rfl⟩ := Option.map_eq_some_iff.mp found
    simp only [decode, Encoded.bytes, Codec.law _ _ valid]
    rfl

omit [Wire.Texts] in
theorem startAfter_token (fits : ∀ n ∈ start, n.Fits) :
    startAfter quoted (start.map ObjectName.asStr) = .ok start := by
  cases start with
  | none => rfl
  | some n =>
    have parsed := ObjectName.fromParsed_asStr quoted (fits n rfl)
    have some_ : n.asStr.toList.isEmpty = false := by
      cases empty : n.asStr.toList with
      | nil =>
        rw [ObjectName.fromParsed, empty] at parsed
        cases parsed
      | cons c cs => rfl
    rw [Option.map_some, startAfter, some_, parsed]
    rfl

omit [Wire.Texts] in
theorem mapM_ok {α β ε : Type} {f : α → Except ε β} {g} {as : List α}
    (all : ∀ a ∈ as, f a = .ok (g a)) : as.mapM f = .ok (as.map g) := by
  induction as with
  | nil => rfl
  | cons a as ih =>
    rw [List.mapM_cons, all a List.mem_cons_self,
      ih fun b there => all b (List.mem_cons_of_mem a there)]
    rfl

omit [Wire.Texts] in
theorem isAfter_iff {a n} : isAfter (some a) n = true ↔ a.asStr.toList < n.asStr.toList :=
  decide_eq_true_iff

omit [Wire.Texts] in
theorem isAfter_trans {a} (first : isAfter start a = true) (next : isAfter (some a) n = true) :
    isAfter start n = true := by
  cases start with
  | none => rfl
  | some b => exact isAfter_iff.mpr ((isAfter_iff.mp first).trans (isAfter_iff.mp next))

omit [Wire.Texts] in
theorem mem_after {row} : row ∈ after start (listed p kind) ↔
    p.row kind row.1 = some row.2 ∧ isAfter start row.1 = true := by
  rw [after, List.mem_filter]
  exact and_congr_left fun _ => mem_listed

/-- A page is the last one, or it ends with the row that its token names. -/
theorem listKind_cases (order : Order (ObjectName × Encoded)) (listable : Listable p kind)
    (some_ : 1 ≤ limit) (small : limit < u64Size) (fits : ∀ n ∈ start, n.Fits) :
    listKind quoted shown order p kind limit (start.map ObjectName.asStr) =
        .ok ⟨(after start (listed p kind)).map fun row => row.2.back, none⟩ ∨
      ∃ ys n v zs, after start (listed p kind) = ys ++ (n, v) :: zs ∧ n.Fits ∧
        listKind quoted shown order p kind limit (start.map ObjectName.asStr) =
          .ok ⟨(ys ++ [(n, v)]).map fun row => row.2.back, some n.asStr⟩ := by
  have held : ∀ row ∈ after start (listed p kind), p.row kind row.1 = some row.2 :=
    fun _ there => (mem_after.mp there).1
  have few : (after start (listed p kind)).length < u64Size := by
    refine lt_of_le_of_lt (List.length_filter_le _ _) ?_
    rw [listed, (Scan.ordered_perm text _).length_eq]
    exact listable.few
  unfold listKind
  rw [startAfter_token fits]
  simp only [bind, Except.bind, memory_eq]
  generalize after start (listed p kind) = xs at held few ⊢
  have cut : (xs.take (min (limit + 1) (u64Size - 1))).take limit = xs.take limit := by
    rw [List.take_take]
    congr 1
    omega
  have decoded : (xs.take limit).mapM (fun row => decode shown kind row.1 row.2.bytes) =
      .ok ((xs.take limit).map fun row => row.2.back) :=
    mapM_ok fun row there => by
      have found := held row (List.mem_of_mem_take there)
      exact decode_bytes found (listable.valid _ _ found)
  have probe : (limit < (xs.take (min (limit + 1) (u64Size - 1))).length) = (limit < xs.length) := by
    rw [List.length_take]
    exact propext (by omega)
  simp only [cut, decoded, probe]
  by_cases more : limit < xs.length
  · obtain none | ⟨ys, ⟨n, v⟩, last⟩ := List.eq_nil_or_concat (xs.take limit)
    · have := congrArg List.length none
      rw [List.length_take, List.length_nil] at this
      omega
    · rw [List.concat_eq_append] at last
      have found : p.row kind n = some v := held (n, v) (List.mem_of_mem_take (by rw [last]; simp))
      refine .inr ⟨ys, n, v, xs.drop limit, ?_, listable.fits n v found, ?_⟩
      · have whole := List.take_append_drop limit xs
        rwa [last, List.append_assoc, List.singleton_append, eq_comm] at whole
      · simp [last, more, Encoded.back_name, listable.filed n v found, pure, Except.pure]
  · refine .inl ?_
    simp [more, List.take_of_length_le (Nat.le_of_not_lt more), pure, Except.pure]

omit [Wire.Texts] in
/-- What comes after a row of the list. -/
theorem after_row {ys zs} (split : after start (listed p kind) = ys ++ (n, v) :: zs) :
    after (some n) (listed p kind) = zs := by
  have up : Scan.Ascending text (after start (listed p kind)) := (listed_ascending p kind).filter _
  have here := (mem_after.mp (split ▸ (by simp : (n, v) ∈ ys ++ (n, v) :: zs))).2
  rw [split] at up
  obtain ⟨-, below, before⟩ := List.pairwise_append.mp up
  obtain ⟨above, -⟩ := List.pairwise_cons.mp below
  have later : after (some n) (listed p kind) = after (some n) (after start (listed p kind)) := by
    rw [after, after, after, List.filter_filter]
    refine List.filter_congr fun row _ => Bool.eq_iff_iff.mpr ?_
    rw [Bool.and_eq_true]
    exact ⟨fun next => ⟨next, isAfter_trans here next⟩, And.left⟩
  have none : ys.filter (fun row => isAfter (some n) row.1) = [] :=
    List.filter_eq_nil_iff.mpr fun row there next =>
      lt_asymm (before row there (n, v) List.mem_cons_self) (isAfter_iff.mp next)
  have all : zs.filter (fun row => isAfter (some n) row.1) = zs :=
    List.filter_eq_self.mpr fun row there => isAfter_iff.mpr (above row there)
  have self : ¬ isAfter (some n) n = true := fun next =>
    lt_irrefl _ (isAfter_iff.mp next)
  rw [later, split, after, List.filter_append, none, List.filter_cons, if_neg self, all,
    List.nil_append]

/-! ## All pages -/

/-- Repeated calls from the token on, until a page has none; the objects of all pages. -/
inductive Lists (call : Nat → Option String → Except ExecutionError QueryListPage) :
    Nat → Option String → List QueryObject → Prop
  | last {i token objects} (called : call i token = .ok ⟨objects, none⟩) :
      Lists call i token objects
  | more {i token objects rest next} (called : call i token = .ok ⟨objects, some next⟩)
      (on : Lists call (i + 1) (some next) rest) : Lists call i token (objects ++ rest)

/-- The `i`-th call finds the `i`-th store. -/
def calls (quoted : String → String) (shown : ObjectName → String)
    (orders : Nat → Order (ObjectName × Encoded)) (stores : Nat → Projection) (kind : ObjectKind)
    (limit i : Nat) (token : Option String) : Except ExecutionError QueryListPage :=
  listKind quoted shown (orders i) (stores i) kind limit token

section calls

variable {orders : Nat → Order (ObjectName × Encoded)} {stores : Nat → Projection} {i k : Nat}
  {token : Option String} {objects : List QueryObject}

/-- What is listed from a position on: rows in their order, among them every row that was there. -/
structure Covers (stores : Nat → Projection) (kind : ObjectKind) (i : Nat)
    (start : Option ObjectName) (rows : List (ObjectName × Encoded)) : Prop where
  ascending : Scan.Ascending text rows
  found : ∀ row ∈ rows, isAfter start row.1 = true ∧ ∃ j, (stores j).row kind row.1 = some row.2
  all : ∀ n v, (stores i).row kind n = some v → isAfter start n = true → (n, v) ∈ rows

omit [Wire.Texts] in
theorem Covers.page {rows ys zs} (rest : Covers stores kind (i + 1) (some n) rows)
    (grows : ∀ n v, (stores i).row kind n = some v → (stores (i + 1)).row kind n = some v)
    (split : after start (listed (stores i) kind) = ys ++ (n, v) :: zs) :
    Covers stores kind i start (ys ++ (n, v) :: rows) := by
  have up : Scan.Ascending text (after start (listed (stores i) kind)) :=
    (listed_ascending _ kind).filter _
  have here : ∀ row ∈ ys ++ (n, v) :: zs, (stores i).row kind row.1 = some row.2 ∧
      isAfter start row.1 = true := fun row there => mem_after.mp (split ▸ there)
  have next : ∀ row ∈ rows, isAfter (some n) row.1 = true := fun row there => (rest.found row there).1
  rw [split] at up
  obtain ⟨first, -, before⟩ := List.pairwise_append.mp up
  constructor
  · refine List.pairwise_append.mpr ⟨first, List.pairwise_cons.mpr
      ⟨fun b more => isAfter_iff.mp (next b more), rest.ascending⟩, fun a there b also => ?_⟩
    have lt := before a there (n, v) List.mem_cons_self
    rcases List.mem_cons.mp also with rfl | more
    · exact lt
    · exact lt.trans (isAfter_iff.mp (next b more))
  · intro row there
    rcases List.mem_append.mp there with old | last
    · have known := here row (List.mem_append_left _ old)
      exact ⟨known.2, i, known.1⟩
    · have known := here (n, v) (by simp)
      rcases List.mem_cons.mp last with rfl | more
      · exact ⟨known.2, i, known.1⟩
      · exact ⟨isAfter_trans known.2 (next row more), (rest.found row more).2⟩
  · intro m x found later
    have there : (m, x) ∈ ys ++ (n, v) :: zs := split ▸ mem_after.mpr ⟨found, later⟩
    rcases List.mem_append.mp there with old | last
    · exact List.mem_append_left _ old
    · refine List.mem_append_right _ ?_
      rcases List.mem_cons.mp last with same | left
      · exact same ▸ List.mem_cons_self
      · have past := after_row split ▸ left
        exact List.mem_cons_of_mem _ (rest.all m x (grows m x found) (mem_after.mp past).2)

variable (some_ : 1 ≤ limit) (small : limit < u64Size) (listable : ∀ i, Listable (stores i) kind)
include some_ small listable

theorem Lists.covers
    (grows : ∀ i n v, (stores i).row kind n = some v → (stores (i + 1)).row kind n = some v)
    (lists : Lists (calls quoted shown orders stores kind limit) i token objects) :
    ∀ start : Option ObjectName, (∀ n ∈ start, n.Fits) → token = start.map ObjectName.asStr →
      ∃ rows, objects = rows.map (fun row => row.2.back) ∧ Covers stores kind i start rows := by
  induction lists with
  | @last i token objects called =>
    rintro start fits rfl
    rcases listKind_cases (orders i) (listable i) some_ small fits with page | ⟨_, _, _, _, -, -, page⟩
    · cases called.symm.trans page
      refine ⟨_, rfl, (listed_ascending _ kind).filter _, fun row there => ?_,
        fun n v found later => mem_after.mpr ⟨found, later⟩⟩
      exact ⟨(mem_after.mp there).2, i, (mem_after.mp there).1⟩
    · cases called.symm.trans page
  | @more i token objects rest next called on ih =>
    rintro start fits rfl
    rcases listKind_cases (orders i) (listable i) some_ small fits with
      page | ⟨ys, n, v, zs, split, fit, page⟩
    · cases called.symm.trans page
    · cases called.symm.trans page
      obtain ⟨rows, rfl, covers⟩ := ih (some n) (fun m here => Option.some.inj here ▸ fit) rfl
      exact ⟨ys ++ (n, v) :: rows, by simp, covers.page (grows i) split⟩

end calls

/-- A store is checked row by row. -/
theorem Listable.of_rows
    (rows : ∀ row ∈ InMemoryStorage.rows p kind,
      row.2.name = some row.1 ∧ row.1.Fits ∧ row.2.Valid)
    (few : (InMemoryStorage.rows p kind).length < u64Size) : Listable p kind where
  filed n v found := (rows (n, v) (InMemoryStorage.mem_rows.mpr found)).1
  fits n v found := (rows (n, v) (InMemoryStorage.mem_rows.mpr found)).2.1
  valid n v found := (rows (n, v) (InMemoryStorage.mem_rows.mpr found)).2.2
  few := few

end Listing

end

/-! ## Stores of executions -/

namespace Listing

open Scenario

instance marked : Wire.Texts := .marked

def ended (name : ObjectName) (output : Option Json) : Execution :=
  ⟨.build .nil name ⟨0⟩ (), ⟨.plain exec, .nil⟩, .completed, none, .null, output⟩

def three : List ObjectName := [.plain second, .plain exec, .generated exec 1]

end Listing

end Spica
