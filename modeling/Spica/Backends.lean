import Spica.Keys
import Spica.TaskRows

/-! # The two stores

The engine runs over a store in memory, whose rows lie in one table per kind, or over a
persistent one, whose rows all lie in one ordered space of keys. Two reads list rows instead of
looking one up: the page of a kind's rows in the order of their names, and the tasks a worker may
take. Over the key space both start at the prefix of the kind, where the iterator then yields
every key that follows, whatever it belongs to.
-/

namespace Spica

variable {ν : Type} {w : Write}

/-- A stored value: the JSON of a row, of a variable scope, of an edge's child or of a number. -/
inductive Encoded where
  | execution (e : Execution)
  | thread (t : Thread)
  | activity (a : Activity)
  | task (t : Task)
  | flow (f : Flow)
  | flowVersion (v : FlowVersion)
  | vars (scope : Variables)
  | child (r : RawObjectRef)
  | number (n : Nat)
  deriving DecidableEq

def Encoded.task? : Encoded → Option Task
  | .task t => some t
  | _ => none

/-- What a fold transaction writes when it commits. -/
structure Transaction where
  writes : List Write
  watermark : Option Nat

/-! ## In memory -/

/-- Every row of a table with its name. -/
def encodeRows {ν : Type} (encode : ν → Encoded) (table : Table ObjectName ν) :
    List (ObjectName × Encoded) :=
  (Scan.bindings table).map fun e => (e.1, encode e.2)

namespace InMemoryStorage

def commit (p : Projection) (t : Transaction) : Projection := t.writes.foldl Write.apply p

def rows (p : Projection) : ObjectKind → List (ObjectName × Encoded)
  | .execution => encodeRows .execution p.executions
  | .thread => encodeRows .thread p.threads
  | .activity => encodeRows .activity p.activities
  | .task => encodeRows .task p.tasks
  | .flow => (Scan.bindings p.flows).map fun e => (.plain e.1, .flow e.2)
  | .flowVersion => encodeRows .flowVersion p.flowVersions

/-- Whether a name comes after the position a page continues from. -/
def isAfter (startAfter : Option ObjectName) (name : ObjectName) : Bool :=
  startAfter.all fun a => a.asStr.toList < name.asStr.toList

/-- The rows of the kind, which the table yields in some order, sorted by name. -/
def listKind (order : Order (ObjectName × Encoded)) (p : Projection) (kind : ObjectKind)
    (startAfter : Option ObjectName) (limit : Nat) : List (ObjectName × Encoded) :=
  ((Scan.ordered (fun row => row.1.asStr.toList) (order.arrange (rows p kind))).filter
    fun row => isAfter startAfter row.1).take limit

def activatableTasks (order : Order Task) (p : Projection) (resource : String) (now : Timestamp)
    (limit : Nat) : List Task :=
  (order.arrange (p.claimable resource now)).take limit

end InMemoryStorage

/-! ## Over keys -/

/-- `{:?}` of a kind. -/
def ObjectKind.debug : ObjectKind → String
  | .flow => "Flow"
  | .flowVersion => "FlowVersion"
  | .execution => "Execution"
  | .thread => "Thread"
  | .activity => "Activity"
  | .task => "Task"

namespace RocksStorage

section

-- how a text is shown in a message, what the reader says of a cell that holds no task
variable (quoted : String → String) (unreadable : Encoded → String) (keys : KeyBuilder)

def put (cells : Table Key Encoded) : Write → Table Key Encoded
  | .execution e => cells.insert (keys.execution e.objectRef) (.execution e)
  | .thread t => cells.insert (keys.thread t.objectRef) (.thread t)
  | .vars r scope => cells.insert (keys.vars r.name) (.vars scope)
  | .activity a => cells.insert (keys.activity a.objectRef) (.activity a)
  | .task t => cells.insert (keys.task t.objectRef) (.task t)
  | .flow name f => cells.insert (keys.flow name) (.flow f)
  | .flowVersion v => cells.insert (keys.flowVersion v.metadata.name) (.flowVersion v)
  | .addChild parent child => cells.insert (keys.childEdge parent child) (.child child)
  | .removeChild parent child => cells.erase (keys.childEdge parent child)
  | .nextGeneratedSeq n => cells.insert keys.nextGeneratedSeq (.number n)

def commit (cells : Table Key Encoded) (t : Transaction) : Table Key Encoded :=
  let cells := t.writes.foldl (put keys) cells
  match t.watermark with
  | some w => cells.insert keys.lastProcessedPosition (.number w)
  | none => cells

/-- The loop of `list_kind` over what the iterator yields. A key too short for the slice at the
    prefix's length is a panic. -/
def listLoop (kind : ObjectKind) (startAfter : Option ObjectName) (limit : Nat) :
    List (Key × Encoded) → List (ObjectName × Encoded) → Except TxnAbort (List (ObjectName × Encoded))
  | [], out => .ok out
  | (key, value) :: rest, out =>
    if key.length < (keys.kindPrefix kind).length then .error (.panicked "range start out of range")
    else
      let name := key.drop (keys.kindPrefix kind).length
      if startAfter.any fun a => name ≤ a.asStr.toList then
        listLoop kind startAfter limit rest out
      else
        match ObjectName.fromParsed quoted (String.ofList name) with
        | .error e => .error (.storage (.invalidKey s!"rocksdb {kind.debug} name: {e}"))
        | .ok name =>
          if limit ≤ (out ++ [(name, value)]).length then .ok (out ++ [(name, value)])
          else listLoop kind startAfter limit rest (out ++ [(name, value)])

def listKind (cells : Table Key Encoded) (kind : ObjectKind) (startAfter : Option ObjectName)
    (limit : Nat) : Except TxnAbort (List (ObjectName × Encoded)) :=
  listLoop quoted keys kind startAfter limit (Scan.iterate cells (keys.kindPrefix kind)) []

/-- `serde_json::from_slice::<Task>`: the JSON of anything else lacks a task's fields. -/
def decodeTask (what : String) (value : Encoded) : Except TxnAbort Task :=
  match value.task? with
  | some t => .ok t
  | none => .error (.storage (.codec s!"{what}: {unreadable value}"))

def activatableTasks (cells : Table Key Encoded) (resource : String) (now : Timestamp) (limit : Nat) :
    Except TxnAbort (List Task) :=
  taskLoop (fun e => decodeTask unreadable "rocksdb task decode" e.2) resource now limit
    (Scan.iterate cells keys.taskPrefix) []

end

end RocksStorage

/-- The same read within a transaction. Its iterator is taken to yield the cells the transaction
    sees, the pending ones over the stored, in the order of their keys; the loop stops at the first
    key without the prefix. -/
def RocksTxn.activatableTasks (unreadable : Encoded → String) (keys : KeyBuilder)
    (cells : Table Key Encoded) (resource : String) (now : Timestamp) (limit : Nat) :
    Except TxnAbort (List Task) :=
  taskLoop (fun e => RocksStorage.decodeTask unreadable "rocksdb txn task decode" e.2) resource now
    limit ((Scan.iterate cells keys.taskPrefix).takeWhile fun e => keys.taskPrefix.isPrefixOf e.1) []

/-! ## One content

The rows of the key space are those of the tables. What else it holds lies before all rows. -/

namespace Projection

/-- The row of a kind under a name. -/
def row (p : Projection) (kind : ObjectKind) (n : ObjectName) : Option Encoded :=
  match kind with
  | .execution => (p.executions.lookup n).map .execution
  | .thread => (p.threads.lookup n).map .thread
  | .activity => (p.activities.lookup n).map .activity
  | .task => (p.tasks.lookup n).map .task
  | .flow => (n.asPlain.bind fun name => p.flows.lookup name).map .flow
  | .flowVersion => (p.flowVersions.lookup n).map .flowVersion

end Projection

variable {p : Projection} {kind : ObjectKind} {n : ObjectName} {v : Encoded}

theorem mem_encodeRows {encode} {table : Table ObjectName ν} :
    (n, v) ∈ encodeRows encode table ↔ (table.lookup n).map encode = some v := by
  rw [Option.map_eq_some_iff]
  constructor
  · intro there
    obtain ⟨⟨n', x⟩, here, same⟩ := List.mem_map.mp there
    obtain ⟨rfl, rfl⟩ := Prod.mk.inj same
    exact ⟨x, Scan.mem_bindings.mp here, rfl⟩
  · rintro ⟨x, found, rfl⟩
    exact List.mem_map.mpr ⟨(n, x), Scan.mem_bindings.mpr found, rfl⟩

theorem encodeRows_distinct (encode : ν → Encoded) (table : Table ObjectName ν) :
    ((encodeRows encode table).map Prod.fst).Nodup := by
  rw [encodeRows, List.map_map]
  exact Scan.bindings_distinct table

namespace InMemoryStorage

theorem mem_rows : (n, v) ∈ rows p kind ↔ p.row kind n = some v := by
  cases kind with
  | flow =>
    simp only [rows, Projection.row, Option.map_eq_some_iff, List.mem_map, Prod.mk.injEq,
      Prod.exists]
    constructor
    · rintro ⟨name, f, there, rfl, rfl⟩
      exact ⟨f, Scan.mem_bindings.mp there, rfl⟩
    · rintro ⟨f, found, rfl⟩
      obtain ⟨name, plain, found⟩ := Option.bind_eq_some_iff.mp found
      cases n with
      | plain _ =>
        cases plain
        exact ⟨name, f, Scan.mem_bindings.mpr found, rfl, rfl⟩
      | generated _ _ => cases plain
  | execution => exact mem_encodeRows
  | thread => exact mem_encodeRows
  | activity => exact mem_encodeRows
  | task => exact mem_encodeRows
  | flowVersion => exact mem_encodeRows

theorem rows_distinct (p : Projection) (kind : ObjectKind) : ((rows p kind).map Prod.fst).Nodup := by
  cases kind with
  | flow =>
    rw [rows, List.map_map]
    have plain : (Prod.fst ∘ fun e : FlowName × Flow => (ObjectName.plain e.1, Encoded.flow e.2)) =
        ObjectName.plain ∘ Prod.fst := rfl
    rw [plain, ← List.map_map]
    exact (Scan.bindings_distinct p.flows).map fun _ _ same => ObjectName.plain.inj same
  | execution => exact encodeRows_distinct _ _
  | thread => exact encodeRows_distinct _ _
  | activity => exact encodeRows_distinct _ _
  | task => exact encodeRows_distinct _ _
  | flowVersion => exact encodeRows_distinct _ _

end InMemoryStorage

/-- The row a write puts, unless it is a write of another table. -/
def Write.row : Write → Option ((ObjectKind × ObjectName) × Encoded)
  | .execution e => some ((.execution, e.metadata.name), .execution e)
  | .thread t => some ((.thread, t.metadata.name), .thread t)
  | .activity a => some ((.activity, a.metadata.name), .activity a)
  | .task t => some ((.task, t.metadata.name), .task t)
  | .flow name f => some ((.flow, .plain name), .flow f)
  | .flowVersion v => some ((.flowVersion, v.metadata.name), .flowVersion v)
  | .vars _ _ => none
  | .addChild _ _ => none
  | .removeChild _ _ => none
  | .nextGeneratedSeq _ => none

def Write.Fits (w : Write) : Prop := ∀ r ∈ w.row, r.1.2.Fits

def Transaction.Fits (t : Transaction) : Prop := ∀ w ∈ t.writes, w.Fits

theorem lookup_insert_map {κ : Type} [DecidableEq κ] (encode : ν → Encoded) (t : Table κ ν)
    (k j : κ) (x : ν) : ((t.insert k x).lookup j).map encode =
      if k = j then some (encode x) else (t.lookup j).map encode := by
  by_cases same : k = j
  · subst same
    rw [AList.lookup_insert, if_pos rfl, Option.map_some]
  · rw [AList.lookup_insert_ne (Ne.symm same), if_neg same]

theorem Write.row_apply_of {other n'} (puts : w.row = some ((other, n'), v)) (p : Projection)
    (kind : ObjectKind) (n : ObjectName) :
    (w.apply p).row kind n = if (other, n') = (kind, n) then some v else p.row kind n := by
  cases w <;> cases puts
  case flow name f =>
    cases kind
    case flow =>
      cases n with
      | plain own =>
        simp [Projection.row, Write.apply, Projection.putFlow, ObjectName.asPlain,
          lookup_insert_map]
      | generated base key => simp [Projection.row, Write.apply, ObjectName.asPlain]
    all_goals simp [Projection.row, Write.apply, Projection.putFlow]
  all_goals
    cases kind <;>
      simp [Projection.row, Write.apply, Projection.putExecution, Projection.putThread,
        Projection.putActivity, Projection.putTask, Projection.putFlowVersion, lookup_insert_map]

theorem Write.row_apply_none (aside : w.row = none) (p : Projection) (kind : ObjectKind)
    (n : ObjectName) : (w.apply p).row kind n = p.row kind n := by
  cases w <;> first | (cases aside; done) | cases kind <;> rfl

/-- A task is put under its own name. -/
theorem Write.files (w : Write) (filed : ∀ n t, p.tasks.lookup n = some t → t.metadata.name = n) :
    ∀ n t, (w.apply p).tasks.lookup n = some t → t.metadata.name = n := by
  intro n t found
  cases w with
  | task put =>
    by_cases same : n = put.metadata.name
    · subst same
      rw [Write.apply, Projection.putTask, AList.lookup_insert] at found
      cases found
      rfl
    · rw [Write.apply, Projection.putTask, AList.lookup_insert_ne same] at found
      exact filed n t found
  | _ => exact filed n t found

namespace RocksStorage

variable {keys : KeyBuilder} {cells : Table Key Encoded}

theorem put_row (puts : w.row = some ((kind, n), v)) :
    put keys cells w = cells.insert (keys.row kind n.asStr) v := by
  cases w <;> cases puts <;> rfl

theorem put_aside (keys : KeyBuilder) (cells : Table Key Encoded) (aside : w.row = none) :
    ∃ key, keys.Aside key ∧ ∀ other, other ≠ key →
      (put keys cells w).lookup other = cells.lookup other := by
  cases w with
  | vars r scope => exact ⟨_, keys.vars_aside r.name, fun _ ne => AList.lookup_insert_ne ne⟩
  | addChild parent child =>
    exact ⟨_, keys.childEdge_aside parent child, fun _ ne => AList.lookup_insert_ne ne⟩
  | removeChild parent child =>
    exact ⟨_, keys.childEdge_aside parent child, fun _ ne => AList.lookup_erase_ne ne⟩
  | nextGeneratedSeq k =>
    exact ⟨_, keys.nextGeneratedSeq_aside, fun _ ne => AList.lookup_insert_ne ne⟩
  | execution => cases aside
  | thread => cases aside
  | activity => cases aside
  | task => cases aside
  | flow => cases aside
  | flowVersion => cases aside

structure Carries (keys : KeyBuilder) (cells : Table Key Encoded) (p : Projection) : Prop where
  rows : ∀ {kind n}, n.Fits → cells.lookup (keys.row kind n.asStr) = p.row kind n
  known : ∀ {key v}, cells.lookup key = some v →
    keys.Aside key ∨ ∃ kind n, ObjectName.Fits n ∧ key = keys.row kind n.asStr
  fits : ∀ {kind n v}, p.row kind n = some v → n.Fits
  filed : ∀ n t, p.tasks.lookup n = some t → t.metadata.name = n

/-- A write beside the rows leaves them. -/
theorem Carries.beside (carries : Carries keys cells p) {cells' key} (aside : keys.Aside key)
    (same : ∀ other, other ≠ key → cells'.lookup other = cells.lookup other) :
    Carries keys cells' p where
  rows fits := by
    rw [same _ (KeyBuilder.row_ne_aside aside), carries.rows fits]
  known {at_ v} found := by
    by_cases here : at_ = key
    · exact .inl (here ▸ aside)
    · exact carries.known (same at_ here ▸ found)
  fits := carries.fits
  filed := carries.filed

theorem Carries.put (carries : Carries keys cells p) (fits : w.Fits) :
    Carries keys (put keys cells w) (w.apply p) := by
  cases puts : w.row with
  | none =>
    obtain ⟨key, aside, same⟩ := put_aside keys cells puts
    have rows : (w.apply p).row = p.row := by
      funext kind n
      exact Write.row_apply_none puts p kind n
    have beside := carries.beside aside same
    exact ⟨rows ▸ beside.rows, beside.known, rows ▸ beside.fits, w.files carries.filed⟩
  | some r =>
    obtain ⟨⟨other, n'⟩, v⟩ := r
    have own : n'.Fits := fits _ puts
    rw [put_row puts]
    refine ⟨fun {kind n} fitting => ?_, fun {key x} found => ?_, fun {kind n x} found => ?_,
      w.files carries.filed⟩
    · rw [Write.row_apply_of puts]
      by_cases same : (other, n') = (kind, n)
      · cases same
        rw [AList.lookup_insert, if_pos rfl]
      · have apart : keys.row kind n.asStr ≠ keys.row other n'.asStr := fun equal =>
          same (KeyBuilder.row_inj equal.symm)
        rw [AList.lookup_insert_ne apart, if_neg same, carries.rows fitting]
    · by_cases here : key = keys.row other n'.asStr
      · exact .inr ⟨other, n', own, here⟩
      · rw [AList.lookup_insert_ne here] at found
        exact carries.known found
    · rw [Write.row_apply_of puts] at found
      split at found
      · rename_i same
        cases same
        exact own
      · exact carries.fits found

theorem Carries.commit (carries : Carries keys cells p) {t} (fits : t.Fits) :
    Carries keys (commit keys cells t) (InMemoryStorage.commit p t) := by
  have writes : Carries keys (t.writes.foldl (RocksStorage.put keys) cells)
      (t.writes.foldl Write.apply p) := by
    obtain ⟨writes, watermark⟩ := t
    simp only [Transaction.Fits] at fits ⊢
    induction writes generalizing cells p with
    | nil => exact carries
    | cons w writes ih =>
      exact ih (carries.put (fits w List.mem_cons_self))
        fun w' there => fits w' (List.mem_cons_of_mem w there)
  rw [RocksStorage.commit, InMemoryStorage.commit]
  cases t.watermark with
  | none => exact writes
  | some w =>
    exact writes.beside keys.lastProcessedPosition_aside fun _ ne => AList.lookup_insert_ne ne

/-- After the same transactions the two stores hold the same rows. -/
theorem Carries.of_run {ts : List Transaction} (fits : ∀ t ∈ ts, t.Fits)
    (carries : Carries keys cells p) :
    Carries keys (ts.foldl (RocksStorage.commit keys) cells) (ts.foldl InMemoryStorage.commit p) := by
  induction ts generalizing cells p with
  | nil => exact carries
  | cons t ts ih =>
    exact ih (fun t' there => fits t' (List.mem_cons_of_mem t there))
      (carries.commit (fits t List.mem_cons_self))

end RocksStorage

end Spica
