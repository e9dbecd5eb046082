import Spica.Lib.Prog
import Spica.Types.Entry

/-! # The projection and its transactions

A row is filed under its name, an ownership edge under the two full references. A transaction
is a private copy of the projection: its reads see its own writes, and nothing is visible
outside until it commits. Every call of a transaction may fail, at the backend's whim.
-/

namespace Spica

structure Projection where
  executions : Table ObjectName Execution
  threads : Table ObjectName Thread
  scopes : Table ObjectName Variables
  activities : Table ObjectName Activity
  tasks : Table ObjectName Task
  flows : Table FlowName Flow
  flowVersions : Table ObjectName FlowVersion
  children : List (RawObjectRef × RawObjectRef)
  nextGeneratedSeq : Nat

namespace Projection

def empty : Projection := ⟨∅, ∅, ∅, ∅, ∅, ∅, ∅, [], 0⟩

def getExecution (p : Projection) (r : ObjectRef .execution) : Option Execution :=
  p.executions.lookup r.name

def getThread (p : Projection) (r : ObjectRef .thread) : Option Thread := p.threads.lookup r.name

def getVariables (p : Projection) (r : ObjectRef .thread) : Variables :=
  (p.scopes.lookup r.name).getD ∅

def getActivity (p : Projection) (r : ObjectRef .activity) : Option Activity :=
  p.activities.lookup r.name

def getTask (p : Projection) (r : ObjectRef .task) : Option Task := p.tasks.lookup r.name

def getFlowByName (p : Projection) (name : FlowName) : Option Flow := p.flows.lookup name

def getFlowVersion (p : Projection) (r : ObjectRef .flowVersion) : Option FlowVersion :=
  p.flowVersions.lookup r.name

def getChildren (p : Projection) (parent : RawObjectRef) : List RawObjectRef :=
  (p.children.filter fun edge => edge.1 = parent).map Prod.snd

def claimable (p : Projection) (resource : String) (now : Timestamp) : List Task :=
  (p.tasks.entries.map Sigma.snd).filter fun t => t.resource == resource && t.isClaimableAt now

def putExecution (p : Projection) (e : Execution) : Projection :=
  { p with executions := p.executions.insert e.metadata.name e }

def putThread (p : Projection) (t : Thread) : Projection :=
  { p with threads := p.threads.insert t.metadata.name t }

def putVariables (p : Projection) (r : ObjectRef .thread) (vars : Variables) : Projection :=
  { p with scopes := p.scopes.insert r.name vars }

def putActivity (p : Projection) (a : Activity) : Projection :=
  { p with activities := p.activities.insert a.metadata.name a }

def putTask (p : Projection) (t : Task) : Projection :=
  { p with tasks := p.tasks.insert t.metadata.name t }

def putFlow (p : Projection) (name : FlowName) (f : Flow) : Projection :=
  { p with flows := p.flows.insert name f }

def putFlowVersion (p : Projection) (v : FlowVersion) : Projection :=
  { p with flowVersions := p.flowVersions.insert v.metadata.name v }

def addChild (p : Projection) (parent child : RawObjectRef) : Projection :=
  { p with children := p.children.insert (parent, child) }

def removeChild (p : Projection) (parent child : RawObjectRef) : Projection :=
  { p with children := p.children.filter fun edge => edge ≠ (parent, child) }

def putNextGeneratedSeq (p : Projection) (n : Nat) : Projection := { p with nextGeneratedSeq := n }

end Projection

/-- An enumeration order for an unordered collection. -/
structure Order (α : Type) where
  arrange : List α → List α
  perm : ∀ xs, (arrange xs).Perm xs

def Order.asIs (α : Type) : Order α := ⟨id, fun _ => .refl _⟩

/-- The reads of the storage contract. -/
inductive Query where
  | execution (r : ObjectRef .execution)
  | thread (r : ObjectRef .thread)
  | vars (r : ObjectRef .thread)
  | activity (r : ObjectRef .activity)
  | task (r : ObjectRef .task)
  | children (r : RawObjectRef)
  | activatableTasks (resource : String) (now : Timestamp) (limit : Nat)
  | flowByName (name : FlowName)
  | flowVersion (r : ObjectRef .flowVersion)
  | nextGeneratedSeq

@[reducible] def Query.Ret : Query → Type
  | .execution _ => Option Execution
  | .thread _ => Option Thread
  | .vars _ => Variables
  | .activity _ => Option Activity
  | .task _ => Option Task
  | .children _ => List RawObjectRef
  | .activatableTasks _ _ _ => List Task
  | .flowByName _ => Option Flow
  | .flowVersion _ => Option FlowVersion
  | .nextGeneratedSeq => Nat

/-- What is filed in a table, in the order a scan visits the keys. -/
def scanned {κ ν : Type} [DecidableEq κ] (order : Order κ) (t : Table κ ν) : List ν :=
  (order.arrange t.keys).filterMap t.lookup

theorem scanned_perm {κ ν : Type} [DecidableEq κ] (order : Order κ) (t : Table κ ν) :
    (scanned order t).Perm (t.entries.map Sigma.snd) := by
  have values : t.keys.filterMap t.lookup = t.entries.map Sigma.snd := by
    rw [AList.keys, List.keys, List.filterMap_map, ← List.filterMap_eq_map]
    exact List.filterMap_congr fun e there => AList.mem_lookup_iff.mpr there
  exact values ▸ (order.perm _).filterMap _

/-- The loop of `activatable_tasks` over the values an iterator yields. The cap is tested before a
    task joins those collected. -/
def taskLoop {ν ε : Type} (decode : ν → Except ε Task) (resource : String) (now : Timestamp)
    (limit : Nat) : List ν → List Task → Except ε (List Task)
  | [], out => .ok out
  | value :: rest, out =>
    match decode value with
    | .error e => .error e
    | .ok task =>
      if task.resource == resource && task.isClaimableAt now then
        if limit ≤ out.length then .ok out
        else taskLoop decode resource now limit rest (out ++ [task])
      else taskLoop decode resource now limit rest out

section loop

variable {ν ε : Type} {decode : ν → Except ε Task} {resource : String} {now : Timestamp}
  {limit : Nat} {out ts : List Task} {vs rest : List ν}

/-- Over values that decode, it collects the claimable tasks in their order, up to the cap. -/
theorem taskLoop_reads (reads : vs.map decode = ts.map .ok) (room : out.length ≤ limit) :
    taskLoop decode resource now limit (vs ++ rest) out =
      if limit < out.length +
          (ts.filter fun t => t.resource == resource && t.isClaimableAt now).length then
        .ok (out ++ (ts.filter fun t => t.resource == resource && t.isClaimableAt now).take
          (limit - out.length))
      else taskLoop decode resource now limit rest
        (out ++ ts.filter fun t => t.resource == resource && t.isClaimableAt now) := by
  induction ts generalizing vs out with
  | nil =>
    obtain rfl := List.map_eq_nil_iff.mp reads
    rw [if_neg (by simpa using room)]
    simp
  | cons t ts ih =>
    obtain ⟨v, vs, rfl, first, reads⟩ := List.map_eq_cons_iff.mp reads
    simp only [List.cons_append, taskLoop, first, List.filter_cons]
    by_cases free : (t.resource == resource && t.isClaimableAt now) = true
    · rw [if_pos free, if_pos free, List.length_cons]
      by_cases full : limit ≤ out.length
      · have none : limit - out.length = 0 := by omega
        rw [if_pos full, if_pos (by omega), none, List.take_zero, List.append_nil]
      · rw [if_neg full, ih reads (by simp; omega)]
        have fewer : limit - out.length = limit - (out.length + 1) + 1 := by omega
        simp only [List.length_append, List.length_singleton, fewer, List.take_succ_cons,
          List.append_assoc, List.singleton_append, Nat.add_assoc, Nat.add_comm 1]
    · rw [if_neg free, if_neg free, ih reads room]

theorem taskLoop_all (reads : vs.map decode = ts.map .ok) :
    taskLoop decode resource now limit vs [] =
      .ok ((ts.filter fun t => t.resource == resource && t.isClaimableAt now).take limit) := by
  rw [← List.append_nil vs, taskLoop_reads reads (Nat.zero_le limit)]
  simp only [List.length_nil, Nat.zero_add, Nat.sub_zero, List.nil_append, taskLoop]
  split
  · rfl
  · rename_i few
    rw [List.take_of_length_le (Nat.le_of_not_lt few)]

end loop

/-- The answer to a read. Hash-ordered answers come in an order the caller cannot know. -/
def Query.eval (refs : Order RawObjectRef) (tasks : Order ObjectName) (p : Projection) :
    (q : Query) → q.Ret
  | .execution r => p.getExecution r
  | .thread r => p.getThread r
  | .vars r => p.getVariables r
  | .activity r => p.getActivity r
  | .task r => p.getTask r
  | .children r => refs.arrange (p.getChildren r)
  | .activatableTasks resource now limit =>
    ((scanned tasks p.tasks).filter fun t => t.resource == resource && t.isClaimableAt now).take limit
  | .flowByName name => p.getFlowByName name
  | .flowVersion r => p.getFlowVersion r
  | .nextGeneratedSeq => p.nextGeneratedSeq

/-- The writes of a transaction. -/
inductive Write where
  | execution (e : Execution)
  | thread (t : Thread)
  | vars (r : ObjectRef .thread) (scope : Variables)
  | activity (a : Activity)
  | task (t : Task)
  | flow (name : FlowName) (f : Flow)
  | flowVersion (v : FlowVersion)
  | addChild (parent child : RawObjectRef)
  | removeChild (parent child : RawObjectRef)
  | nextGeneratedSeq (n : Nat)

def Write.apply (p : Projection) : Write → Projection
  | .execution e => p.putExecution e
  | .thread t => p.putThread t
  | .vars r scope => p.putVariables r scope
  | .activity a => p.putActivity a
  | .task t => p.putTask t
  | .flow name f => p.putFlow name f
  | .flowVersion v => p.putFlowVersion v
  | .addChild parent child => p.addChild parent child
  | .removeChild parent child => p.removeChild parent child
  | .nextGeneratedSeq n => p.putNextGeneratedSeq n

/-! ## Transactions -/

/-- What the backend decides about each call: whether it fails, and the order of an unordered
    answer. Calls are numbered from 0. -/
structure Backend where
  fault : Nat → Option StorageError
  refs : Nat → Order RawObjectRef
  tasks : Nat → Order ObjectName

/-- No call fails. -/
def Backend.FaultFree (b : Backend) : Prop := ∀ n, b.fault n = none

/-- The same backend with every fault taken away. -/
def Backend.withoutFaults (b : Backend) : Backend := { b with fault := fun _ => none }

/-- An open transaction: its view of the projection, and the calls made so far. -/
structure TxnState where
  rows : Projection
  calls : Nat

/-- Why a transaction's program stops: a failed call passed on with `?`, or a panic. -/
inductive TxnAbort where
  | storage (e : StorageError)
  | panicked (msg : String)
  deriving DecidableEq

/-- The calls of a transaction. `ask` and `put` pass a failure on, `peek` and `tryPut` hand it
    to the caller. -/
inductive TxnOp where
  | ask (q : Query)
  | peek (q : Query)
  | put (w : Write)
  | tryPut (w : Write)

@[reducible] def TxnOp.Ret : TxnOp → Type
  | .ask q => q.Ret
  | .peek q => Except StorageError q.Ret
  | .put _ => Unit
  | .tryPut _ => Except StorageError Unit

abbrev Txn (α : Type) : Type := Prog TxnOp TxnOp.Ret TxnAbort α

namespace Txn

/-- One call, as a value: its failure or its answer. -/
def read (q : Query) : Eff Backend TxnAbort TxnState (Except StorageError q.Ret) := fun b s =>
  let s' := { s with calls := s.calls + 1 }
  match b.fault s.calls with
  | some e => (.ok (.error e), s')
  | none => (.ok (.ok (q.eval (b.refs s.calls) (b.tasks s.calls) s.rows)), s')

def write (w : Write) : Eff Backend TxnAbort TxnState (Except StorageError Unit) := fun b s =>
  let s' := { s with calls := s.calls + 1 }
  match b.fault s.calls with
  | some e => (.ok (.error e), s')
  | none => (.ok (.ok ()), { s' with rows := w.apply s.rows })

/-- `?` on a storage result. -/
def orFail {α : Type} (r : Except StorageError α) : Eff Backend TxnAbort TxnState α :=
  match r with
  | .ok a => pure a
  | .error e => Eff.fail (.storage e)

def interpret : (o : TxnOp) → Eff Backend TxnAbort TxnState o.Ret
  | .ask q => read q >>= orFail
  | .peek q => read q
  | .put w => write w >>= orFail
  | .tryPut w => write w

abbrev ask (q : Query) : Txn q.Ret := Prog.perform (TxnOp.ask q)
abbrev peek (q : Query) : Txn (Except StorageError q.Ret) := Prog.perform (TxnOp.peek q)
abbrev put (w : Write) : Txn Unit := Prog.perform (TxnOp.put w)
abbrev tryPut (w : Write) : Txn (Except StorageError Unit) := Prog.perform (TxnOp.tryPut w)

section runs

variable (q : Query) (w : Write) (b : Backend) (s : TxnState)

theorem run_peek : (peek q).run interpret b s =
    (.ok (match b.fault s.calls with
      | some e => .error e
      | none => .ok (q.eval (b.refs s.calls) (b.tasks s.calls) s.rows)),
    { s with calls := s.calls + 1 }) := by
  rw [Prog.run_perform]
  show read q b s = _
  unfold read
  cases b.fault s.calls <;> rfl

theorem run_ask : (ask q).run interpret b s =
    ((match b.fault s.calls with
      | some e => .error (.storage e)
      | none => .ok (q.eval (b.refs s.calls) (b.tasks s.calls) s.rows)),
    { s with calls := s.calls + 1 }) := by
  rw [Prog.run_perform]
  show Eff.bind (read q) orFail b s = _
  simp only [Eff.bind, read]
  cases b.fault s.calls <;> rfl

theorem run_tryPut : (tryPut w).run interpret b s =
    match b.fault s.calls with
    | some e => (.ok (.error e), { s with calls := s.calls + 1 })
    | none => (.ok (.ok ()), { s with calls := s.calls + 1, rows := w.apply s.rows }) := by
  rw [Prog.run_perform]
  show write w b s = _
  unfold write
  cases b.fault s.calls <;> rfl

theorem run_put : (put w).run interpret b s =
    match b.fault s.calls with
    | some e => (.error (.storage e), { s with calls := s.calls + 1 })
    | none => (.ok (), { s with calls := s.calls + 1, rows := w.apply s.rows }) := by
  rw [Prog.run_perform]
  show Eff.bind (write w) orFail b s = _
  simp only [Eff.bind, write]
  cases b.fault s.calls <;> rfl

end runs

/-- `put_flow`: the row is filed under the plain name the source unwraps. -/
def putFlow (f : Flow) : Txn Unit :=
  match f.metadata.name.asPlain with
  | some name => put (.flow name f)
  | none => .fail (.panicked "a Flow's meta.name is always a user FlowName")

end Txn

/-- Committed storage. -/
structure Storage where
  rows : Projection
  lastProcessedPosition : Nat

def Storage.empty : Storage := ⟨.empty, 0⟩

/-- `commit`: the transaction's rows land together with the watermark; the counter only rises. -/
def Storage.commit (s : Storage) (rows : Projection) (watermark : Nat) : Storage where
  rows := { rows with nextGeneratedSeq := max s.rows.nextGeneratedSeq rows.nextGeneratedSeq }
  lastProcessedPosition := watermark

end Spica
