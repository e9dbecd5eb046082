import Spica.Applier

/-! # Handlers: the operations of one dispatch

A handler is a program over the operations its context and collector offer: reads through the
working transaction, emitted entries, minted names and identities, the clock, expression
evaluation and the machine cache. An emitted event is folded into the working transaction at
once, so a later read of the same dispatch sees it.
-/

namespace Spica

/-- Why a dispatch produced no outcome: a refusal of the command, a fault of the engine's own
    machinery, or a panic. -/
inductive Abort where
  | rejected (type : RejectionType) (reason : String)
  | unexpected (e : ExecutionError)
  | panicked (msg : String)
  deriving DecidableEq

/-- `?` on a storage read: an engine fault. -/
def storageFault (e : StorageError) : Abort := .unexpected (.ofStorage e)

/-- What the source takes from its platform and libraries, fixed for the whole process. -/
structure Env where
  /-- debug assertions and overflow checks are compiled in -/
  debug : Bool
  /-- `serde_json::from_str::<StateMachine>` -/
  parse : String → Except String StateMachine
  /-- the CRC of a definition -/
  checksum : String → Nat
  /-- `backoff_for_attempt`, computed in doubles -/
  backoff : RetryPolicy → Nat → Nat
  /-- `Timestamp::from_rfc3339` -/
  parseTimestamp : String → Option Timestamp
  /-- a number's `as_f64` cast to an integer, when that double is finite and whole -/
  wholeOf : Number → Option Int
  /-- the `{:?}` rendering of a lease holder -/
  showWorker : Option String → String
  /-- the `{:?}` rendering of a status -/
  showStatus : Status → String
  /-- the `{:?}` rendering of a state path -/
  showPath : StatePath → String
  /-- the `{}` rendering of an identity -/
  showUlid : Ulid → String

/-- The operations of a dispatch. `ask` passes a failed read on, turned into an abort; `peek`
    hands it to the caller. -/
inductive Op where
  | ask (q : Query) (onFault : StorageError → Abort)
  | peek (q : Query)
  | appendEvent (e : Event)
  | appendCommand (c : Command)
  | reject (r : Reject)
  | nextGeneratedSeq
  | mint
  | now
  | env
  | evalJsonata (expr : String) (states : Json) (vars : Variables)
  | cached (version : ObjectRef .flowVersion)
  | cache (version : ObjectRef .flowVersion) (machine : StateMachine)

@[reducible] def Op.Ret : Op → Type
  | .ask q _ => q.Ret
  | .peek q => Except StorageError q.Ret
  | .appendEvent _ | .appendCommand _ | .reject _ | .cache _ _ => Unit
  | .nextGeneratedSeq => Nat
  | .mint => Ulid
  | .now => Timestamp
  | .env => Env
  | .evalJsonata _ _ _ => Except String Json
  | .cached _ => Option StateMachine

abbrev Handler (α : Type) : Type := Prog Op Op.Ret Abort α

/-! ## Interpretation -/

abbrev MachineCache : Type := Table (ObjectRef .flowVersion) StateMachine

/-- Everything a dispatch takes from outside. Clock readings, identities and evaluations are
    numbered from 0 within the dispatch. -/
structure Ctx extends Backend where
  env : Env
  /-- position of the command being dispatched -/
  cause : Nat
  clock : Nat → Timestamp
  ids : Nat → Ulid
  jsonata : Nat → String → Json → Variables → Except String Json

def Ctx.withoutFaults (c : Ctx) : Ctx := { c with toBackend := c.toBackend.withoutFaults }

/-- The state of a dispatch. -/
structure Work where
  txn : TxnState
  out : List Entry
  ticks : Nat
  minted : Nat
  evals : Nat
  machines : MachineCache

/-- A dispatch starts from the committed rows and the leader's cache, with nothing emitted. -/
def Work.start (rows : Projection) (machines : MachineCache) : Work where
  txn := ⟨rows, 0⟩
  out := []
  ticks := 0
  minted := 0
  evals := 0
  machines := machines

/-- `mint_generated_seq`: a failed counter read counts from 0, a failed advance is ignored. -/
def mintGeneratedSeq : Txn Nat := do
  let n : Nat := match (← Txn.peek .nextGeneratedSeq : Except StorageError Nat) with
    | .ok n => n
    | .error _ => 0
  let _ ← Txn.tryPut (.nextGeneratedSeq (n + 1))
  pure n

theorem mintGeneratedSeq_run (b : Backend) (s : TxnState) :
    mintGeneratedSeq.run Txn.interpret b s =
      let n := match b.fault s.calls with
        | some _ => 0
        | none => s.rows.nextGeneratedSeq
      (.ok n, ⟨match b.fault (s.calls + 1) with
        | some _ => s.rows
        | none => s.rows.putNextGeneratedSeq (n + 1), s.calls + 2⟩) := by
  unfold mintGeneratedSeq
  rw [Prog.run_bind, Eff.bind_of_ok (Txn.run_peek _ _ _)]
  dsimp only
  rw [Prog.run_bind]
  have tried := Txn.run_tryPut (.nextGeneratedSeq ((match b.fault s.calls with
    | some _ => 0
    | none => s.rows.nextGeneratedSeq) + 1)) b { s with calls := s.calls + 1 }
  cases first : b.fault s.calls <;> cases second : b.fault (s.calls + 1) <;>
    simp only [first, second] at tried <;> exact Eff.bind_of_ok tried

namespace Handler

/-- How a dispatch aborts when a part of its working transaction does. -/
def ofTxn (onFault : StorageError → Abort) : TxnAbort → Abort
  | .storage e => onFault e
  | .panicked msg => .panicked msg

/-- Run a part of the working transaction. -/
def onTxn {α : Type} (onFault : StorageError → Abort) (m : Txn α) : Eff Ctx Abort Work α :=
  fun c w =>
    let (result, txn) := m.run Txn.interpret c.toBackend w.txn
    (result.mapError (ofTxn onFault), { w with txn := txn })

def tick : Eff Ctx Abort Work Timestamp := fun c w =>
  (.ok (c.clock w.ticks), { w with ticks := w.ticks + 1 })

/-- Push one entry, caused by the command. -/
def push (ts : Timestamp) (payload : EntryPayload) : Eff Ctx Abort Work Unit :=
  Eff.change fun c w => { w with out := w.out ++ [⟨some c.cause, ts, payload⟩] }

/-- Fold an event into the working transaction. A failed call leaves it half folded, unnoticed. -/
def project (ts : Timestamp) (e : Event) : Eff Ctx Abort Work Unit := fun c w =>
  let (result, txn) := (dispatchEvent ts e).run Txn.interpret c.toBackend w.txn
  let w' := { w with txn := txn }
  match result with
  | .error (.panicked msg) => (.error (.panicked msg), w')
  | .error (.storage _) | .ok () => (.ok (), w')

/-- Stamp the entry, fold the event with that stamp, then push. -/
def appendEvent (e : Event) : Eff Ctx Abort Work Unit := do
  let ts ← tick
  project ts e
  push ts (.event e)

/-- What an emitted event does, in one step. -/
theorem appendEvent_run (e : Event) (c : Ctx) (w : Work) :
    appendEvent e c w =
      match (dispatchEvent (c.clock w.ticks) e).run Txn.interpret c.toBackend w.txn with
      | (.error (.panicked msg), txn) =>
        (.error (.panicked msg), { w with ticks := w.ticks + 1, txn := txn })
      | (.error (.storage _), txn) | (.ok (), txn) =>
        (.ok (), { w with
          ticks := w.ticks + 1
          txn := txn
          out := w.out ++ [⟨some c.cause, c.clock w.ticks, .event e⟩] }) := by
  show Eff.bind tick (fun ts => Eff.bind (project ts e) fun _ => push ts (.event e)) c w = _
  simp only [Eff.bind, tick, project]
  rcases (dispatchEvent (c.clock w.ticks) e).run Txn.interpret c.toBackend w.txn
    with ⟨(_ | _) | _, txn⟩ <;> rfl

def pushNow (payload : EntryPayload) : Eff Ctx Abort Work Unit := do
  let ts ← tick
  push ts payload

def interpret : (o : Op) → Eff Ctx Abort Work o.Ret
  | .ask q onFault => onTxn onFault (Txn.ask q)
  | .peek q => onTxn storageFault (Txn.peek q)
  | .appendEvent e => appendEvent e
  | .appendCommand c => pushNow (.command c)
  | .reject r => pushNow (.reject r)
  | .nextGeneratedSeq => onTxn storageFault mintGeneratedSeq
  | .mint => fun c w => (.ok (c.ids w.minted), { w with minted := w.minted + 1 })
  | .now => tick
  | .env => Eff.gets fun c _ => c.env
  | .evalJsonata expr states vars => fun c w =>
    (.ok (c.jsonata w.evals expr states vars), { w with evals := w.evals + 1 })
  | .cached version => Eff.gets fun _ w => w.machines.lookup version
  | .cache version machine =>
    Eff.change fun _ w => { w with machines := w.machines.insert version machine }

end Handler

/-! ## The vocabulary of the handlers -/

def getExecution (r : ObjectRef .execution) : Handler (Option Execution) :=
  Prog.perform (Op.ask (.execution r) storageFault)

def getThread (r : ObjectRef .thread) : Handler (Option Thread) :=
  Prog.perform (Op.ask (.thread r) storageFault)

def getVariables (r : ObjectRef .thread) : Handler Variables :=
  Prog.perform (Op.ask (.vars r) storageFault)

def getActivity (r : ObjectRef .activity) : Handler (Option Activity) :=
  Prog.perform (Op.ask (.activity r) storageFault)

def getTask (r : ObjectRef .task) : Handler (Option Task) :=
  Prog.perform (Op.ask (.task r) storageFault)

def getChildren (r : RawObjectRef) : Handler (List RawObjectRef) :=
  Prog.perform (Op.ask (.children r) storageFault)

def activatableTasks (resource : String) (now : Timestamp) (limit : Nat) : Handler (List Task) :=
  Prog.perform (Op.ask (.activatableTasks resource now limit) storageFault)

/-! Reads whose failure the source treats like an absent row. -/

def peekExecution (r : ObjectRef .execution) : Handler (Except StorageError (Option Execution)) :=
  Prog.perform (Op.peek (.execution r))

def peekThread (r : ObjectRef .thread) : Handler (Except StorageError (Option Thread)) :=
  Prog.perform (Op.peek (.thread r))

def peekVariables (r : ObjectRef .thread) : Handler (Except StorageError Variables) :=
  Prog.perform (Op.peek (.vars r))

def peekActivity (r : ObjectRef .activity) : Handler (Except StorageError (Option Activity)) :=
  Prog.perform (Op.peek (.activity r))

def peekChildren (r : RawObjectRef) : Handler (Except StorageError (List RawObjectRef)) :=
  Prog.perform (Op.peek (.children r))

def peekFlowByName (name : FlowName) : Handler (Except StorageError (Option Flow)) :=
  Prog.perform (Op.peek (.flowByName name))

def appendEvent (e : Event) : Handler Unit := Prog.perform (Op.appendEvent e)
def appendCommand (c : Command) : Handler Unit := Prog.perform (Op.appendCommand c)
def emitReject (r : Reject) : Handler Unit := Prog.perform (Op.reject r)
def nextGeneratedSeq : Handler Nat := Prog.perform Op.nextGeneratedSeq
def mint : Handler Ulid := Prog.perform Op.mint
def now : Handler Timestamp := Prog.perform Op.now
def platform : Handler Env := Prog.perform Op.env

def rejected {α : Type} (type : RejectionType) (reason : String) : Handler α :=
  .fail (.rejected type reason)

def panicked {α : Type} (msg : String) : Handler α := .fail (.panicked msg)

/-- `debug_assert!` around an update of a local value: compiled in, it takes the updated value
    or panics; compiled out, the update is never made. -/
def debugAssert {α : Type} (old : α) (update : Handler (Except String α)) (msg : String) :
    Handler α := do
  if (← platform).debug then
    match ← update with
    | .ok new => pure new
    | .error _ => panicked msg
  else pure old

/-- `machine`, with the abort a failed read of the version turns into. -/
def machineOr (onFault : StorageError → Abort) (version : ObjectRef .flowVersion) :
    Handler (Except ExecutionError StateMachine) := do
  match (← Prog.perform (Op.cached version) : Option StateMachine) with
  | some m => pure (.ok m)
  | none =>
    match (← Prog.perform (Op.ask (.flowVersion version) onFault) : Option FlowVersion) with
    | none => pure (.error (.runtime (.invalidDefinition
        s!"flow version {version} not found in storage")))
    | some ver =>
      match (← platform).parse ver.definition with
      | .error e => pure (.error (.runtime (.invalidDefinition
          s!"stored flow definition for {version} is not parseable: {e}")))
      | .ok machine =>
        (Prog.perform (Op.cache version machine) : Handler Unit)
        pure (.ok machine)

/-- `resolve_thread_flow_version` and `machine_for_thread`, whose callers all treat a failed
    read as an engine fault. -/
def machineForThread (thread : Thread) : Handler (Except ExecutionError StateMachine) := do
  match ← getExecution thread.execution with
  | none => pure (.error (.runtime (.invalidDefinition
      s!"thread {thread.objectRef} lost its owning execution {thread.execution}")))
  | some exec => machineOr storageFault exec.flowVersion

end Spica
