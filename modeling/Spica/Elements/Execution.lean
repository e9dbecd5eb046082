import Spica.Elements.Container

/-! # Executions and flows: create, complete, terminate, deadlines and deferred closes -/

namespace Spica

namespace FlowElement

def create (p : CreateFlow) : Handler Unit := do
  let env ← platform
  match env.parse p.definition with
  | .error _ =>
    rejected .invalidArgument s!"create_flow: malformed definition for flow {p.name}"
  | .ok _ =>
    -- a failed read counts as an unused name
    match ← peekFlowByName p.name with
    | .ok (some _) =>
      emitReject ⟨p.requestId, .alreadyExists, s!"create_flow: flow {p.name} already exists"⟩
    | _ =>
      let flowUid ← mint
      let versionUid ← mint
      let createdAt ← now
      appendEvent (.flowCreated p.requestId (.new flowUid p.name createdAt))
      appendEvent (.flowVersionCreated p.requestId
        (.new versionUid ⟨.plain p.name, flowUid⟩ p.name 1 p.definition
          (env.checksum p.definition) createdAt))

end FlowElement

namespace ExecutionElement

def onDeadlineFired (execution : ObjectRef .execution) (deadline : Timestamp) : Handler Unit := do
  match ← getExecution execution with
  | none =>
    rejected .invalidState
      s!"execution_element: execution {execution} is gone from under its deadline"
  | some exec =>
    match exec.status with
    | .running =>
      appendCommand (.terminateExecution ⟨execution.name, some execution.uid,
        .failed (.runtime (.timedOut
          s!"execution ran past its TimeoutSeconds deadline ({deadline.millis})"))⟩)
    | .completing => appendCommand (.continueComplete execution.raw)
    | .terminating _ => appendCommand (.continueTerminate execution.raw)
    | status =>
      rejected .invalidState
        s!"execution_element: execution {execution} fired a deadline while {status.phase}"

/-- `TerminateThread` for every child, all of which are threads. -/
def sweep (regression : RawObjectRef → String) (children : List RawObjectRef) : Handler Unit :=
  Prog.each (fun child =>
      match child.kind with
      | .thread => appendCommand (.terminateThread ⟨child.typed .thread, .cancelled⟩)
      | _ => panicked (regression child))
    children

/-- The incarnation a termination asked for must be the live one. -/
def requireUid (name : ObjectName) (uid : Option Ulid) (exec : Execution) : Handler Unit :=
  match uid with
  | none => pure ()
  | some want =>
    if want = exec.metadata.uid then pure ()
    else do
      let shown := (← platform).showUlid
      rejected .invalidState
        (s!"terminate_execution: execution {name} is incarnation {shown exec.metadata.uid}, not " ++
          s!"{shown want}")

def terminate (p : TerminateExecution) : Handler Unit := do
  match ← getExecution ⟨p.name, p.uid.getD .nil⟩ with
  | none => rejected .notFound s!"terminate_execution: execution {p.name} not found"
  | some exec =>
    requireUid p.name p.uid exec
    match exec.markTerminating p.reason (← now) with
    | .error why =>
      rejected .invalidState
        s!"terminate_execution: execution {p.name} cannot be terminated: {why}"
    | .ok terminating =>
      appendEvent (.executionTerminating terminating)
      let children ← getChildren exec.objectRef.raw
      if children.isEmpty then
        match terminating.markTerminated (← now) with
        | .ok terminated => appendEvent (.executionTerminated terminated)
        | .error _ =>
          panicked "engine regression: the run was just set Terminating, so its terminal lands"
      else
        sweep (fun child => s!"engine regression: an Execution owns no {child.kind} child")
          children

def complete (p : CompleteExecution) : Handler Unit := do
  match ← getExecution p.execution with
  | none => rejected .notFound s!"complete_execution: execution {p.execution} not found"
  | some exec =>
    match exec.markCompleting p.output (← now) with
    | .error why =>
      rejected .invalidState
        s!"complete_execution: execution {p.execution} cannot be completed: {why}"
    | .ok completing =>
      appendEvent (.executionCompleting completing)
      match ← getChildren exec.objectRef.raw with
      | [] =>
        let completed ← debugAssert completing
          (do pure (completing.markCompleted (← now)))
          "the finish this step just began is Completing"
        appendEvent (.executionCompleted completed)
      | child :: _ =>
        rejected .invalidState
          (s!"complete_execution: execution {p.execution} still owns a live {child.kind} " ++
            s!"child {child}; completion refused")

def continueTerminate (node : ObjectRef .execution) : Handler Unit := do
  match ← getExecution node with
  | none => rejected .notFound s!"continue_terminate: execution {node} not found"
  | some exec =>
    if !exec.status.isTerminating then
      rejected .invalidState
        (s!"continue_terminate: execution {node} is not terminating (status " ++
          s!"{(← platform).showStatus exec.status})")
    else
      let children ← getChildren exec.objectRef.raw
      if !children.isEmpty then
        sweep (fun child => (s!"continue_terminate: execution {node} owns a live {child.kind} " ++
          s!"child {child}; a run's only child is its root Thread"))
          children
      else
        match exec.markTerminated (← now) with
        | .error why =>
          rejected .invalidState
            s!"continue_terminate: execution {node} cannot be terminated: {why}"
        | .ok terminated => appendEvent (.executionTerminated terminated)

def continueComplete (node : ObjectRef .execution) : Handler Unit := do
  match ← getExecution node with
  | none => rejected .notFound s!"continue_complete: execution {node} not found"
  | some exec =>
    if !exec.status.isCompleting then
      rejected .invalidState
        (s!"continue_complete: execution {node} is not completing (status " ++
          s!"{(← platform).showStatus exec.status})")
    else
      match ← getChildren exec.objectRef.raw with
      | child :: _ =>
        panicked (s!"continue_complete: execution {node} owns a live {child.kind} child " ++
          s!"{child}; a completing run owns nothing")
      | [] =>
        match exec.markCompleted (← now) with
        | .error why =>
          rejected .invalidState
            s!"continue_complete: execution {node} cannot be completed: {why}"
        | .ok completed => appendEvent (.executionCompleted completed)

/-- The deadline of a run, `none` for a machine without a timeout. -/
def runDeadline (timeout : Option Int) : Handler (Option Timestamp) := do
  match timeout with
  | none => pure none
  | some secs => pure ((← now).checkedAdd secs.toNat)

def createdExecution (p : CreateExecution) (uid : Ulid) (deadline : Option Timestamp)
    (at_ : Timestamp) : Execution where
  metadata := .build uid p.name at_ ()
  flowVersion := p.flowVersion
  status := .running
  deadline := deadline
  input := p.input
  output := none

/-- The root thread of a new run. -/
def rootThread (p : CreateExecution) (execution : ObjectRef .execution) (startAt : String)
    (uid : Ulid) (seq : Nat) (at_ : Timestamp) : Thread where
  metadata := .build uid (p.name.base.generatedFromKey seq) at_ (.execution execution)
  execution := execution
  statePath := .root
  startAt := startAt
  index := 0
  status := .running
  input := p.input
  output := none

def create (p : CreateExecution) : Handler Unit := do
  -- a failed read counts as an unused name
  match ← peekExecution ⟨p.name, .nil⟩ with
  | .ok (some _) =>
    rejected .alreadyExists s!"create_execution: execution {p.name} already exists"
  | _ =>
    let uid ← mint
    let id : ObjectRef .execution := ⟨p.name, uid⟩
    let unresolved : String → Abort := fun e => .rejected .invalidArgument
      (s!"create_execution: flow version {p.flowVersion} cannot be resolved for execution " ++
        s!"{p.name}: {e}")
    match ← machineOr (fun e => unresolved (ExecutionError.ofStorage e).display) p.flowVersion with
    | .error e => .fail (unresolved e.display)
    | .ok machine =>
      let timeout := machine.timeoutSeconds.filter (0 < ·)
      let deadline ← runDeadline timeout
      if timeout.isSome && deadline.isNone then
        rejected .invalidArgument
          (s!"create_execution: execution {p.name} cannot start: TimeoutSeconds overflows the " ++
            "absolute deadline")
      else
        appendEvent (.executionCreated p.requestId (createdExecution p uid deadline (← now)))
        let rootUid ← mint
        let seq ← nextGeneratedSeq
        let root := rootThread p id machine.startAt rootUid seq (← now)
        appendEvent (.threadCreated root)
        appendCommand (.activateState
          ⟨id, root.objectRef, StatePath.root.state machine.startAt, p.input⟩)

end ExecutionElement

end Spica
