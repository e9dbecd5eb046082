import Spica.States.Base

/-! # The Task state -/

namespace Spica

def taskProcessInput (s : TaskState) (act : Activity) (vars : Variables) (states : Json)
    (_ : Timestamp) : Handler (Except ExecutionError (Json × Activity)) := do
  match s.arguments with
  | none => pure (.ok (act.rawInput, act))
  | some arguments =>
    match ← evalJson arguments states vars with
    | .error e => pure (.error e)
    | .ok v => pure (.ok (v, act))

/-- The timeout in seconds, when it is a positive whole number. -/
def timeoutSeconds (timeout : IntOrExpr) (vars : Variables) (states : Json) :
    Handler (Except ExecutionError (Option Int)) := do
  match timeout with
  | .int n => pure (.ok (if 0 < n then some n else none))
  | .expr e =>
    match ← evalStringOrExpr e.text states vars with
    | .error e => pure (.error e)
    | .ok (.number n) => pure (.ok (((← platform).wholeOf n).filter (0 < ·)))
    | .ok _ => pure (.ok none)

def resolveTaskDeadline (timeout : Option IntOrExpr) (vars : Variables) (states : Json)
    (at_ : Timestamp) : Handler (Except ExecutionError (Option Timestamp)) := do
  match timeout with
  | none => pure (.ok none)
  | some timeout =>
    match ← timeoutSeconds timeout vars states with
    | .error e => pure (.error e)
    | .ok none => pure (.error (.runtime (.invalidDefinition
        "Task TimeoutSeconds must be a positive integer")))
    | .ok (some n) =>
      match at_.checkedAdd n.toNat with
      | some t => pure (.ok (some t))
      | none => pure (.error (.runtime (.invalidDefinition
          "Task TimeoutSeconds overflows the absolute deadline")))

/-- The call is announced even when its timeout does not resolve; the error follows it. -/
def taskAfterActivated (s : TaskState) (act : Activity) (vars : Variables) (states : Json) :
    Handler (Except ExecutionError Unit) := do
  let resolved ← resolveTaskDeadline s.timeoutSeconds vars states (← now)
  let uid ← mint
  let seq ← nextGeneratedSeq
  appendCommand (.activateTask
    { execution := act.execution
      owner := act.objectRef
      task := ⟨act.execution.name.base.generatedFromKey seq, uid⟩
      resource := s.resource
      arguments := act.input.getD .null
      retryPlan := (s.retry.getD []).map RetryPolicy.resolve
      deadline := resolved.toOption.join })
  pure (resolved.map fun _ => ())

def taskChildCompleted (activity : ObjectRef .activity) (act : Activity) (child : RawObjectRef) :
    Handler Unit :=
  if child.kind ≠ .task then pure ()
  else appendCommand (.completeState ⟨activity, act.rawOutput.getD .null⟩)

def cancelTasks (tasks : List RawObjectRef) : Handler Unit :=
  Prog.each (fun task => appendCommand (.cancelTask (task.typed .task))) tasks

/-- The Tasks among the children; a failed read hides them. -/
def taskChildren (read : Except StorageError (List RawObjectRef)) : List RawObjectRef :=
  match read with
  | .ok children => children.filter fun child => child.kind = .task
  | .error _ => []

def taskAfterTerminating (act : Activity) : Handler Unit := do
  let pending := taskChildren (← peekChildren act.objectRef.raw)
  cancelTasks pending
  if pending.isEmpty then
    ThreadElement.open_ act.metadata.owner
    closeTerminated act

/-! ## Catch -/

/-- What a caught failure writes and hands on. -/
def catchOutcome (catcher : Catcher) (owner : ObjectRef .thread) (states : Json)
    (scope : Variables) (rawResult : Json) : Handler (Except ExecutionError Json) := do
  match ← applyAssign owner catcher.assign states scope with
  | .error e => pure (.error e)
  | .ok scope => projectOutput catcher.output states scope rawResult

/-- The activity as a `Catch` completes it, whatever its phase was. -/
def caughtActivity (act : Activity) (output : Json) (at_ : Timestamp) : Activity :=
  { act with
    metadata := act.metadata.withUpdateAt at_
    status := .completed
    output := some output
    rawOutput := some (act.rawOutput.getD act.rawInput) }

/-- The `$states` a catcher is evaluated under. -/
def catchStates (act : Activity) (error : ExecutionError) : Json :=
  States.build { finishStates act (some (act.rawOutput.getD act.rawInput)) with
    errorOutput := some (error.errorOutput.getD .null) }

/-- The catcher takes the failure, unless the thread is gone. -/
def catchWith (catcher : Catcher) (act : Activity) (error : ExecutionError) :
    Handler FailureRouting := do
  let owner := act.metadata.owner
  match ← peekThread owner with
  | .ok (some _) =>
    let scope := (← peekVariables owner).toOption.getD ∅
    match ← catchOutcome catcher owner (catchStates act error) scope
        (act.rawOutput.getD act.rawInput) with
    | .error e =>
      failState act.objectRef e
      pure .caught
    | .ok output =>
      cancelTasks (taskChildren (← peekChildren act.objectRef.raw))
      appendEvent (.stateCompleted (caughtActivity act output (← now)))
      transitionTo act (act.statePath.sibling catcher.next) output
      pure .caught
  | _ => pure .uncaught

/-- `on_failed`: the first catcher that matches is the one asked. -/
def taskOnFailed (s : TaskState) (act : Activity) (error : ExecutionError) :
    Handler FailureRouting :=
  match (s.catch_.getD []).find? fun c => error.matchesErrorNames c.errorEquals with
  | none => pure .uncaught
  | some catcher => catchWith catcher act error

def taskHandler (s : TaskState) : StateHandler where
  processInput := taskProcessInput s
  afterActivated := taskAfterActivated s
  completeDirectly := false
  childCompleted := taskChildCompleted
  afterCompleting := finishCompleting s.assign s.output s.next s.end_
  afterTerminating := taskAfterTerminating
  onFailed := taskOnFailed s

end Spica
