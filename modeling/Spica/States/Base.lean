import Spica.Elements.Container

/-! # The state handler template

What every state kind shares: the activate, complete and terminate steps, and the assignment
and output projections. A state kind fills in the hooks.
-/

namespace Spica

/-- Whether a failure was routed to a `Catch`. -/
inductive FailureRouting where
  | caught
  | uncaught
  deriving DecidableEq

/-- The hooks of one state kind, with the defaults of the source's trait. -/
structure StateHandler where
  initialActivity : Activity → Activity := id
  /-- The effective input, with the activity as the hook leaves it. -/
  processInput : Activity → Variables → Json → Timestamp →
      Handler (Except ExecutionError (Json × Activity)) :=
    fun act _ _ _ => pure (.ok (act.rawInput, act))
  afterActivated : Activity → Variables → Json → Handler (Except ExecutionError Unit) :=
    fun _ _ _ => pure (.ok ())
  completeDirectly : Bool := true
  childCompleted : ObjectRef .activity → Activity → RawObjectRef → Handler Unit :=
    fun _ _ _ => pure ()
  afterCompleting : Activity → Variables → Handler Unit
  afterTerminating : Activity → Handler Unit
  onFailed : Activity → ExecutionError → Handler FailureRouting := fun _ _ => pure .uncaught

def evalStringOrExpr (s : String) (states : Json) (vars : Variables) :
    Handler (Except ExecutionError Json) :=
  match extractJsonata s with
  | .expr inner => evalExpr inner states vars
  | .literal => pure (.ok (.string s))
  | .panics => panicked "slice index starts at 2 but ends at 1"

/-- `TerminateState` with the error a state ran into. -/
def failState (activity : ObjectRef .activity) (error : ExecutionError) : Handler Unit :=
  appendCommand (.terminateState ⟨activity, .failed error⟩)

/-- `apply_assign`: evaluate, bind, and announce the whole scope. Returns the new scope. -/
def applyAssign (owner : ObjectRef .thread) (assign : Option AssignObject) (states : Json)
    (scope : Variables) : Handler (Except ExecutionError Variables) := do
  match assign with
  | none => pure (.ok scope)
  | some assign =>
    match ← evalJson (.object assign.fields) states scope with
    | .error e => pure (.error e)
    | .ok (.object fields) =>
      if fields.isEmpty then pure (.ok scope)
      else
        let scope' := scope.bindAll fields
        appendEvent (.variablesAssigned owner scope')
        pure (.ok scope')
    | .ok _ => pure (.error (.runtime (.invalidDefinition "Assign must evaluate to a JSON object")))

def projectOutput (output : Option Json) (states : Json) (scope : Variables) (fallback : Json) :
    Handler (Except ExecutionError Json) :=
  match output with
  | some output => evalJson output states scope
  | none => pure (.ok fallback)

/-- The `$states` a finishing activity is evaluated under. -/
def finishStates (act : Activity) (result : Option Json) : States where
  input := act.rawInput
  stateName := act.statePath.stateName
  retryCount := act.retryCount
  result := result
  assignCtx := some act.rawInput

namespace StateHandler

/-- The activity an `ActivateState` gives birth to. -/
def newActivity (cmd : ActivateState) (uid : Ulid) (seq : Nat) (at_ : Timestamp) : Activity where
  metadata := .build uid (cmd.execution.name.base.generatedFromKey seq) at_ cmd.owner
  execution := cmd.execution
  statePath := cmd.statePath
  status := .running
  rawInput := cmd.input
  input := none
  rawOutput := none
  activityState := none
  retryState := none
  output := none

def activate (h : StateHandler) (cmd : ActivateState) (thread : Thread) : Handler Unit := do
  let uid ← mint
  let seq ← nextGeneratedSeq
  let created := newActivity cmd uid seq (← now)
  let activity := created.objectRef
  let vars ← getVariables thread.objectRef
  let act := h.initialActivity created
  appendEvent (.stateActivating act)
  let states := States.build
    { input := act.rawInput, stateName := created.statePath.stateName, retryCount := act.retryCount }
  match ← h.processInput act vars states (← now) with
  | .error e => failState activity e
  | .ok (input, act) =>
    let act := { act with
      input := some input
      metadata := act.metadata.withUpdateAt (← now) }
    appendEvent (.stateActivated act)
    match ← h.afterActivated act vars states with
    | .error e => failState activity e
    | .ok () =>
      if h.completeDirectly then appendCommand (.completeState ⟨activity, input⟩)

def complete (h : StateHandler) (cmd : CompleteState) (act : Activity) (thread : Thread) :
    Handler Unit := do
  match act.markCompleting cmd.output (← now) with
  | .error reason =>
    rejected .invalidState
      s!"complete_state: activity {act.objectRef} cannot begin completing: {reason}"
  | .ok completing =>
    appendEvent (.stateCompleting completing)
    let vars ← getVariables thread.objectRef
    h.afterCompleting completing vars

/-- The part of `terminate` after the failure was offered to the state's own routing. -/
def beginTerminating (h : StateHandler) (cmd : TerminateState) (act : Activity) (thread : Thread) :
    Handler Unit := do
  match act.markTerminating cmd.reason (← now) with
  | .error e =>
    rejected .invalidState
      s!"terminate_state: activity {act.objectRef} cannot begin terminating: {e}"
  | .ok terminating =>
    appendEvent (.stateTerminating terminating)
    let _ ← getVariables thread.objectRef
    h.afterTerminating terminating

def terminate (h : StateHandler) (cmd : TerminateState) (act : Activity) (thread : Thread) :
    Handler Unit := do
  match cmd.reason with
  | .failed error =>
    match ← h.onFailed act error with
    | .caught => pure ()
    | .uncaught => h.beginTerminating cmd act thread
  | _ => h.beginTerminating cmd act thread

end StateHandler

/-! ## Closing an activity

The transitions below stand inside `debug_assert!` in the source: compiled out, the event
carries the value as it was before. -/

/-- Close a completing activity with its output. -/
def closeCompleted (act : Activity) (output : Json) : Handler Unit := do
  let completed ← debugAssert act (do pure (act.markCompleted output (← now)))
    "the complete step that dispatched this after_completing opened the activity as Completing"
  appendEvent (.stateCompleted completed)

/-- Close a terminating activity and relay to its thread, which must have been opened. -/
def closeTerminated (act : Activity) : Handler Unit := do
  let terminated ← debugAssert act (do pure (act.markTerminated (← now)))
    "the terminate step that dispatched this after_terminating opened the activity as Terminating"
  appendEvent (.stateTerminated terminated)
  ThreadElement.afterChildTerminated act.metadata.owner terminated.objectRef.raw

/-- `after_terminating` of a state that owns no children. -/
def terminateLeaf (act : Activity) : Handler Unit := do
  ThreadElement.open_ act.metadata.owner
  closeTerminated act

/-- Fail an activity that is still completing: it opens and closes its termination at once. -/
def failCompleting (act : Activity) (reason : TerminationReason) : Handler Unit := do
  ThreadElement.open_ act.metadata.owner
  let terminating ← debugAssert act (do pure (act.markTerminating reason (← now)))
    "the complete that dispatched this after_completing opened the activity as Completing"
  appendEvent (.stateTerminating terminating)
  closeTerminated terminating

/-- Hand an output on to a successor state. -/
def transitionTo (act : Activity) (next : StatePath) (output : Json) : Handler Unit := do
  appendEvent (.stateTransitioned act.objectRef next)
  appendCommand (.activateState ⟨act.execution, act.metadata.owner, next, output⟩)

/-- Where a finished state goes. -/
inductive Finish where
  | next (path : StatePath) (output : Json)
  | end_ (output : Json)
  | noTerminal

/-- `process_pass`, `process_wait` and `process_task`: the three states finish alike. -/
def processFinish (assign : Option AssignObject) (output : Option Json) (next : Option String)
    (end_ : Option Bool) (act : Activity) (vars : Variables) :
    Handler (Except ExecutionError Finish) := do
  let result := act.rawOutput.getD act.rawInput
  let states := (finishStates act (some result)).build
  match ← applyAssign act.metadata.owner assign states vars with
  | .error e => pure (.error e)
  | .ok scope =>
    match ← projectOutput output states scope result with
    | .error e => pure (.error e)
    | .ok out =>
      if end_ = some true then pure (.ok (.end_ out))
      else
        match next with
        | some next => pure (.ok (.next (act.statePath.sibling next) out))
        | none => pure (.ok .noTerminal)

/-- `after_completing` of a Pass, Wait or Task state. -/
def finishCompleting (assign : Option AssignObject) (output : Option Json) (next : Option String)
    (end_ : Option Bool) (act : Activity) (vars : Variables) : Handler Unit := do
  match ← processFinish assign output next end_ act vars with
  | .error e => failState act.objectRef e
  | .ok (.next path out) =>
    closeCompleted act out
    transitionTo act path out
  | .ok (.end_ out) =>
    closeCompleted act out
    appendCommand (.completeThread ⟨act.metadata.owner, out⟩)
  | .ok .noTerminal => failCompleting act (.failed (.runtime .noTerminal))

end Spica
