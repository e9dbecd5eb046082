import Spica.Elements.Thread
import Spica.Elements.Execution
import Spica.Elements.Task

/-! # Command dispatch -/

namespace Spica

/-- `ActivateStateHandler`: a state is entered only on a running thread. -/
def handleActivateState (p : ActivateState) : Handler Unit := do
  match ← getThread p.owner with
  | none =>
    rejected .notFound
      s!"activate_state: owning thread {p.owner} of execution {p.execution} does not exist"
  | some thread =>
    if !thread.status.isRunning then
      rejected .invalidState
        s!"activate_state: thread {p.owner} is already {thread.status.phase}; activation refused"
    else
      let path := (← platform).showPath p.statePath
      let def_ ← stateOfThread "activate_state" s!"thread {p.owner}" thread p.statePath
        (ActivityElement.undefinedState "activate_state" path p.owner)
      (handlerFor def_).activate p thread

/-- The message of a state that an activity names and its machine does not define. -/
def namesUndefinedState (label : String) (activity : ObjectRef .activity) (path e : String) :
    String :=
  s!"{label}: activity {activity} names state {path} which its machine does not define: {e}"

/-- `CompleteStateHandler`: only a running activity of a running thread completes. -/
def handleCompleteState (p : CompleteState) : Handler Unit := do
  match ← getActivity p.activity with
  | none => rejected .notFound s!"complete_state: activity {p.activity} not found"
  | some act =>
    let owner := act.metadata.owner
    match ← getThread owner with
    | none =>
      rejected .notFound
        s!"complete_state: owning thread {owner} of activity {p.activity} not found"
    | some thread =>
      let path := (← platform).showPath act.statePath
      let def_ ← stateOfThread "complete_state" s!"activity {p.activity}" thread act.statePath
        (namesUndefinedState "complete_state" p.activity path)
      if !act.status.isRunning then
        rejected .invalidState
          s!"activity {p.activity} is {act.status.phase}, not Running; cannot complete"
      else if !thread.status.isRunning then
        rejected .invalidState
          s!"complete_state: thread {owner} is already {thread.status.phase}; completion refused"
      else
        (handlerFor def_).complete p act thread

def resolveAndTerminate (p : TerminateState) (act : Activity) : Handler Unit := do
  let owner := act.metadata.owner
  match ← getThread owner with
  | none =>
    rejected .notFound
      s!"terminate_state: owning thread {owner} of activity {act.objectRef} not found"
  | some thread =>
    let path := (← platform).showPath act.statePath
    let def_ ← stateOfThread "terminate_state" s!"activity {act.objectRef}" thread act.statePath
      (namesUndefinedState "terminate_state" act.objectRef path)
    (handlerFor def_).terminate p act thread

def terminateRefused (act : Activity) (phase : String) : Handler Unit :=
  rejected .invalidState
    (s!"terminate_state: activity {act.objectRef} is {phase}; termination refused — the drain " ++
      "owns its terminal")

/-- `TerminateStateHandler`: only a running or completing activity begins to terminate. -/
def handleTerminateState (p : TerminateState) : Handler Unit := do
  match ← getActivity p.activity with
  | none =>
    rejected .notFound
      s!"terminate_state: activity {p.activity} does not exist; termination refused"
  | some act =>
    match act.status with
    | .running | .completing => resolveAndTerminate p act
    | .terminating _ => terminateRefused act "terminating"
    | .terminated _ => terminateRefused act "terminated"
    | .completed => terminateRefused act "completed"

def fireDeadline (target : DeadlineTarget) (deadline : Timestamp) : Handler Unit := do
  match target with
  | .execution r =>
    ExecutionElement.open_ r
    ExecutionElement.onDeadlineFired r deadline
  | .activity r =>
    Prog.handle (ActivityElement.open_ r) fun
      | .rejected _ _ => rejected .notFound
          s!"trigger_deadline: activity {r} does not exist; fire refused"
      | e => .fail e
    ActivityElement.onDeadlineFired r deadline

def handleContinueComplete (owner : RawObjectRef) : Handler Unit :=
  match owner.kind with
  | .activity => ActivityElement.continueComplete (owner.typed .activity)
  | .thread => ThreadElement.continueComplete (owner.typed .thread)
  | .execution => ExecutionElement.continueComplete (owner.typed .execution)
  | kind => panicked (s!"continue_complete: {kind} is never a Continue owner; only an Activity, " ++
    "a Thread or an Execution defers")

def handleContinueTerminate (owner : RawObjectRef) : Handler Unit :=
  match owner.kind with
  | .activity => ActivityElement.continueTerminate (owner.typed .activity)
  | .thread => ThreadElement.continueTerminate (owner.typed .thread)
  | .execution => ExecutionElement.continueTerminate (owner.typed .execution)
  | kind => panicked (s!"continue_terminate: {kind} is never a Continue owner; only an Activity, " ++
    "a Thread or an Execution defers")

def dispatchCommand : Command → Handler Unit
  | .createFlow p => FlowElement.create p
  | .createExecution p => ExecutionElement.create p
  | .spawnThread p => ThreadElement.spawn p
  | .completeExecution p => ExecutionElement.complete p
  | .completeThread p => ThreadElement.complete p
  | .terminateExecution p => ExecutionElement.terminate p
  | .terminateThread p => ThreadElement.terminate p
  | .activateState p => handleActivateState p
  | .completeState p => handleCompleteState p
  | .terminateState p => handleTerminateState p
  | .activateTask p => TaskElement.activate p
  | .claimTasks p => TaskElement.claim p
  | .completeTask p => TaskElement.complete p
  | .failTask p => TaskElement.fail p
  | .triggerDeadline target deadline => fireDeadline target deadline
  | .cancelTask task => TaskElement.cancel task
  | .continueComplete owner => handleContinueComplete owner
  | .continueTerminate owner => handleContinueTerminate owner

end Spica
