import Spica.Types.Objects

/-! # Commands, events and log entries -/

namespace Spica

/-! ## Commands -/

structure ActivateState where
  execution : ObjectRef .execution
  owner : ObjectRef .thread
  statePath : StatePath
  input : Json
  deriving DecidableEq

structure CreateFlow where
  requestId : RequestId
  name : FlowName
  definition : String
  deriving DecidableEq

structure CreateExecution where
  requestId : RequestId
  name : ObjectName
  flowVersion : ObjectRef .flowVersion
  input : Json
  deriving DecidableEq

structure SpawnThread where
  owner : ObjectRef .activity
  execution : ObjectRef .execution
  statePath : Option StatePath
  index : Nat
  startAt : String
  input : Json
  deriving DecidableEq

structure CompleteExecution where
  execution : ObjectRef .execution
  output : Json
  deriving DecidableEq

structure CompleteThread where
  thread : ObjectRef .thread
  output : Json
  deriving DecidableEq

structure TerminateExecution where
  name : ObjectName
  uid : Option Ulid
  reason : TerminationReason
  deriving DecidableEq

structure TerminateThread where
  thread : ObjectRef .thread
  reason : TerminationReason
  deriving DecidableEq

structure CompleteState where
  activity : ObjectRef .activity
  output : Json
  deriving DecidableEq

structure TerminateState where
  activity : ObjectRef .activity
  reason : TerminationReason
  deriving DecidableEq

structure ActivateTask where
  execution : ObjectRef .execution
  owner : ObjectRef .activity
  task : ObjectRef .task
  resource : String
  arguments : Json
  retryPlan : List RetryPolicy
  deadline : Option Timestamp
  deriving DecidableEq

structure ClaimTasks where
  requestId : RequestId
  workerId : String
  resource : String
  maxTasks : Nat
  leaseSeconds : Nat
  deriving DecidableEq

structure CompleteTask where
  requestId : RequestId
  task : ObjectRef .task
  workerId : String
  output : Json
  deriving DecidableEq

structure FailTask where
  task : ObjectRef .task
  workerId : String
  error : ExecutionError
  deriving DecidableEq

/-- What a deadline is armed on. -/
inductive DeadlineTarget where
  | execution (r : ObjectRef .execution)
  | activity (r : ObjectRef .activity)
  deriving DecidableEq

inductive Command where
  | createFlow (c : CreateFlow)
  | createExecution (c : CreateExecution)
  | spawnThread (c : SpawnThread)
  | completeExecution (c : CompleteExecution)
  | completeThread (c : CompleteThread)
  | terminateExecution (c : TerminateExecution)
  | terminateThread (c : TerminateThread)
  | activateState (c : ActivateState)
  | completeState (c : CompleteState)
  | terminateState (c : TerminateState)
  | triggerDeadline (target : DeadlineTarget) (deadline : Timestamp)
  | activateTask (c : ActivateTask)
  | claimTasks (c : ClaimTasks)
  | completeTask (c : CompleteTask)
  | failTask (c : FailTask)
  | cancelTask (task : ObjectRef .task)
  | continueComplete (owner : RawObjectRef)
  | continueTerminate (owner : RawObjectRef)
  deriving DecidableEq

def Command.requestId : Command → Option RequestId
  | .createFlow c => some c.requestId
  | .createExecution c => some c.requestId
  | .claimTasks c => some c.requestId
  | .completeTask c => some c.requestId
  | _ => none

/-! ## Events -/

inductive Event where
  | flowCreated (requestId : RequestId) (flow : Flow)
  | flowVersionCreated (requestId : RequestId) (flowVersion : FlowVersion)
  | executionCreated (requestId : RequestId) (execution : Execution)
  | executionCompleting (execution : Execution)
  | executionCompleted (execution : Execution)
  | executionTerminating (execution : Execution)
  | executionTerminated (execution : Execution)
  | threadCreated (thread : Thread)
  | threadCompleting (thread : Thread)
  | threadCompleted (thread : Thread)
  | threadTerminating (thread : Thread)
  | threadTerminated (thread : Thread)
  | stateActivating (activity : Activity)
  | stateActivated (activity : Activity)
  | stateCompleting (activity : Activity)
  | stateCompleted (activity : Activity)
  | stateTerminating (activity : Activity)
  | stateTerminated (activity : Activity)
  | variablesAssigned (scope : ObjectRef .thread) (vars : Variables)
  | stateTransitioned (activity : ObjectRef .activity) (next : StatePath)
  | taskActivated (task : Task)
  | tasksClaimed (requestId : RequestId) (tasks : List Task)
  | taskCompleted (requestId : RequestId) (task : Task) (output : Json)
  | taskFailed (task : Task) (error : ExecutionError)
  | taskCancelled (task : Task)
  deriving DecidableEq

/-! ## The log -/

inductive EntryPayload where
  | command (c : Command)
  | event (e : Event)
  | reject (r : Reject)
  | noop
  deriving DecidableEq

/-- A log entry. Its position is its index in the log, counted from 1. -/
structure Entry where
  causeId : Option Nat
  timestamp : Timestamp
  payload : EntryPayload
  deriving DecidableEq

namespace Entry

def event? (e : Entry) : Option Event :=
  match e.payload with
  | .event ev => some ev
  | _ => none

def isNoop (e : Entry) : Bool :=
  match e.payload with
  | .noop => true
  | _ => false

def isCommand (e : Entry) : Bool :=
  match e.payload with
  | .command _ => true
  | _ => false

theorem not_noop_of_event (e : Entry) (isEvent : e.event? ≠ none) : e.isNoop = false := by
  unfold event? at isEvent
  unfold isNoop
  cases payload : e.payload <;> simp_all

end Entry

end Spica
