import Spica.Types.Error

/-! # The objects of the projection

Flows and their versions, executions, threads, activities and tasks, with the transitions
their own types offer. A transition returns the changed object, or the reason it is refused.
-/

namespace Spica

/-- The lifecycle shared by executions, threads and activities. -/
inductive Status where
  | running
  | completing
  | terminating (reason : TerminationReason)
  | completed
  | terminated (reason : TerminationReason)
  deriving DecidableEq

namespace Status

def isRunning : Status → Bool
  | .running => true
  | _ => false

def isCompleting : Status → Bool
  | .completing => true
  | _ => false

def isTerminating : Status → Bool
  | .terminating _ => true
  | _ => false

def isTerminal : Status → Bool
  | .completed | .terminated _ => true
  | _ => false

def terminationReason : Status → Option TerminationReason
  | .terminating r | .terminated r => some r
  | .running | .completing | .completed => none

def phase : Status → String
  | .running => "Running"
  | .completing => "Completing"
  | .terminating _ => "Terminating"
  | .completed => "Completed"
  | .terminated _ => "Terminated"

end Status

/-! ## Flows -/

inductive FlowStatus where
  | active
  | deleted
  deriving DecidableEq

structure Flow where
  metadata : ObjectMeta Unit
  status : FlowStatus
  latestVersion : Nat
  deriving DecidableEq

def Flow.new (uid : Ulid) (name : FlowName) (createdAt : Timestamp) : Flow where
  metadata := .build uid (.plain name) createdAt ()
  status := .active
  latestVersion := 1

structure FlowVersion where
  metadata : ObjectMeta (ObjectRef .flow)
  version : Nat
  definition : String
  checksum : Nat
  deriving DecidableEq

namespace FlowVersion

def versionName (flow : FlowName) (version : Nat) : ObjectName := flow.generatedFromKey version

/-- `FlowVersion::new`, given the flow's plain name the source unwraps and the definition's
    checksum. -/
def new (uid : Ulid) (flow : ObjectRef .flow) (flowName : FlowName) (version : Nat)
    (definition : String) (checksum : Nat) (createdAt : Timestamp) : FlowVersion where
  metadata := .build uid (versionName flowName version) createdAt flow
  version := version
  definition := definition
  checksum := checksum

/-- `flow_name`; `none` is where the source panics. -/
def flowName (v : FlowVersion) : Option FlowName := v.metadata.owner.name.asPlain

end FlowVersion

/-! ## Executions -/

structure Execution where
  metadata : ObjectMeta Unit
  flowVersion : ObjectRef .flowVersion
  status : Status
  deadline : Option Timestamp
  input : Json
  output : Option Json
  deriving DecidableEq

namespace Execution

def objectRef (e : Execution) : ObjectRef .execution := e.metadata.objectRef .execution

def markCompleting (e : Execution) (output : Json) (at_ : Timestamp) : Except String Execution :=
  if !e.status.isRunning then
    .error s!"only a Running execution can begin completing, but it is {e.status.phase}"
  else
    .ok { e with status := .completing, output := some output, metadata := e.metadata.withUpdateAt at_ }

def markCompleted (e : Execution) (at_ : Timestamp) : Except String Execution :=
  if !e.status.isCompleting then
    .error s!"only a Completing execution can be completed, but it is {e.status.phase}"
  else
    .ok { e with status := .completed, metadata := e.metadata.withUpdateAt at_ }

def markTerminating (e : Execution) (reason : TerminationReason) (at_ : Timestamp) :
    Except String Execution :=
  if !e.status.isRunning then
    .error s!"only a Running execution can begin terminating, but it is {e.status.phase}"
  else
    .ok { e with status := .terminating reason, metadata := e.metadata.withUpdateAt at_ }

def markTerminated (e : Execution) (at_ : Timestamp) : Except String Execution :=
  match e.status with
  | .terminating reason =>
    .ok { e with status := .terminated reason, metadata := e.metadata.withUpdateAt at_ }
  | other => .error s!"only a Terminating execution can be terminated, but it is {other.phase}"

end Execution

/-! ## Threads -/

structure Thread where
  metadata : ObjectMeta ThreadOwner
  execution : ObjectRef .execution
  statePath : StatePath
  startAt : String
  index : Nat
  status : Status
  input : Json
  output : Option Json
  deriving DecidableEq

namespace Thread

def isTerminal (t : Thread) : Bool := t.status.isTerminal

def objectRef (t : Thread) : ObjectRef .thread := t.metadata.objectRef .thread

def markTerminating (t : Thread) (reason : TerminationReason) (at_ : Timestamp) :
    Except String Thread :=
  if !t.status.isRunning then
    .error s!"only a Running thread can begin terminating, but it is {t.status.phase}"
  else
    .ok { t with status := .terminating reason, metadata := t.metadata.withUpdateAt at_ }

end Thread

/-! ## Tasks -/

structure RetrierAttemptState where
  attemptCount : Nat
  lastRetryAt : Option Timestamp
  deriving DecidableEq

structure RetryPolicy where
  errorEquals : List String
  intervalSeconds : Int
  maxAttempts : Int
  backoffRate : F64
  maxDelaySeconds : Option Int
  deriving DecidableEq

namespace RetryPolicy

def resolve (r : Retrier) : RetryPolicy where
  errorEquals := r.errorEquals
  intervalSeconds := r.intervalSecondsOr
  maxAttempts := r.maxAttemptsOr
  backoffRate := r.backoffRateOr
  maxDelaySeconds := r.maxDelaySeconds

/-- The budget is `max_attempts` floored at 0 and truncated to `u32`. -/
def hasBudgetAfter (p : RetryPolicy) (attempts : Nat) : Bool :=
  attempts < (max p.maxAttempts 0).toNat % u32Size

end RetryPolicy

structure RetryState where
  attempts : Nat
  retrierAttempts : List RetrierAttemptState
  nextAvailableAt : Option Timestamp
  deriving DecidableEq

def RetryState.default : RetryState := ⟨0, [], none⟩

inductive TaskStatus where
  | pending
  | running
  | completed
  | failed
  | cancelled
  deriving DecidableEq

namespace TaskStatus

def isRunning : TaskStatus → Bool
  | .running => true
  | _ => false

def isTerminal : TaskStatus → Bool
  | .completed | .failed | .cancelled => true
  | _ => false

def phase : TaskStatus → String
  | .pending => "Pending"
  | .running => "Running"
  | .completed => "Completed"
  | .failed => "Failed"
  | .cancelled => "Cancelled"

end TaskStatus

structure Task where
  metadata : ObjectMeta (ObjectRef .activity)
  execution : ObjectRef .execution
  resource : String
  arguments : Json
  status : TaskStatus
  deadline : Option Timestamp
  workerId : Option String
  leaseExpiresAt : Option Timestamp
  retryPlan : List RetryPolicy
  retryState : RetryState
  deriving DecidableEq

inductive FailureOutcome where
  | retried
  | terminal
  deriving DecidableEq

/-- Why a failure report changes nothing: it is refused, or the attempt counter overflows where
    overflow is checked. -/
inductive FailureFault where
  | refused (msg : String)
  | overflow
  deriving DecidableEq

namespace Task

def objectRef (t : Task) : ObjectRef .task := t.metadata.objectRef .task

def isClaimableAt (t : Task) (now : Timestamp) : Bool :=
  match t.status with
  | .pending => !(t.retryState.nextAvailableAt.any fun at_ => now.millis < at_.millis)
  | .running => t.leaseExpiresAt.any fun at_ => at_.millis ≤ now.millis
  | .completed | .failed | .cancelled => false

def claim (t : Task) (workerId : String) (leaseExpiresAt at_ : Timestamp) : Task :=
  { t with
    status := .running
    workerId := some workerId
    leaseExpiresAt := some leaseExpiresAt
    metadata := t.metadata.withUpdateAt at_
    retryState := { t.retryState with nextAvailableAt := none } }

def markCancelled (t : Task) (at_ : Timestamp) : Except String Task :=
  if t.status.isTerminal then
    .error s!"only an in-flight task can be cancelled, but it is {t.status.phase}"
  else
    .ok { t with status := .cancelled, metadata := t.metadata.withUpdateAt at_ }

/-- `shown` renders the lease holder as the source's `{:?}` does. -/
def markCompleted (t : Task) (shown : Option String → String) (workerId : String)
    (at_ : Timestamp) : Except String Task :=
  if !t.status.isRunning then
    .error s!"only a Running task can be completed, but it is {t.status.phase}"
  else if workerId.isEmpty || t.workerId != some workerId then
    .error s!"it is leased to {shown t.workerId}, not {workerId}"
  else
    .ok { t with
      status := .completed
      workerId := none
      leaseExpiresAt := none
      metadata := t.metadata.withUpdateAt at_ }

/-- The first policy of the plan that names the error, with its index. -/
def matchedPolicy (plan : List RetryPolicy) (error : ExecutionError) : Option (Nat × RetryPolicy) :=
  match plan.findIdx? fun p => error.matchesErrorNames p.errorEquals with
  | none => none
  | some i => plan[i]?.map fun p => (i, p)

/-- `resize(index + 1)` when shorter, then the store at `index`. -/
def recordAttempt (attempts : List RetrierAttemptState) (index : Nat) (a : RetrierAttemptState) :
    List RetrierAttemptState :=
  let padded := attempts ++ List.replicate (index + 1 - attempts.length) ⟨0, none⟩
  padded.set index a

/-- `backoff` is the policy's delay in seconds before the given retry; `checked` says whether
    integer overflow panics. -/
def handleFailure (t : Task) (shown : Option String → String) (backoff : RetryPolicy → Nat → Nat)
    (checked : Bool) (workerId : String) (error : ExecutionError) (now : Timestamp) :
    Except FailureFault (Task × FailureOutcome) :=
  if t.status.isTerminal then
    .error (.refused s!"only an in-flight task takes a failure report, but it is {t.status.phase}")
  else if !workerId.isEmpty && (!t.status.isRunning || t.workerId != some workerId) then
    .error (.refused
      s!"it is {t.status.phase} and leased to {shown t.workerId}, not {workerId}")
  else
    let freed := { t with
      workerId := none
      leaseExpiresAt := none
      metadata := t.metadata.withUpdateAt now }
    let exhausted := { freed with
      status := .failed
      retryState := { t.retryState with nextAvailableAt := none } }
    match matchedPolicy t.retryPlan error with
    | none => .ok (exhausted, .terminal)
    | some (index, policy) =>
      let attempts := (t.retryState.retrierAttempts[index]?.map (·.attemptCount)).getD 0
      if policy.hasBudgetAfter attempts then
        if checked && t.retryState.attempts + 1 ≥ u32Size then .error .overflow
        else
          let nextAvailableAt := (now.checkedAdd (backoff policy attempts)).getD now
          .ok ({ freed with
            status := .pending
            retryState :=
              { attempts := (t.retryState.attempts + 1) % u32Size
                retrierAttempts := recordAttempt t.retryState.retrierAttempts index
                  ⟨attempts + 1, some now⟩
                nextAvailableAt := some nextAvailableAt } }, .retried)
      else .ok (exhausted, .terminal)

/-- The retries the retrier at the index has scheduled. -/
def retriesBy (t : Task) (index : Nat) : Nat :=
  (t.retryState.retrierAttempts[index]?.map (·.attemptCount)).getD 0

/-- The task as a report leaves it that no retrier takes up. -/
def exhausted (t : Task) (now : Timestamp) : Task :=
  { t with
    workerId := none
    leaseExpiresAt := none
    metadata := t.metadata.withUpdateAt now
    status := .failed
    retryState := { t.retryState with nextAvailableAt := none } }

/-- The task as the retrier at the index queues it again, with a delay in seconds. -/
def requeued (t : Task) (index delay : Nat) (now : Timestamp) : Task :=
  { t with
    workerId := none
    leaseExpiresAt := none
    metadata := t.metadata.withUpdateAt now
    status := .pending
    retryState :=
      { attempts := (t.retryState.attempts + 1) % u32Size
        retrierAttempts := recordAttempt t.retryState.retrierAttempts index
          ⟨t.retriesBy index + 1, some now⟩
        nextAvailableAt := some ((now.checkedAdd delay).getD now) } }

/-- What a task makes of a failure report it accepts. -/
inductive Takes (t : Task) (backoff : RetryPolicy → Nat → Nat) (checked : Bool)
    (error : ExecutionError) (now : Timestamp) : Task → FailureOutcome → Prop
  | unmatched (none : matchedPolicy t.retryPlan error = none) :
      Takes t backoff checked error now (t.exhausted now) .terminal
  | spent {index policy} (matched : matchedPolicy t.retryPlan error = some (index, policy))
      (spent : policy.hasBudgetAfter (t.retriesBy index) = false) :
      Takes t backoff checked error now (t.exhausted now) .terminal
  | retried {index policy} (matched : matchedPolicy t.retryPlan error = some (index, policy))
      (budget : policy.hasBudgetAfter (t.retriesBy index) = true)
      (fits : checked = true → t.retryState.attempts + 1 < u32Size) :
      Takes t backoff checked error now
        (t.requeued index (backoff policy (t.retriesBy index)) now) .retried

/-- A report is accepted from the engine and from the holder of the lease. -/
theorem handleFailure_inv {t t' : Task} {shown backoff checked workerId error now outcome}
    (ok : t.handleFailure shown backoff checked workerId error now = .ok (t', outcome)) :
    t.status.isTerminal = false ∧
      (workerId = "" ∨ t.status = .running ∧ t.workerId = some workerId) ∧
      t.Takes backoff checked error now t' outcome := by
  unfold handleFailure at ok
  split at ok
  · cases ok
  next live =>
  split at ok
  · cases ok
  next guard =>
  refine ⟨by simpa using live, ?_, ?_⟩
  · by_cases empty : workerId = ""
    · exact .inl empty
    · have running : t.status.isRunning = true ∧ t.workerId = some workerId := by
        simpa [empty] using guard
      refine .inr ⟨?_, running.2⟩
      cases phase : t.status <;> simp [phase, TaskStatus.isRunning] at running ⊢
  · dsimp only at ok
    split at ok
    next unmatched =>
      cases ok
      exact .unmatched unmatched
    next matched =>
      split at ok
      next budget =>
        split at ok
        · cases ok
        next fits =>
          cases ok
          exact .retried matched budget (by simpa using fits)
      next spent =>
        cases ok
        exact .spent matched (Bool.eq_false_iff.mpr spent)

end Task

/-! ## Activities -/

structure ParallelActivityState where
  branches : Table Nat (ObjectRef .thread)

structure WaitActivityState where
  resumeAt : Timestamp
  deriving DecidableEq

structure MapActivityState where
  items : List Json
  total : Nat
  maxConcurrency : Nat
  children : Table Nat (ObjectRef .thread)

instance : DecidableEq ParallelActivityState := fun a b =>
  decidable_of_iff (a.branches = b.branches) (by cases a; cases b; simp)

instance : DecidableEq MapActivityState := fun a b =>
  decidable_of_iff (a.items = b.items ∧ a.total = b.total ∧ a.maxConcurrency = b.maxConcurrency ∧
    a.children = b.children) (by cases a; cases b; simp)

/-- State-specific runtime data of an activity. -/
inductive ActivityState where
  | parallel (s : ParallelActivityState)
  | map (s : MapActivityState)
  | wait (s : WaitActivityState)
  deriving DecidableEq

structure Activity where
  metadata : ObjectMeta (ObjectRef .thread)
  execution : ObjectRef .execution
  statePath : StatePath
  status : Status
  rawInput : Json
  input : Option Json
  rawOutput : Option Json
  activityState : Option ActivityState
  retryState : Option RetryState
  output : Option Json
  deriving DecidableEq

namespace Activity

def objectRef (a : Activity) : ObjectRef .activity := a.metadata.objectRef .activity

def retryCount (a : Activity) : Nat := (a.retryState.map (·.attempts)).getD 0

def markCompleting (a : Activity) (rawOutput : Json) (at_ : Timestamp) : Except String Activity :=
  if !a.status.isRunning then
    .error s!"only a Running activity can begin completing, but it is {a.status.phase}"
  else
    .ok { a with
      status := .completing, rawOutput := some rawOutput, metadata := a.metadata.withUpdateAt at_ }

def markCompleted (a : Activity) (output : Json) (at_ : Timestamp) : Except String Activity :=
  if !a.status.isCompleting then
    .error s!"only a Completing activity can complete, but it is {a.status.phase}"
  else
    .ok { a with status := .completed, output := some output, metadata := a.metadata.withUpdateAt at_ }

def markTerminating (a : Activity) (reason : TerminationReason) (at_ : Timestamp) :
    Except String Activity :=
  if a.status.isTerminating || a.status.isTerminal then
    .error s!"only a Running or Completing activity can begin terminating, but it is {a.status.phase}"
  else
    .ok { a with status := .terminating reason, metadata := a.metadata.withUpdateAt at_ }

def markTerminated (a : Activity) (at_ : Timestamp) : Except String Activity :=
  match a.status with
  | .terminating reason =>
    .ok { a with status := .terminated reason, metadata := a.metadata.withUpdateAt at_ }
  | other => .error s!"only a Terminating activity can terminate, but it is {other.phase}"

end Activity

end Spica
