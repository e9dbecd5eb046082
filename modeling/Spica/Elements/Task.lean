import Spica.Elements.Activity

/-! # Tasks: activation, claims and worker reports -/

namespace Spica

namespace TaskElement

/-- The task an `ActivateTask` gives birth to. -/
def newTask (p : ActivateTask) (at_ : Timestamp) : Task where
  metadata := .build p.task.uid p.task.name at_ p.owner
  execution := p.execution
  resource := p.resource
  arguments := p.arguments
  status := .pending
  deadline := p.deadline
  workerId := none
  leaseExpiresAt := none
  retryPlan := p.retryPlan
  retryState := .default

def activate (p : ActivateTask) : Handler Unit := do
  appendEvent (.taskActivated (newTask p (← now)))

def complete (p : CompleteTask) : Handler Unit := do
  match ← getTask p.task with
  | none => rejected .notFound s!"task {p.task} not found or not activated"
  | some row =>
    let env ← platform
    match row.markCompleted env.showWorker p.workerId (← now) with
    | .error reason =>
      rejected .invalidState s!"task {p.task} cannot be completed: {reason}"
    | .ok completed =>
      ActivityElement.open_ row.metadata.owner
      appendEvent (.taskCompleted p.requestId completed p.output)
      ActivityElement.afterChildCompleted row.metadata.owner p.task.raw

def fail (p : FailTask) : Handler Unit := do
  match ← getTask p.task with
  | none =>
    rejected .notFound s!"fail_task: task {p.task} does not exist; failure refused"
  | some row =>
    let env ← platform
    match row.handleFailure env.showWorker env.backoff env.debug p.workerId p.error (← now) with
    | .error .overflow => panicked "attempt to add with overflow"
    | .error (.refused why) =>
      rejected .invalidState
        s!"fail_task: task {row.objectRef} cannot take the failure reported by {p.workerId}: {why}"
    | .ok (failed, outcome) =>
      appendEvent (.taskFailed failed p.error)
      if outcome = .terminal then
        appendCommand (.terminateState ⟨row.metadata.owner, .failed p.error⟩)

def cancel (task : ObjectRef .task) : Handler Unit := do
  match ← getTask task with
  | none => rejected .notFound s!"task {task} not found; cancel dropped"
  | some row =>
    match row.markCancelled (← now) with
    | .error reason =>
      rejected .invalidState s!"task {task} cannot be cancelled: {reason}"
    | .ok cancelled =>
      ActivityElement.open_ row.metadata.owner
      appendEvent (.taskCancelled cancelled)
      ActivityElement.afterChildTerminated row.metadata.owner task.raw

def claim (p : ClaimTasks) : Handler Unit := do
  let at_ ← now
  match at_.checkedAdd p.leaseSeconds with
  | none =>
    rejected .invalidArgument
      (s!"worker {p.workerId} asked for a {p.leaseSeconds}s lease on {p.resource}, which " ++
        "overflows the clock; claim refused")
  | some leaseExpiresAt =>
    let tasks ← activatableTasks p.resource at_ p.maxTasks
    appendEvent (.tasksClaimed p.requestId
      (tasks.map fun t => t.claim p.workerId leaseExpiresAt at_))

end TaskElement

end Spica
