import Spica.Storage

/-! # The appliers

How each event folds into the projection, as a program of storage calls. Appliers check no
precondition beyond the presence of the row: an event for an absent row changes nothing.
-/

namespace Spica

namespace Applier

open Txn

def getExecution (r : ObjectRef .execution) : Txn (Option Execution) := ask (.execution r)
def getThread (r : ObjectRef .thread) : Txn (Option Thread) := ask (.thread r)
def getVariables (r : ObjectRef .thread) : Txn Variables := ask (.vars r)
def getActivity (r : ObjectRef .activity) : Txn (Option Activity) := ask (.activity r)
def getTask (r : ObjectRef .task) : Txn (Option Task) := ask (.task r)

/-- Raise the counter above the suffix of a name that is being born. -/
def bumpGeneratedSeq (name : ObjectName) : Txn Unit :=
  match name.suffix with
  | none => pure ()
  | some suffix => do
    let current : Nat ← ask .nextGeneratedSeq
    put (.nextGeneratedSeq (max current (suffix + 1)))

/-! ## Executions -/

def executionCreated (e : Execution) : Txn Unit := put (.execution e)

/-- The completing and completed appliers: the status is theirs, the output the event's. -/
def executionOutcome (status : Status) (e : Execution) : Txn Unit := do
  match ← getExecution e.objectRef with
  | some row =>
    put (.execution { row with
      status := status
      output := e.output
      metadata := row.metadata.withUpdateAt e.metadata.updatedAt })
  | none => pure ()

def executionCompleting (e : Execution) : Txn Unit := executionOutcome .completing e
def executionCompleted (e : Execution) : Txn Unit := executionOutcome .completed e

/-- The terminating and terminated appliers: the status is the event's. -/
def executionStatus (e : Execution) : Txn Unit := do
  match ← getExecution e.objectRef with
  | some row =>
    put (.execution { row with
      status := e.status
      metadata := row.metadata.withUpdateAt e.metadata.updatedAt })
  | none => pure ()

def executionTerminating (e : Execution) : Txn Unit := executionStatus e
def executionTerminated (e : Execution) : Txn Unit := executionStatus e

/-! ## Flows -/

def flowCreated (f : Flow) : Txn Unit := putFlow f

def flowVersionCreated (ts : Timestamp) (v : FlowVersion) : Txn Unit := do
  put (.flowVersion v)
  match v.flowName with
  | none => .fail (.panicked "a Flow's name is a user plain name, never a generated one")
  | some name =>
    let found : Option Flow ← ask (.flowByName name)
    let flow : Flow := found.getD
      { metadata := .build v.metadata.owner.uid v.metadata.owner.name v.metadata.createdAt ()
        status := .active
        latestVersion := v.version }
    putFlow { flow with
      latestVersion := v.version
      metadata := flow.metadata.withUpdateAt ts }

/-! ## Activities -/

def stateActivating (a : Activity) : Txn Unit := do
  put (.activity a)
  bumpGeneratedSeq a.metadata.name
  put (.addChild a.metadata.owner.raw a.objectRef.raw)

/-- The activated, completing and terminating appliers: the row becomes the event's value. -/
def stateReplaced (a : Activity) : Txn Unit := do
  match ← getActivity a.objectRef with
  | some _ => put (.activity a)
  | none => pure ()

def stateActivated (a : Activity) : Txn Unit := stateReplaced a
def stateCompleting (a : Activity) : Txn Unit := stateReplaced a
def stateTerminating (a : Activity) : Txn Unit := stateReplaced a

/-- The completed and terminated appliers: the owner named by the old row loses the edge. -/
def stateSettled (a : Activity) : Txn Unit := do
  match ← getActivity a.objectRef with
  | some row =>
    put (.activity a)
    put (.removeChild row.metadata.owner.raw a.objectRef.raw)
  | none => pure ()

def stateCompleted (a : Activity) : Txn Unit := stateSettled a
def stateTerminated (a : Activity) : Txn Unit := stateSettled a

def variablesAssigned (scope : ObjectRef .thread) (vars : Variables) : Txn Unit :=
  put (.vars scope vars)

def stateTransitioned : Txn Unit := pure ()

/-! ## Tasks -/

def taskActivated (t : Task) : Txn Unit := do
  put (.task t)
  bumpGeneratedSeq t.metadata.name
  put (.addChild t.metadata.owner.raw t.objectRef.raw)

/-- What a claim writes onto a row. -/
def claimedRow (row granted : Task) : Task :=
  { row with
    status := .running
    workerId := granted.workerId
    leaseExpiresAt := granted.leaseExpiresAt
    retryState := { row.retryState with nextAvailableAt := granted.retryState.nextAvailableAt }
    metadata := row.metadata.withUpdateAt granted.metadata.updatedAt }

/-- A grant lands only on a row that is still claimable at the entry's own time. -/
def taskClaimed (ts : Timestamp) (granted : Task) : Txn Unit := do
  match ← getTask granted.objectRef with
  | some row => if row.isClaimableAt ts then put (.task (claimedRow row granted)) else pure ()
  | none => pure ()

def tasksClaimed (ts : Timestamp) (tasks : List Task) : Txn Unit := Prog.each (taskClaimed ts) tasks

def taskCompleted (ts : Timestamp) (t : Task) (output : Json) : Txn Unit := do
  match ← getTask t.objectRef with
  | some row =>
    let parent := row.metadata.owner
    put (.task { row with
      status := .completed
      metadata := row.metadata.withUpdateAt t.metadata.updatedAt })
    match ← getActivity parent with
    | some act =>
      put (.activity { act with
        rawOutput := some output
        metadata := act.metadata.withUpdateAt ts })
    | none => pure ()
    put (.removeChild parent.raw t.objectRef.raw)
  | none => pure ()

def taskFailed (ts : Timestamp) (t : Task) : Txn Unit := do
  match ← getTask t.objectRef with
  | some row =>
    let parent := row.metadata.owner
    put (.task t)
    if t.status = .pending then
      match ← getActivity parent with
      | some act =>
        put (.activity { act with
          retryState := some { act.retryState.getD .default with
            attempts := t.retryState.attempts }
          metadata := act.metadata.withUpdateAt ts })
      | none => pure ()
    else
      put (.removeChild parent.raw t.objectRef.raw)
  | none => pure ()

def taskCancelled (t : Task) : Txn Unit := do
  match ← getTask t.objectRef with
  | some row =>
    put (.task { row with
      status := .cancelled
      metadata := row.metadata.withUpdateAt t.metadata.updatedAt })
    put (.removeChild row.metadata.owner.raw t.objectRef.raw)
  | none => pure ()

/-! ## Threads -/

/-- Record a new thread in its container's fan-out map. `none` for a Wait, which has no map. -/
def recordChild (state : Option ActivityState) (index : Nat) (thread : ObjectRef .thread) :
    Option ActivityState :=
  match state with
  | some (.map m) => some (.map { m with children := m.children.insert index thread })
  | some (.parallel p) => some (.parallel { p with branches := p.branches.insert index thread })
  | some (.wait _) => none
  | none => some (.parallel { branches := AList.insert index thread ∅ })

def threadCreated (ts : Timestamp) (t : Thread) : Txn Unit := do
  put (.thread t)
  -- a failed read of the owner is taken for an absent one, and the scope is not copied
  match t.metadata.owner with
  | .activity owner =>
    match (← peek (.activity owner) : Except StorageError (Option Activity)) with
    | .ok (some act) =>
      let scope ← getVariables act.metadata.owner
      put (.vars t.objectRef scope)
    | _ => pure ()
  | .execution _ => pure ()
  bumpGeneratedSeq t.metadata.name
  put (.addChild t.metadata.owner.raw t.objectRef.raw)
  match t.metadata.owner with
  | .execution _ => pure ()
  | .activity owner =>
    match ← getActivity owner with
    | some act =>
      match recordChild act.activityState t.index t.objectRef with
      | some state =>
        put (.activity { act with
          activityState := some state
          metadata := act.metadata.withUpdateAt ts })
      | none => pure ()
    | none => pure ()

def threadCompleting (t : Thread) : Txn Unit := do
  match ← getThread t.objectRef with
  | some row =>
    put (.thread { row with
      status := .completing
      output := t.output
      metadata := row.metadata.withUpdateAt t.metadata.updatedAt })
  | none => pure ()

def threadCompleted (t : Thread) : Txn Unit := do
  match ← getThread t.objectRef with
  | some row =>
    put (.thread { row with
      status := .completed
      output := t.output
      metadata := row.metadata.withUpdateAt t.metadata.updatedAt })
    put (.removeChild row.metadata.owner.raw t.objectRef.raw)
  | none => pure ()

def threadTerminating (t : Thread) : Txn Unit := do
  match ← getThread t.objectRef with
  | some row =>
    put (.thread { row with
      status := t.status
      metadata := row.metadata.withUpdateAt t.metadata.updatedAt })
  | none => pure ()

def threadTerminated (t : Thread) : Txn Unit := do
  match ← getThread t.objectRef with
  | some row =>
    put (.thread { row with
      status := t.status
      metadata := row.metadata.withUpdateAt t.metadata.updatedAt })
    put (.removeChild row.metadata.owner.raw t.objectRef.raw)
  | none => pure ()

end Applier

open Applier in
/-- Fold one event, stamped with its entry's timestamp. -/
def dispatchEvent (ts : Timestamp) : Event → Txn Unit
  | .executionCreated _ e => executionCreated e
  | .executionCompleting e => executionCompleting e
  | .executionCompleted e => executionCompleted e
  | .executionTerminating e => executionTerminating e
  | .executionTerminated e => executionTerminated e
  | .flowCreated _ f => flowCreated f
  | .flowVersionCreated _ v => flowVersionCreated ts v
  | .stateActivating a => stateActivating a
  | .stateActivated a => stateActivated a
  | .stateCompleting a => stateCompleting a
  | .stateCompleted a => stateCompleted a
  | .stateTerminating a => stateTerminating a
  | .stateTerminated a => stateTerminated a
  | .variablesAssigned scope vars => variablesAssigned scope vars
  | .stateTransitioned _ _ => stateTransitioned
  | .taskActivated t => taskActivated t
  | .tasksClaimed _ ts' => tasksClaimed ts ts'
  | .taskCompleted _ t output => taskCompleted ts t output
  | .taskFailed t _ => taskFailed ts t
  | .taskCancelled t => taskCancelled t
  | .threadCreated t => threadCreated ts t
  | .threadCompleting t => threadCompleting t
  | .threadCompleted t => threadCompleted t
  | .threadTerminating t => threadTerminating t
  | .threadTerminated t => threadTerminated t

end Spica
