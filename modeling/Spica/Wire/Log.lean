import Spica.LogStreams
import Spica.Wire.Rows

/-! # Log entries as JSON

Commands, events and the entries that carry them. A command's optional fields are written as null
when they are `None`.
-/

namespace Spica.Wire

open Serde

variable [Texts]

/-! ## Commands -/

abbrev activateState : Codec ActivateState :=
  (Codec.struct
    (.and (.required "execution" (objectRef .execution)) <|
      .and (.required "owner" (objectRef .thread)) <|
      .and (.required "state_path" statePath) <|
      .required "input" Codec.json)
    (Fields.distinct rfl)).iso
    (fun (a, b, c, d) => ⟨a, b, c, d⟩)
    (fun x => (x.execution, x.owner, x.statePath, x.input))
    fun _ => rfl

abbrev createFlow : Codec CreateFlow :=
  (Codec.struct
    (.and (.required "request_id" requestId) <|
      .and (.required "name" plainName) <|
      .required "definition" Codec.string)
    (Fields.distinct rfl)).iso
    (fun (a, b, c) => ⟨a, b, c⟩)
    (fun x => (x.requestId, x.name, x.definition))
    fun _ => rfl

abbrev createExecution : Codec CreateExecution :=
  (Codec.struct
    (.and (.required "request_id" requestId) <|
      .and (.required "name" objectName) <|
      .and (.required "flow_version" (objectRef .flowVersion)) <|
      .required "input" Codec.json)
    (Fields.distinct rfl)).iso
    (fun (a, b, c, d) => ⟨a, b, c, d⟩)
    (fun x => (x.requestId, x.name, x.flowVersion, x.input))
    fun _ => rfl

abbrev spawnThread : Codec SpawnThread :=
  (Codec.struct
    (.and (.required "owner" (objectRef .activity)) <|
      .and (.required "execution" (objectRef .execution)) <|
      .and (.nullable "state_path" statePath) <|
      .and (.required "index" (.unsigned u64Size)) <|
      .and (.required "start_at" Codec.string) <|
      .required "input" Codec.json)
    (Fields.distinct rfl)).iso
    (fun (a, b, c, d, e, f) => ⟨a, b, c, d, e, f⟩)
    (fun x => (x.owner, x.execution, x.statePath, x.index, x.startAt, x.input))
    fun _ => rfl

abbrev completeExecution : Codec CompleteExecution :=
  (Codec.struct
    (.and (.required "execution" (objectRef .execution)) <|
      .required "output" Codec.json)
    (Fields.distinct rfl)).iso
    (fun t => ⟨t.1, t.2⟩)
    (fun x => (x.execution, x.output))
    fun _ => rfl

abbrev completeThread : Codec CompleteThread :=
  (Codec.struct
    (.and (.required "thread" (objectRef .thread)) <|
      .required "output" Codec.json)
    (Fields.distinct rfl)).iso
    (fun t => ⟨t.1, t.2⟩)
    (fun x => (x.thread, x.output))
    fun _ => rfl

abbrev terminateExecution : Codec TerminateExecution :=
  (Codec.struct
    (.and (.required "name" objectName) <|
      .and (.nullable "uid" ulid) <|
      .required "reason" terminationReason)
    (Fields.distinct rfl)).iso
    (fun (a, b, c) => ⟨a, b, c⟩)
    (fun x => (x.name, x.uid, x.reason))
    fun _ => rfl

abbrev terminateThread : Codec TerminateThread :=
  (Codec.struct
    (.and (.required "thread" (objectRef .thread)) <|
      .required "reason" terminationReason)
    (Fields.distinct rfl)).iso
    (fun t => ⟨t.1, t.2⟩)
    (fun x => (x.thread, x.reason))
    fun _ => rfl

abbrev completeState : Codec CompleteState :=
  (Codec.struct
    (.and (.required "activity" (objectRef .activity)) <|
      .required "output" Codec.json)
    (Fields.distinct rfl)).iso
    (fun t => ⟨t.1, t.2⟩)
    (fun x => (x.activity, x.output))
    fun _ => rfl

abbrev terminateState : Codec TerminateState :=
  (Codec.struct
    (.and (.required "activity" (objectRef .activity)) <|
      .required "reason" terminationReason)
    (Fields.distinct rfl)).iso
    (fun t => ⟨t.1, t.2⟩)
    (fun x => (x.activity, x.reason))
    fun _ => rfl

abbrev activateTask : Codec ActivateTask :=
  (Codec.struct
    (.and (.required "execution" (objectRef .execution)) <|
      .and (.required "owner" (objectRef .activity)) <|
      .and (.required "task" (objectRef .task)) <|
      .and (.required "resource" Codec.string) <|
      .and (.required "arguments" Codec.json) <|
      .and (.required "retry_plan" retryPolicy.list) <|
      .nullable "deadline" timestamp)
    (Fields.distinct rfl)).iso
    (fun (a, b, c, d, e, f, g) => ⟨a, b, c, d, e, f, g⟩)
    (fun x => (x.execution, x.owner, x.task, x.resource, x.arguments, x.retryPlan, x.deadline))
    fun _ => rfl

abbrev claimTasks : Codec ClaimTasks :=
  (Codec.struct
    (.and (.required "request_id" requestId) <|
      .and (.required "worker_id" Codec.string) <|
      .and (.required "resource" Codec.string) <|
      .and (.required "max_tasks" (.unsigned u64Size)) <|
      .required "lease_seconds" (.unsigned u64Size))
    (Fields.distinct rfl)).iso
    (fun (a, b, c, d, e) => ⟨a, b, c, d, e⟩)
    (fun x => (x.requestId, x.workerId, x.resource, x.maxTasks, x.leaseSeconds))
    fun _ => rfl

abbrev completeTask : Codec CompleteTask :=
  (Codec.struct
    (.and (.required "request_id" requestId) <|
      .and (.required "task" (objectRef .task)) <|
      .and (.required "worker_id" Codec.string) <|
      .required "output" Codec.json)
    (Fields.distinct rfl)).iso
    (fun (a, b, c, d) => ⟨a, b, c, d⟩)
    (fun x => (x.requestId, x.task, x.workerId, x.output))
    fun _ => rfl

abbrev failTask : Codec FailTask :=
  (Codec.struct
    (.and (.required "task" (objectRef .task)) <|
      .and (.required "worker_id" Codec.string) <|
      .required "error" executionError)
    (Fields.distinct rfl)).iso
    (fun (a, b, c) => ⟨a, b, c⟩)
    (fun x => (x.task, x.workerId, x.error))
    fun _ => rfl

def deadlineTargetVariant : DeadlineTarget → Variant DeadlineTarget
  | .execution r => .newtype "Execution" (objectRef .execution) .execution r
  | .activity r => .newtype "Activity" (objectRef .activity) .activity r

def deadlineTarget : Codec DeadlineTarget :=
  .enum deadlineTargetVariant
    [("Execution", readNewtype (objectRef .execution) .execution),
      ("Activity", readNewtype (objectRef .activity) .activity)]
    (by intro t; cases t <;> rfl)

instance : deadlineTarget.Exact := enum_exact fun t => by
  cases t <;> simp only [deadlineTargetVariant, Variant.back_newtype]

abbrev triggerDeadline : Codec (DeadlineTarget × Timestamp) :=
  .struct (.and (.required "target" deadlineTarget) <| .required "deadline" timestamp)
    (Fields.distinct rfl)

def commandVariant : Command → Variant Command
  | .createFlow c => .newtype "CreateFlow" createFlow .createFlow c
  | .createExecution c => .newtype "CreateExecution" createExecution .createExecution c
  | .spawnThread c => .newtype "SpawnThread" spawnThread .spawnThread c
  | .completeExecution c => .newtype "CompleteExecution" completeExecution .completeExecution c
  | .completeThread c => .newtype "CompleteThread" completeThread .completeThread c
  | .terminateExecution c => .newtype "TerminateExecution" terminateExecution .terminateExecution c
  | .terminateThread c => .newtype "TerminateThread" terminateThread .terminateThread c
  | .activateState c => .newtype "ActivateState" activateState .activateState c
  | .completeState c => .newtype "CompleteState" completeState .completeState c
  | .terminateState c => .newtype "TerminateState" terminateState .terminateState c
  | .triggerDeadline target deadline =>
    .newtype "TriggerDeadline" triggerDeadline (fun t => .triggerDeadline t.1 t.2) (target, deadline)
  | .activateTask c => .newtype "ActivateTask" activateTask .activateTask c
  | .claimTasks c => .newtype "ClaimTasks" claimTasks .claimTasks c
  | .completeTask c => .newtype "CompleteTask" completeTask .completeTask c
  | .failTask c => .newtype "FailTask" failTask .failTask c
  | .cancelTask task => .newtype "CancelTask" (only "task" (objectRef .task)) .cancelTask task
  | .continueComplete owner =>
    .newtype "ContinueComplete" (only "owner" rawObjectRef) .continueComplete owner
  | .continueTerminate owner =>
    .newtype "ContinueTerminate" (only "owner" rawObjectRef) .continueTerminate owner

def command : Codec Command :=
  .enum commandVariant
    [("CreateFlow", readNewtype createFlow .createFlow),
      ("CreateExecution", readNewtype createExecution .createExecution),
      ("SpawnThread", readNewtype spawnThread .spawnThread),
      ("CompleteExecution", readNewtype completeExecution .completeExecution),
      ("CompleteThread", readNewtype completeThread .completeThread),
      ("TerminateExecution", readNewtype terminateExecution .terminateExecution),
      ("TerminateThread", readNewtype terminateThread .terminateThread),
      ("ActivateState", readNewtype activateState .activateState),
      ("CompleteState", readNewtype completeState .completeState),
      ("TerminateState", readNewtype terminateState .terminateState),
      ("TriggerDeadline", readNewtype triggerDeadline fun t => .triggerDeadline t.1 t.2),
      ("ActivateTask", readNewtype activateTask .activateTask),
      ("ClaimTasks", readNewtype claimTasks .claimTasks),
      ("CompleteTask", readNewtype completeTask .completeTask),
      ("FailTask", readNewtype failTask .failTask),
      ("CancelTask", readNewtype (only "task" (objectRef .task)) .cancelTask),
      ("ContinueComplete", readNewtype (only "owner" rawObjectRef) .continueComplete),
      ("ContinueTerminate", readNewtype (only "owner" rawObjectRef) .continueTerminate)]
    (by intro c; cases c <;> rfl)

instance : command.Exact := enum_exact fun c => by
  cases c <;> simp only [commandVariant, Variant.back_newtype]

/-! ## Events -/

abbrev flowCreated : Codec (RequestId × Flow) :=
  .struct (.and (.required "request_id" requestId) <| .required "flow" flow) (Fields.distinct rfl)

abbrev flowVersionCreated : Codec (RequestId × FlowVersion) :=
  .struct (.and (.required "request_id" requestId) <| .required "flow_version" flowVersion)
    (Fields.distinct rfl)

def executionCreated : Codec (RequestId × Execution) :=
  .struct (.and (.required "request_id" requestId) <| .required "execution" execution)
    (Fields.distinct rfl)

abbrev variablesAssigned : Codec (ObjectRef .thread × Variables) :=
  .struct
    (.and (.required "scope" (objectRef .thread)) <|
      .required "variables" (Codec.json.table KeyText.string)) (Fields.distinct rfl)

abbrev stateTransitioned : Codec (ObjectRef .activity × StatePath) :=
  .struct (.and (.required "activity" (objectRef .activity)) <| .required "next" statePath)
    (Fields.distinct rfl)

abbrev tasksClaimed : Codec (RequestId × List Task) :=
  .struct (.and (.required "request_id" requestId) <| .required "tasks" task.list) (Fields.distinct rfl)

abbrev taskCompleted : Codec (RequestId × Task × Json) :=
  .struct
    (.and (.required "request_id" requestId) <|
      .and (.required "task" task) <| .required "output" Codec.json) (Fields.distinct rfl)

abbrev taskFailed : Codec (Task × ExecutionError) :=
  .struct (.and (.required "task" task) <| .required "error" executionError) (Fields.distinct rfl)

def eventVariant : Event → Variant Event
  | .flowCreated r f => .newtype "FlowCreated" flowCreated (fun t => .flowCreated t.1 t.2) (r, f)
  | .flowVersionCreated r v =>
    .newtype "FlowVersionCreated" flowVersionCreated (fun t => .flowVersionCreated t.1 t.2) (r, v)
  | .executionCreated r e =>
    .newtype "ExecutionCreated" executionCreated (fun t => .executionCreated t.1 t.2) (r, e)
  | .executionCompleting e =>
    .newtype "ExecutionCompleting" (only "execution" execution) .executionCompleting e
  | .executionCompleted e =>
    .newtype "ExecutionCompleted" (only "execution" execution) .executionCompleted e
  | .executionTerminating e =>
    .newtype "ExecutionTerminating" (only "execution" execution) .executionTerminating e
  | .executionTerminated e =>
    .newtype "ExecutionTerminated" (only "execution" execution) .executionTerminated e
  | .threadCreated t => .newtype "ThreadCreated" (only "thread" thread) .threadCreated t
  | .threadCompleting t => .newtype "ThreadCompleting" (only "thread" thread) .threadCompleting t
  | .threadCompleted t => .newtype "ThreadCompleted" (only "thread" thread) .threadCompleted t
  | .threadTerminating t =>
    .newtype "ThreadTerminating" (only "thread" thread) .threadTerminating t
  | .threadTerminated t => .newtype "ThreadTerminated" (only "thread" thread) .threadTerminated t
  | .stateActivating a => .newtype "StateActivating" (only "activity" activity) .stateActivating a
  | .stateActivated a => .newtype "StateActivated" (only "activity" activity) .stateActivated a
  | .stateCompleting a => .newtype "StateCompleting" (only "activity" activity) .stateCompleting a
  | .stateCompleted a => .newtype "StateCompleted" (only "activity" activity) .stateCompleted a
  | .stateTerminating a =>
    .newtype "StateTerminating" (only "activity" activity) .stateTerminating a
  | .stateTerminated a => .newtype "StateTerminated" (only "activity" activity) .stateTerminated a
  | .variablesAssigned scope vars =>
    .newtype "VariablesAssigned" variablesAssigned (fun t => .variablesAssigned t.1 t.2) (scope, vars)
  | .stateTransitioned a next =>
    .newtype "StateTransitioned" stateTransitioned (fun t => .stateTransitioned t.1 t.2) (a, next)
  | .taskActivated t => .newtype "TaskActivated" (only "task" task) .taskActivated t
  | .tasksClaimed r ts =>
    .newtype "TasksClaimed" tasksClaimed (fun t => .tasksClaimed t.1 t.2) (r, ts)
  | .taskCompleted r t output =>
    .newtype "TaskCompleted" taskCompleted (fun t => .taskCompleted t.1 t.2.1 t.2.2) (r, t, output)
  | .taskFailed t error =>
    .newtype "TaskFailed" taskFailed (fun t => .taskFailed t.1 t.2) (t, error)
  | .taskCancelled t => .newtype "TaskCancelled" (only "task" task) .taskCancelled t

def event : Codec Event :=
  .enum eventVariant
    [("FlowCreated", readNewtype flowCreated fun t => .flowCreated t.1 t.2),
      ("FlowVersionCreated", readNewtype flowVersionCreated fun t => .flowVersionCreated t.1 t.2),
      ("ExecutionCreated", readNewtype executionCreated fun t => .executionCreated t.1 t.2),
      ("ExecutionCompleting", readNewtype (only "execution" execution) .executionCompleting),
      ("ExecutionCompleted", readNewtype (only "execution" execution) .executionCompleted),
      ("ExecutionTerminating", readNewtype (only "execution" execution) .executionTerminating),
      ("ExecutionTerminated", readNewtype (only "execution" execution) .executionTerminated),
      ("ThreadCreated", readNewtype (only "thread" thread) .threadCreated),
      ("ThreadCompleting", readNewtype (only "thread" thread) .threadCompleting),
      ("ThreadCompleted", readNewtype (only "thread" thread) .threadCompleted),
      ("ThreadTerminating", readNewtype (only "thread" thread) .threadTerminating),
      ("ThreadTerminated", readNewtype (only "thread" thread) .threadTerminated),
      ("StateActivating", readNewtype (only "activity" activity) .stateActivating),
      ("StateActivated", readNewtype (only "activity" activity) .stateActivated),
      ("StateCompleting", readNewtype (only "activity" activity) .stateCompleting),
      ("StateCompleted", readNewtype (only "activity" activity) .stateCompleted),
      ("StateTerminating", readNewtype (only "activity" activity) .stateTerminating),
      ("StateTerminated", readNewtype (only "activity" activity) .stateTerminated),
      ("VariablesAssigned", readNewtype variablesAssigned fun t => .variablesAssigned t.1 t.2),
      ("StateTransitioned", readNewtype stateTransitioned fun t => .stateTransitioned t.1 t.2),
      ("TaskActivated", readNewtype (only "task" task) .taskActivated),
      ("TasksClaimed", readNewtype tasksClaimed fun t => .tasksClaimed t.1 t.2),
      ("TaskCompleted", readNewtype taskCompleted fun t => .taskCompleted t.1 t.2.1 t.2.2),
      ("TaskFailed", readNewtype taskFailed fun t => .taskFailed t.1 t.2),
      ("TaskCancelled", readNewtype (only "task" task) .taskCancelled)]
    (by intro e; cases e <;> rfl)

/-! ## Entries -/

def entryPayloadVariant : EntryPayload → Variant EntryPayload
  | .command c => .newtype "Command" command .command c
  | .event e => .newtype "Event" event .event e
  | .reject r => .newtype "Reject" reject .reject r
  | .noop => .unit "Noop" .noop

def entryPayload : Codec EntryPayload :=
  .enum entryPayloadVariant
    [("Command", readNewtype command .command), ("Event", readNewtype event .event),
      ("Reject", readNewtype reject .reject), ("Noop", readUnit .noop)]
    (by intro p; cases p <;> rfl)

def entry : Codec (Streams.Entry EntryPayload) :=
  (Codec.struct
    (.and (.required "stream_id" Codec.i64) <|
      .and (.required "entry_id" Codec.i64) <|
      .and (.nullable "cause_id" Codec.i64) <|
      .and (.required "timestamp" timestamp) <|
      .required "payload" entryPayload)
    (Fields.distinct rfl)).iso
    (fun (a, b, c, d, e) => ⟨a, b, c, d, e⟩)
    (fun x => (x.streamId, x.entryId, x.causeId, x.timestamp, x.payload))
    fun _ => rfl

end Spica.Wire
