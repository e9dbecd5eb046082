import Spica.Wire.Names

/-! # Rows as JSON

Errors, statuses and the six kinds of rows. In a row an optional field that is `None` is left out,
and an absent field is read as `None`; so is a null. Of the optional fields only those that hold a
JSON value can hold a null.
-/

namespace Spica.Wire

open Serde

variable [Texts]

/-! ## Errors -/

/-- The content of a struct variant with one field. -/
abbrev only {α : Type} (name : String) (c : Codec α) : Codec α :=
  .struct (.required name c) (Fields.required_distinct name c)

abbrev stateFailed : Codec (String × String × Json) :=
  .struct
    (.and (.required "state" Codec.string) <|
      .and (.required "error" Codec.string) <| .required "output" Codec.json) (Fields.distinct rfl)

abbrev jsonataError : Codec (String × String) :=
  .struct (.and (.required "field" Codec.string) <| .required "message" Codec.string)
    (Fields.distinct rfl)

def runtimeErrorVariant : RuntimeError → Variant RuntimeError
  | .stateNotFound msg => .newtype "StateNotFound" Codec.string .stateNotFound msg
  | .noTerminal => .unit "NoTerminal" .noTerminal
  | .noChoiceMatched state =>
    .newtype "NoChoiceMatched" (only "state" Codec.string) .noChoiceMatched state
  | .stateFailed state error output =>
    .newtype "StateFailed" stateFailed (fun t => .stateFailed t.1 t.2.1 t.2.2) (state, error, output)
  | .jsonata field message =>
    .newtype "Jsonata" jsonataError (fun t => .jsonata t.1 t.2) (field, message)
  | .invalidDefinition msg => .newtype "InvalidDefinition" Codec.string .invalidDefinition msg
  | .timedOut message => .newtype "TimedOut" (only "message" Codec.string) .timedOut message
  | .cancelled message => .newtype "Cancelled" (only "message" Codec.string) .cancelled message

def runtimeError : Codec RuntimeError :=
  .enum runtimeErrorVariant
    [("StateNotFound", readNewtype Codec.string .stateNotFound),
      ("NoTerminal", readUnit .noTerminal),
      ("NoChoiceMatched", readNewtype (only "state" Codec.string) .noChoiceMatched),
      ("StateFailed", readNewtype stateFailed fun t => .stateFailed t.1 t.2.1 t.2.2),
      ("Jsonata", readNewtype jsonataError fun t => .jsonata t.1 t.2),
      ("InvalidDefinition", readNewtype Codec.string .invalidDefinition),
      ("TimedOut", readNewtype (only "message" Codec.string) .timedOut),
      ("Cancelled", readNewtype (only "message" Codec.string) .cancelled)]
    (by intro e; cases e <;> rfl)

instance : runtimeError.Exact := enum_exact fun e => by
  cases e <;> simp only [runtimeErrorVariant, Variant.back_unit, Variant.back_newtype]

def storageErrorVariant : StorageError → Variant StorageError
  | .backend msg => .newtype "Backend" Codec.string .backend msg
  | .codec msg => .newtype "Codec" Codec.string .codec msg
  | .invalidKey msg => .newtype "InvalidKey" Codec.string .invalidKey msg
  | .unsupported msg => .newtype "Unsupported" Codec.string .unsupported msg

def storageError : Codec StorageError :=
  .enum storageErrorVariant
    [("Backend", readNewtype Codec.string .backend), ("Codec", readNewtype Codec.string .codec),
      ("InvalidKey", readNewtype Codec.string .invalidKey),
      ("Unsupported", readNewtype Codec.string .unsupported)]
    (by intro e; cases e <;> rfl)

instance : storageError.Exact := enum_exact fun e => by
  cases e <;> simp only [storageErrorVariant, Variant.back_newtype]

def infraErrorVariant : InfraError → Variant InfraError
  | .log msg => .newtype "Log" Codec.string .log msg
  | .storage e => .newtype "Storage" storageError .storage e

def infraError : Codec InfraError :=
  .enum infraErrorVariant
    [("Log", readNewtype Codec.string .log), ("Storage", readNewtype storageError .storage)]
    (by intro e; cases e <;> rfl)

instance : infraError.Exact := enum_exact fun e => by
  cases e <;> simp only [infraErrorVariant, Variant.back_newtype]

def rejectionTypeVariant : RejectionType → Variant RejectionType
  | .invalidArgument => .unit "InvalidArgument" .invalidArgument
  | .invalidState => .unit "InvalidState" .invalidState
  | .notFound => .unit "NotFound" .notFound
  | .alreadyExists => .unit "AlreadyExists" .alreadyExists
  | .processingError => .unit "ProcessingError" .processingError

def rejectionType : Codec RejectionType :=
  .enum rejectionTypeVariant
    [("InvalidArgument", readUnit .invalidArgument), ("InvalidState", readUnit .invalidState),
      ("NotFound", readUnit .notFound), ("AlreadyExists", readUnit .alreadyExists),
      ("ProcessingError", readUnit .processingError)]
    (by intro t; cases t <;> rfl)

instance : rejectionType.Exact := enum_exact fun t => by cases t <;> rfl

abbrev reject : Codec Reject :=
  (Codec.struct
    (.and (.required "request_id" requestId) <|
      .and (.required "rejection_type" rejectionType) <|
      .required "rejection_reason" Codec.string) (Fields.distinct rfl)).iso
    (fun (a, b, c) => ⟨a, b, c⟩) (fun r => (r.requestId, r.rejectionType, r.rejectionReason))
    fun _ => rfl

def executionErrorVariant : ExecutionError → Variant ExecutionError
  | .runtime e => .newtype "Runtime" runtimeError .runtime e
  | .infra e => .newtype "Infra" infraError .infra e
  | .rejected r => .newtype "Rejected" reject .rejected r

def executionError : Codec ExecutionError :=
  .enum executionErrorVariant
    [("Runtime", readNewtype runtimeError .runtime), ("Infra", readNewtype infraError .infra),
      ("Rejected", readNewtype reject .rejected)]
    (by intro e; cases e <;> rfl)

instance : executionError.Exact := enum_exact fun e => by
  cases e <;> simp only [executionErrorVariant, Variant.back_newtype]

def terminationReasonVariant : TerminationReason → Variant TerminationReason
  | .failed error => .newtype "Failed" (only "error" executionError) .failed error
  | .timedOut => .unit "TimedOut" .timedOut
  | .cancelled => .unit "Cancelled" .cancelled

def terminationReason : Codec TerminationReason :=
  .enum terminationReasonVariant
    [("Failed", readNewtype (only "error" executionError) .failed),
      ("TimedOut", readUnit .timedOut), ("Cancelled", readUnit .cancelled)]
    (by intro r; cases r <;> rfl)

instance : terminationReason.Exact := enum_exact fun r => by
  cases r <;> simp only [terminationReasonVariant, Variant.back_unit, Variant.back_newtype]

/-! ## Statuses -/

def statusVariant : Status → Variant Status
  | .running => .unit "Running" .running
  | .completing => .unit "Completing" .completing
  | .terminating reason => .newtype "Terminating" terminationReason .terminating reason
  | .completed => .unit "Completed" .completed
  | .terminated reason => .newtype "Terminated" terminationReason .terminated reason

def status : Codec Status :=
  .enum statusVariant
    [("Running", readUnit .running), ("Completing", readUnit .completing),
      ("Terminating", readNewtype terminationReason .terminating),
      ("Completed", readUnit .completed), ("Terminated", readNewtype terminationReason .terminated)]
    (by intro s; cases s <;> rfl)

instance : status.Exact := enum_exact fun s => by
  cases s <;> simp only [statusVariant, Variant.back_unit, Variant.back_newtype]

def flowStatusVariant : FlowStatus → Variant FlowStatus
  | .active => .unit "Active" .active
  | .deleted => .unit "Deleted" .deleted

def flowStatus : Codec FlowStatus :=
  .enum flowStatusVariant [("Active", readUnit .active), ("Deleted", readUnit .deleted)]
    (by intro s; cases s <;> rfl)

instance : flowStatus.Exact := enum_exact fun s => by cases s <;> rfl

def taskStatusVariant : TaskStatus → Variant TaskStatus
  | .pending => .unit "Pending" .pending
  | .running => .unit "Running" .running
  | .completed => .unit "Completed" .completed
  | .failed => .unit "Failed" .failed
  | .cancelled => .unit "Cancelled" .cancelled

def taskStatus : Codec TaskStatus :=
  .enum taskStatusVariant
    [("Pending", readUnit .pending), ("Running", readUnit .running),
      ("Completed", readUnit .completed), ("Failed", readUnit .failed),
      ("Cancelled", readUnit .cancelled)]
    (by intro s; cases s <;> rfl)

instance : taskStatus.Exact := enum_exact fun s => by cases s <;> rfl

/-! ## Flows -/

abbrev flowMeta : Codec (ObjectMeta Unit) := objectMeta .flow noOwner noOwner_named

abbrev flow : Codec Flow :=
  (Codec.struct
    (.and (.required "meta" flowMeta) <|
      .and (.required "status" flowStatus) <|
      .required "latest_version" (.unsigned u32Size))
    (Fields.distinct rfl)).iso
    (fun (a, b, c) => ⟨a, b, c⟩)
    (fun x => (x.metadata, x.status, x.latestVersion))
    fun _ => rfl

abbrev flowVersionMeta : Codec (ObjectMeta (ObjectRef .flow)) :=
  objectMeta .flowVersion (.required "owner" (objectRef .flow)) (owner_named _)

abbrev flowVersion : Codec FlowVersion :=
  (Codec.struct
    (.and (.required "meta" flowVersionMeta) <|
      .and (.required "version" (.unsigned u32Size)) <|
      .and (.required "definition" Codec.string) <|
      .defaulted "checksum" (.unsigned u64Size) 0)
    (Fields.distinct rfl)).iso
    (fun (a, b, c, d) => ⟨a, b, c, d⟩)
    (fun x => (x.metadata, x.version, x.definition, x.checksum))
    fun _ => rfl

/-! ## Executions and threads -/

abbrev executionMeta : Codec (ObjectMeta Unit) := objectMeta .execution noOwner noOwner_named

def execution : Codec Execution :=
  (Codec.struct
    (.and (.required "meta" executionMeta) <|
      .and (.required "flow_version" (objectRef .flowVersion)) <|
      .and (.required "status" status) <|
      .and (.skipped "deadline" timestamp) <|
      .and (.required "input" Codec.json) <|
      .skipped "output" Codec.json)
    (Fields.distinct rfl)).iso
    (fun (a, b, c, d, e, f) => ⟨a, b, c, d, e, f⟩)
    (fun x => (x.metadata, x.flowVersion, x.status, x.deadline, x.input, x.output))
    fun _ => rfl

abbrev threadMeta : Codec (ObjectMeta ThreadOwner) :=
  objectMeta .thread (.required "owner" threadOwner) (owner_named _)

def thread : Codec Thread :=
  (Codec.struct
    (.and (.required "meta" threadMeta) <|
      .and (.required "execution" (objectRef .execution)) <|
      .and (.required "state_path" statePath) <|
      .and (.required "start_at" Codec.string) <|
      .and (.required "index" (.unsigned u64Size)) <|
      .and (.required "status" status) <|
      .and (.required "input" Codec.json) <|
      .skipped "output" Codec.json)
    (Fields.distinct rfl)).iso
    (fun (a, b, c, d, e, f, g, h) => ⟨a, b, c, d, e, f, g, h⟩)
    (fun x => (x.metadata, x.execution, x.statePath, x.startAt, x.index, x.status, x.input,
      x.output))
    fun _ => rfl

/-! ## Tasks -/

abbrev retrierAttemptState : Codec RetrierAttemptState :=
  (Codec.struct
    (.and (.required "attempt_count" (.unsigned u32Size)) <|
      .nullable "last_retry_at" timestamp)
    (Fields.distinct rfl)).iso
    (fun t => ⟨t.1, t.2⟩)
    (fun x => (x.attemptCount, x.lastRetryAt))
    fun _ => rfl

abbrev retryPolicy : Codec RetryPolicy :=
  (Codec.struct
    (.and (.required "error_equals" Codec.string.list) <|
      .and (.required "interval_seconds" Codec.i64) <|
      .and (.required "max_attempts" Codec.i64) <|
      .and (.required "backoff_rate" Codec.f64) <|
      .nullable "max_delay_seconds" Codec.i64)
    (Fields.distinct rfl)).iso
    (fun (a, b, c, d, e) => ⟨a, b, c, d, e⟩)
    (fun x => (x.errorEquals, x.intervalSeconds, x.maxAttempts, x.backoffRate, x.maxDelaySeconds))
    fun _ => rfl

abbrev retryState : Codec RetryState :=
  (Codec.struct
    (.and (.required "attempts" (.unsigned u32Size)) <|
      .and (.required "retrier_attempts" retrierAttemptState.list) <|
      .nullable "next_available_at" timestamp)
    (Fields.distinct rfl)).iso
    (fun (a, b, c) => ⟨a, b, c⟩)
    (fun x => (x.attempts, x.retrierAttempts, x.nextAvailableAt))
    fun _ => rfl

abbrev taskMeta : Codec (ObjectMeta (ObjectRef .activity)) :=
  objectMeta .task (.required "owner" (objectRef .activity)) (owner_named _)

abbrev task : Codec Task :=
  (Codec.struct
    (.and (.required "meta" taskMeta) <|
      .and (.required "execution" (objectRef .execution)) <|
      .and (.required "resource" Codec.string) <|
      .and (.required "arguments" Codec.json) <|
      .and (.required "status" taskStatus) <|
      .and (.skipped "deadline" timestamp) <|
      .and (.skipped "worker_id" Codec.string) <|
      .and (.skipped "lease_expires_at" timestamp) <|
      .and (.defaulted "retry_plan" retryPolicy.list []) <|
      .defaulted "retry_state" retryState .default)
    (Fields.distinct rfl)).iso
    (fun (a, b, c, d, e, f, g, h, i, j) => ⟨a, b, c, d, e, f, g, h, i, j⟩)
    (fun x => (x.metadata, x.execution, x.resource, x.arguments, x.status, x.deadline, x.workerId,
      x.leaseExpiresAt, x.retryPlan, x.retryState))
    fun _ => rfl

/-! ## Activities -/

abbrev parallelActivityState : Codec ParallelActivityState :=
  (only "branches" ((objectRef .thread).table (KeyText.unsigned u64Size))).iso .mk
    ParallelActivityState.branches fun _ => rfl

abbrev waitActivityState : Codec WaitActivityState :=
  (only "resume_at" timestamp).iso .mk WaitActivityState.resumeAt fun _ => rfl

abbrev mapActivityState : Codec MapActivityState :=
  (Codec.struct
    (.and (.required "items" Codec.json.list) <|
      .and (.required "total" (.unsigned u64Size)) <|
      .and (.required "max_concurrency" (.unsigned u64Size)) <|
      .required "children" ((objectRef .thread).table (KeyText.unsigned u64Size)))
    (Fields.distinct rfl)).iso
    (fun (a, b, c, d) => ⟨a, b, c, d⟩)
    (fun x => (x.items, x.total, x.maxConcurrency, x.children))
    fun _ => rfl

def activityStateVariant : ActivityState → Variant ActivityState
  | .parallel s => .newtype "Parallel" parallelActivityState .parallel s
  | .map s => .newtype "Map" mapActivityState .map s
  | .wait s => .newtype "Wait" waitActivityState .wait s

def activityState : Codec ActivityState :=
  .enum activityStateVariant
    [("Parallel", readNewtype parallelActivityState .parallel),
      ("Map", readNewtype mapActivityState .map), ("Wait", readNewtype waitActivityState .wait)]
    (by intro s; cases s <;> rfl)

instance : activityState.Exact := enum_exact fun s => by
  cases s <;> simp only [activityStateVariant, Variant.back_newtype]
instance : activityState.Present := by unfold activityState; infer_instance

abbrev activityMeta : Codec (ObjectMeta (ObjectRef .thread)) :=
  objectMeta .activity (.required "owner" (objectRef .thread)) (owner_named _)

def activity : Codec Activity :=
  (Codec.struct
    (.and (.required "meta" activityMeta) <|
      .and (.required "execution" (objectRef .execution)) <|
      .and (.required "state_path" statePath) <|
      .and (.required "status" status) <|
      .and (.required "raw_input" Codec.json) <|
      .and (.skipped "input" Codec.json) <|
      .and (.skipped "raw_output" Codec.json) <|
      .and (.skipped "activity_state" activityState) <|
      .and (.skipped "retry_state" retryState) <|
      .skipped "output" Codec.json)
    (Fields.distinct rfl)).iso
    (fun (a, b, c, d, e, f, g, h, i, j) => ⟨a, b, c, d, e, f, g, h, i, j⟩)
    (fun x => (x.metadata, x.execution, x.statePath, x.status, x.rawInput, x.input, x.rawOutput,
      x.activityState, x.retryState, x.output))
    fun _ => rfl

end Spica.Wire
