import Spica.Elements.Task

/-! # Requests about tasks

A worker reports a failed task over the wire or through the in-process interface. Both append a
command that carries the worker's identity as it was sent.
-/

namespace Spica

/-! ## Names on the wire -/

section names

-- how a text is shown in a message
variable (quoted : String → String)

def PlainName.new (raw : String) : Except String PlainName :=
  if valid : PlainName.isValid raw = true then .ok ⟨raw, valid⟩
  else .error (s!"invalid plain object name {quoted raw}: must be 4..=64 chars of A-Za-z0-9_; " ++
    "'-' is reserved for generated names")

/-- A decimal `u64`. -/
def parseU64 (digits : List Char) : Option Nat :=
  if digits ≠ [] ∧ digits.all Char.isDigit then
    let value := digits.foldl (fun n c => 10 * n + (c.toNat - '0'.toNat)) 0
    if value < u64Size then some value else none
  else none

/-- A `-` marks a generated name: a plain base and a decimal suffix. -/
def ObjectName.fromParsed (raw : String) : Except String ObjectName :=
  let chars := raw.toList
  if chars.head?.any Char.isAlphanum &&
      chars.all fun c => c.isAlphanum || c == '_' || c == '-' then
    match chars.span (· != '-') with
    | (_, []) => (PlainName.new quoted raw).map .plain
    | (base, _ :: suffix) =>
      match parseU64 suffix with
      | none => .error
          s!"invalid generateName suffix {quoted (String.ofList suffix)}: must be a decimal u64"
      | some key => (PlainName.new quoted (String.ofList base)).map (·.generatedFromKey key)
  else .error s!"invalid object name {quoted raw} in address"

end names

/-! ## The service -/

/-- `Engine::fail_task`: tasks are looked up by name, so the identity is left out. -/
def Engine.failTask (workerId : String) (task : ObjectName) (error : ExecutionError) : Command :=
  .failTask ⟨⟨task, .nil⟩, workerId, error⟩

/-- The in-process interface hands the report to the engine. -/
def Gateway.fail (workerId : String) (task : ObjectName) (error : ExecutionError) : Command :=
  Engine.failTask workerId task error

structure TaskFailure where
  errorName : String
  output : List UInt8

structure FailTaskRequest where
  workerId : String
  taskName : String
  error : Option TaskFailure

namespace TaskService

-- how a text is shown in a message, and the JSON reader
variable (quoted : String → String) (fromSlice : List UInt8 → Except String Json)

def parseTaskName (s what : String) : Except String ObjectName :=
  (ObjectName.fromParsed quoted s).mapError fun e => s!"{what}: {e}"

/-- The command a request is appended as, or the message of an `INVALID_ARGUMENT`. -/
def failTask (req : FailTaskRequest) : Except String Command := do
  let task ← parseTaskName quoted req.taskName "task_name"
  match req.error with
  | none => .error "error is required"
  | some failure =>
    let output ← if failure.output.isEmpty then .ok .null
      else (fromSlice failure.output).mapError fun e => s!"error.output is not valid JSON: {e}"
    pure (Gateway.fail req.workerId task
      (.runtime (.stateFailed "" failure.errorName output)))

end TaskService

/-- A command that reports a failure from outside, as the given worker. -/
inductive FailureReport (quoted : String → String) (fromSlice : List UInt8 → Except String Json)
    (workerId : String) (task : ObjectName) : Command → Prop
  | service {req c} (worker : req.workerId = workerId)
      (named : ObjectName.fromParsed quoted req.taskName = .ok task)
      (accepted : TaskService.failTask quoted fromSlice req = .ok c) :
      FailureReport quoted fromSlice workerId task c
  | api (error : ExecutionError) :
      FailureReport quoted fromSlice workerId task (Gateway.fail workerId task error)

/-- Whichever way it came, the identity is the one that was sent. -/
theorem FailureReport.command {quoted fromSlice workerId task c}
    (report : FailureReport quoted fromSlice workerId task c) :
    ∃ error, c = .failTask ⟨⟨task, .nil⟩, workerId, error⟩ := by
  cases report with
  | api error => exact ⟨error, rfl⟩
  | @service req _ worker named accepted =>
    subst worker
    simp only [TaskService.failTask, TaskService.parseTaskName, named, Except.mapError] at accepted
    split at accepted
    · cases accepted
    · next failure _ =>
        by_cases empty : failure.output.isEmpty = true
        · simp only [empty, if_true] at accepted
          cases accepted
          exact ⟨_, rfl⟩
        · simp only [empty] at accepted
          cases read : fromSlice failure.output with
          | error e =>
            simp only [read] at accepted
            cases accepted
          | ok output =>
            simp only [read] at accepted
            cases accepted
            exact ⟨_, rfl⟩

end Spica
