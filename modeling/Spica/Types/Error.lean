import Spica.Asl
import Spica.Types.Meta

/-! # Errors, rejections and termination reasons -/

namespace Spica

inductive RuntimeError where
  | stateNotFound (msg : String)
  | noTerminal
  | noChoiceMatched (state : String)
  | stateFailed (state error : String) (output : Json)
  | jsonata (field message : String)
  | invalidDefinition (msg : String)
  | timedOut (message : String)
  | cancelled (message : String)
  deriving DecidableEq

namespace RuntimeError

def display : RuntimeError → String
  | .stateNotFound msg => s!"state not found: {msg}"
  | .noTerminal => "no terminal state reached (a state is missing Next/End)"
  | .noChoiceMatched state => s!"choice state {state} matched no rule and has no Default"
  | .stateFailed state error _ => s!"Fail state {state} reported error {error}"
  | .jsonata field message => s!"JSONata error in {field}: {message}"
  | .invalidDefinition msg => s!"invalid state definition: {msg}"
  | .timedOut message => s!"execution timed out: {message}"
  | .cancelled message => s!"execution cancelled: {message}"

def errorName : RuntimeError → String
  | .stateFailed _ error _ => error
  | .noChoiceMatched _ => "States.NoChoiceMatched"
  | .jsonata _ _ => "States.Runtime"
  | .stateNotFound _ => "States.Runtime"
  | .noTerminal => "States.Runtime"
  | .invalidDefinition _ => "States.Runtime"
  | .timedOut _ => "States.Timeout"
  | .cancelled _ => "States.Cancelled"

/-- The `{Error, Cause}` object, its keys in the map's order. -/
def errorObject (error cause : String) : Json :=
  .object [("Cause", .string cause), ("Error", .string error)]

def errorOutput : RuntimeError → Option Json
  | .stateFailed _ _ output => some output
  | .noChoiceMatched state => some (errorObject "States.NoChoiceMatched"
      s!"Choice state '{state}' matched no rule and has no Default")
  | .jsonata field message => some (errorObject "States.Runtime"
      s!"JSONata error in {field}: {message}")
  | .timedOut message => some (errorObject "States.Timeout" message)
  | .cancelled _ => none
  | .stateNotFound _ | .noTerminal | .invalidDefinition _ => none

end RuntimeError

inductive StorageError where
  | backend (msg : String)
  | codec (msg : String)
  | invalidKey (msg : String)
  | unsupported (msg : String)
  deriving DecidableEq

def StorageError.display : StorageError → String
  | .backend msg => s!"storage backend: {msg}"
  | .codec msg => s!"storage row: {msg}"
  | .invalidKey msg => s!"storage key: {msg}"
  | .unsupported msg => s!"storage operation unsupported: {msg}"

inductive InfraError where
  | log (msg : String)
  | storage (e : StorageError)
  deriving DecidableEq

def InfraError.display : InfraError → String
  | .log msg => s!"log/storage error: {msg}"
  | .storage e => e.display

inductive RejectionType where
  | invalidArgument
  | invalidState
  | notFound
  | alreadyExists
  | processingError
  deriving DecidableEq

def RejectionType.display : RejectionType → String
  | .invalidArgument => "INVALID_ARGUMENT"
  | .invalidState => "INVALID_STATE"
  | .notFound => "NOT_FOUND"
  | .alreadyExists => "ALREADY_EXISTS"
  | .processingError => "PROCESSING_ERROR"

structure Reject where
  requestId : RequestId
  rejectionType : RejectionType
  rejectionReason : String
  deriving DecidableEq

def Reject.display (r : Reject) : String := s!"{r.rejectionType.display}: {r.rejectionReason}"

inductive ExecutionError where
  | runtime (e : RuntimeError)
  | infra (e : InfraError)
  | rejected (r : Reject)
  deriving DecidableEq

namespace ExecutionError

def display : ExecutionError → String
  | .runtime e => e.display
  | .infra e => e.display
  | .rejected r => s!"command rejected: {r.display}"

instance : ToString ExecutionError := ⟨display⟩

def errorName : ExecutionError → String
  | .runtime r => r.errorName
  | .infra _ | .rejected _ => "States.Runtime"

def errorOutput : ExecutionError → Option Json
  | .runtime r => r.errorOutput
  | .infra _ | .rejected _ => none

/-- `States.ALL` matches anything, `States.TaskFailed` anything but a timeout, any other entry
    its own name. -/
def matchesErrorNames (e : ExecutionError) (errorEquals : List String) : Bool :=
  if errorEquals.any (· == "States.ALL") then true
  else if errorEquals.any (· == "States.TaskFailed") then e.errorName != "States.Timeout"
  else errorEquals.any (· == e.errorName)

/-- `From<StorageError>`. -/
def ofStorage (e : StorageError) : ExecutionError := .infra (.storage e)

end ExecutionError

inductive TerminationReason where
  | failed (error : ExecutionError)
  | timedOut
  | cancelled
  deriving DecidableEq

end Spica
