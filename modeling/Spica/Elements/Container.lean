import Spica.Eval

/-! # Containers: how an execution and a thread react to a settled child

A settled child's relay only issues commands. The activity's reaction goes through its state's
handler and is given with the activity.
-/

namespace Spica

/-! ## Execution -/

namespace ExecutionElement

/-- `open`: the owner must exist. -/
def open_ (owner : ObjectRef .execution) : Handler Unit := do
  if (← getExecution owner).isNone then
    rejected .notFound s!"execution_element: execution {owner} is gone"

/-- The row a relay acts on. -/
def settledRow (execution : ObjectRef .execution) : Handler Execution := do
  match ← getExecution execution with
  | some exec => pure exec
  | none =>
    rejected .invalidState
      s!"execution_element: execution {execution} is gone from under its settled child"

def refuseSettled {α : Type} (execution : ObjectRef .execution) (child : RawObjectRef)
    (status : Status) : Handler α := do
  match child.kind, status with
  | .thread, .completing =>
    rejected .invalidState
      s!"execution_element: execution {execution} is completing with a settling root thread {child}"
  | kind, status =>
    rejected .invalidState
      (s!"execution_element: execution {execution} settled a {kind} child {child} while " ++
        s!"{(← platform).showStatus status}")

def afterChildCompleted (execution : ObjectRef .execution) (child : RawObjectRef) :
    Handler Unit := do
  let exec ← settledRow execution
  match child.kind, exec.status with
  | .thread, .running =>
    -- a failed read forwards `null`
    let output := match ← peekThread (child.typed .thread) with
      | .ok (some thread) => thread.output.getD .null
      | _ => .null
    appendCommand (.completeExecution ⟨execution, output⟩)
  | .thread, .terminating _ => appendCommand (.continueTerminate execution.raw)
  | _, status => refuseSettled execution child status

def afterChildTerminated (execution : ObjectRef .execution) (child : RawObjectRef) :
    Handler Unit := do
  let exec ← settledRow execution
  match child.kind, exec.status with
  | .thread, .running =>
    -- a failed read leaves the execution without a reaction
    let reason := match ← peekThread (child.typed .thread) with
      | .ok (some thread) => thread.status.terminationReason
      | _ => none
    match reason with
    | none => pure ()
    | some reason =>
      appendCommand (.terminateExecution ⟨execution.name, some execution.uid, reason⟩)
  | .thread, .terminating _ => appendCommand (.continueTerminate execution.raw)
  | _, status => refuseSettled execution child status

end ExecutionElement

/-! ## Thread -/

namespace ThreadElement

def open_ (owner : ObjectRef .thread) : Handler Unit := do
  if (← getThread owner).isNone then
    rejected .notFound s!"thread_element: thread {owner} is gone"

def settledRow (thread : ObjectRef .thread) : Handler Thread := do
  match ← getThread thread with
  | some row => pure row
  | none =>
    rejected .invalidState
      s!"thread_element: thread {thread} is gone from under its settled child"

def afterChildCompleted (thread : ObjectRef .thread) (child : RawObjectRef) : Handler Unit := do
  let row ← settledRow thread
  match row.status with
  | .running =>
    let output := match ← getActivity (child.typed .activity) with
      | some act => act.output.getD .null
      | none => .null
    appendCommand (.completeThread ⟨thread, output⟩)
  | .completing => appendCommand (.continueComplete thread.raw)
  | .terminating _ => appendCommand (.continueTerminate thread.raw)
  | status =>
    rejected .invalidState
      (s!"thread_element: thread {thread} settled a completed child {child} while " ++
        s!"{(← platform).showStatus status}")

/-- The reason of a child that is already terminated. -/
def settledReason (act : Option Activity) : Option TerminationReason :=
  match act with
  | some act => match act.status with
    | .terminated reason => some reason
    | _ => none
  | none => none

def afterChildTerminated (thread : ObjectRef .thread) (child : RawObjectRef) : Handler Unit := do
  let row ← settledRow thread
  match row.status with
  | .running =>
    match settledReason (← getActivity (child.typed .activity)) with
    | none => pure ()
    | some reason => appendCommand (.terminateThread ⟨thread, reason⟩)
  | .completing => appendCommand (.continueComplete thread.raw)
  | .terminating _ => appendCommand (.continueTerminate thread.raw)
  | status =>
    rejected .invalidState
      (s!"thread_element: thread {thread} settled a terminated child {child} while " ++
        s!"{(← platform).showStatus status}")

end ThreadElement

end Spica
