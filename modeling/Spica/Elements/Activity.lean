import Spica.States.Simple
import Spica.States.Task
import Spica.States.FanOut

/-! # Activities: state dispatch, settled children, deadlines and deferred closes -/

namespace Spica

/-- `StateHandlerRegistry::create`: every state kind has its handler. -/
def handlerFor : State → StateHandler
  | .pass s => passHandler s
  | .wait s => waitHandler s
  | .succeed s => succeedHandler s
  | .fail s => failHandler s
  | .task s => taskHandler s
  | .choice s => choiceHandler s
  | .parallel s => parallelHandler s
  | .map s => mapHandler s

/-- The thread, and its machine's state at a path; `label` opens the refusals. -/
def stateOfThread (label subject : String) (thread : Thread)
    (path : StatePath) (undefined : String → String) : Handler State := do
  match ← machineForThread thread with
  | .error e => rejected .notFound s!"{label}: {subject} cannot resolve its machine: {e}"
  | .ok machine =>
    match machine.stateAt path with
    | .ok def_ => pure def_
    | .error e => rejected .notFound (undefined (toString e))

namespace ActivityElement

def open_ (owner : ObjectRef .activity) : Handler Unit := do
  if (← getActivity owner).isNone then
    rejected .notFound s!"activity_element: activity {owner} is gone"

/-- The message of a state the bound machine does not define. -/
def undefinedState (label : String) (path : String) (owner : ObjectRef .thread) (e : String) :
    String :=
  s!"{label}: state {path} is not defined by the machine that thread {owner} binds to: {e}"

/-- The owning thread and the state definition of an activity. -/
def stateOf (label : String) (activity : ObjectRef .activity) (act : Activity) :
    Handler (Thread × State) := do
  let owner := act.metadata.owner
  match ← getThread owner with
  | none =>
    rejected .notFound s!"{label}: owning thread {owner} of activity {activity} does not exist"
  | some thread =>
    let path := (← platform).showPath act.statePath
    let def_ ← stateOfThread label s!"thread {owner}" thread act.statePath
      (undefinedState label path owner)
    pure (thread, def_)

def handToState (activity : ObjectRef .activity) (act : Activity) (thread : Thread) (def_ : State)
    (child : RawObjectRef) : Handler Unit := do
  let _ ← getVariables thread.objectRef
  (handlerFor def_).childCompleted activity act child

/-- The kind of child a state owns. -/
def ownedKind : State → Option ObjectKind
  | .task _ => some .task
  | .parallel _ | .map _ => some .thread
  | _ => none

def settleChild (activity : ObjectRef .activity) (act : Activity) (thread : Thread) (def_ : State)
    (expected : ObjectKind) (child : RawObjectRef) : Handler Unit := do
  if child.kind ≠ expected then
    rejected .invalidState
      (s!"activity_element: activity {activity} settled a {child.kind} child {child} while " ++
        s!"{act.status.phase}; a state is settled only by the children it owns")
  else
    match act.status with
    | .running => handToState activity act thread def_ child
    | .completing => appendCommand (.continueComplete activity.raw)
    | .terminating _ => appendCommand (.continueTerminate activity.raw)
    | .completed | .terminated _ => pure ()

def afterChildCompleted (activity : ObjectRef .activity) (child : RawObjectRef) :
    Handler Unit := do
  match ← getActivity activity with
  | none =>
    rejected .invalidState
      s!"activity_element: activity {activity} is gone from under its settled child"
  | some act =>
    let (thread, def_) ← stateOf "activity_element" activity act
    match ownedKind def_ with
    | some expected => settleChild activity act thread def_ expected child
    | none =>
      rejected .invalidState
        (s!"activity_element: activity {activity} settled a child {child}, but state " ++
          s!"{(← platform).showPath act.statePath} owns no children")

def afterChildTerminated (activity : ObjectRef .activity) (child : RawObjectRef) : Handler Unit :=
  afterChildCompleted activity child

def onDeadlineFired (activity : ObjectRef .activity) (deadline : Timestamp) : Handler Unit := do
  match ← getActivity activity with
  | none =>
    rejected .invalidState
      s!"activity_element: activity {activity} is gone from under its deadline"
  | some act =>
    match act.status with
    | .running =>
      match (← stateOf "activity_element" activity act).2 with
      | .wait _ => appendCommand (.completeState ⟨activity, act.input.getD .null⟩)
      | .task _ =>
        if act.rawOutput.isSome then
          rejected .invalidState
            (s!"activity_element: activity {activity} fired a deadline at {deadline.millis} " ++
              "after its task settled")
        else
          appendCommand (.terminateState ⟨activity, .failed (.runtime (.timedOut
            s!"task ran past its TimeoutSeconds deadline ({deadline.millis})"))⟩)
      | _ =>
        rejected .invalidState
          s!"activity_element: activity {activity} fired a deadline, but its state owns none"
    | .completing => appendCommand (.continueComplete activity.raw)
    | .terminating _ => appendCommand (.continueTerminate activity.raw)
    | .completed | .terminated _ =>
      rejected .invalidState
        (s!"activity_element: activity {activity} fired a deadline at {deadline.millis} while " ++
          s!"{act.status.phase}")

/-- Sweep the live children of an activity that is closing. -/
def sweep (label : String) (node : ObjectRef .activity) (children : List RawObjectRef) :
    Handler Unit :=
  Prog.each (fun child =>
      match child.kind with
      | .thread => appendCommand (.terminateThread ⟨child.typed .thread, .cancelled⟩)
      | .task => appendCommand (.cancelTask (child.typed .task))
      | kind => panicked (s!"{label}: activity {node} owns a live {kind} child {child}; an " ++
        "activity's children are only a fan-out Thread or a Task"))
    children

def defersTermination : State → Bool
  | .task _ | .wait _ | .parallel _ | .map _ => true
  | _ => false

def defersCompletion : State → Bool
  | .parallel _ | .map _ | .task _ => true
  | _ => false

def continueTerminate (node : ObjectRef .activity) : Handler Unit := do
  match ← getActivity node with
  | none => rejected .notFound s!"continue_terminate: activity {node} not found"
  | some act =>
    if !act.status.isTerminating then
      rejected .invalidState
        (s!"continue_terminate: activity {node} is not terminating (status " ++
          s!"{(← platform).showStatus act.status})")
    else
      let children ← getChildren act.objectRef.raw
      if !children.isEmpty then sweep "continue_terminate" node children
      else
        let (thread, def_) ← stateOf "continue_terminate" node act
        if !defersTermination def_ then
          panicked s!"continue_terminate: activity {node} deferred on a state which owns no children"
        else
          let _ ← getVariables thread.objectRef
          (handlerFor def_).afterTerminating act

def continueComplete (node : ObjectRef .activity) : Handler Unit := do
  match ← getActivity node with
  | none => rejected .notFound s!"continue_complete: activity {node} not found"
  | some act =>
    if !act.status.isCompleting then
      rejected .invalidState
        (s!"continue_complete: activity {node} is not completing (status " ++
          s!"{(← platform).showStatus act.status})")
    else
      let children ← getChildren act.objectRef.raw
      if !children.isEmpty then sweep "continue_complete" node children
      else
        let (thread, def_) ← stateOf "continue_complete" node act
        if !defersCompletion def_ then
          panicked s!"continue_complete: activity {node} deferred on a state which owns no children"
        else
          let vars ← getVariables thread.objectRef
          (handlerFor def_).afterCompleting act vars

end ActivityElement

end Spica
