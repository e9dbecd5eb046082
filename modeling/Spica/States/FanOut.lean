import Mathlib.Data.List.Sort
import Spica.States.Base

/-! # The states that own threads: Parallel and Map -/

namespace Spica

/-- The completing step of a fan-out state, which must have drained first. -/
def fanOutAfterCompleting (label : String) (assign : Option AssignObject) (output : Option Json)
    (next : Option String) (end_ : Option Bool) (act : Activity) (vars : Variables) :
    Handler Unit := do
  let activity := act.objectRef
  if (← getActivity activity).isNone then
    rejected .notFound s!"{label}_state: activity {activity} not found"
  let children ← getChildren activity.raw
  if !children.isEmpty then
    rejected .invalidState
      s!"{label}_state: activity {activity} is completing with {children.length} live children"
  let aggregated := act.rawOutput.getD (.array [])
  let states := (finishStates act (some aggregated)).build
  match ← applyAssign act.metadata.owner assign states vars with
  | .error e => failState activity e
  | .ok scope =>
    match ← projectOutput output states scope aggregated with
    | .error e => failState activity e
    | .ok out =>
      closeCompleted act out
      if end_ = some true then
        appendCommand (.completeThread ⟨act.metadata.owner, out⟩)
      else
        match next with
        | some next => transitionTo act (act.statePath.sibling next) out
        | none => panicked s!"{label} state {activity} declares neither Next nor End"

/-- `TerminateThread` for every Thread among the children. -/
def terminateThreads (children : List RawObjectRef) : Handler Unit :=
  Prog.each (fun child => appendCommand (.terminateThread ⟨child.typed .thread, .cancelled⟩))
    (children.filter fun child => child.kind = .thread)

/-- The terminating step of a fan-out state: close when drained, sweep the threads otherwise. -/
def fanOutAfterTerminating (label : String) (act : Activity) : Handler Unit := do
  let activity := act.objectRef
  if (← getActivity activity).isNone then
    rejected .notFound s!"{label}_state: activity {activity} not found"
  let children ← getChildren activity.raw
  if children.isEmpty then
    ThreadElement.open_ act.metadata.owner
    closeTerminated act
  else
    terminateThreads children

/-- The fan-out map in index order. -/
def sortedByIndex (m : Table Nat (ObjectRef .thread)) : List (ObjectRef .thread) :=
  ((m.entries.map fun e => (e.1, e.2)).insertionSort fun a b => a.1 ≤ b.1).map Prod.snd

/-- A read whose failure counts as an absent row. -/
def found {α : Type} (read : Except StorageError (Option α)) : Option α := read.toOption.join

/-! ## Parallel -/

def parallelProcessInput (s : ParallelState) (act : Activity) (vars : Variables) (states : Json)
    (_ : Timestamp) : Handler (Except ExecutionError (Json × Activity)) := do
  match s.arguments with
  | none => pure (.ok (act.rawInput, act))
  | some arguments =>
    match ← evalJson arguments states vars with
    | .error e => pure (.error e)
    | .ok v => pure (.ok (v, act))

def parallelAfterActivated (s : ParallelState) (act : Activity) (_ : Variables) (_ : Json) :
    Handler (Except ExecutionError Unit) := do
  if s.branches.isEmpty then
    appendCommand (.completeState ⟨act.objectRef, .array []⟩)
  else
    Prog.each (fun (branch, index) =>
        appendCommand (.spawnThread
          { owner := act.objectRef
            execution := act.execution
            statePath := some (act.statePath.branch index)
            index := index
            startAt := branch.startAt
            input := act.input.getD .null }))
      s.branches.zipIdx
  pure (.ok ())

/-- What reading the branches in order ends in. -/
inductive BranchScan where
  | failed (reason : TerminationReason)
  | all (branches : List Thread)

def scanBranches : List (ObjectRef .thread) → Handler BranchScan
  | [] => pure (.all [])
  | ref :: rest => do
    match found (← peekThread ref) with
    | none => pure (.failed (.failed (.runtime (.stateNotFound s!"branch {ref}"))))
    | some child =>
      match child.status.terminationReason with
      | some reason => pure (.failed reason)
      | none =>
        match ← scanBranches rest with
        | .failed reason => pure (.failed reason)
        | .all branches => pure (.all (child :: branches))

def parallelChildCompleted (activity : ObjectRef .activity) (act : Activity) (_ : RawObjectRef) :
    Handler Unit := do
  match found (← peekActivity activity) with
  | none => pure ()
  | some row =>
    match row.activityState with
    | some (.parallel progress) =>
      match ← scanBranches (sortedByIndex progress.branches) with
      | .failed reason => appendCommand (.terminateState ⟨act.objectRef, reason⟩)
      | .all branches =>
        match ← peekChildren act.objectRef.raw with
        | .error _ => pure ()
        | .ok children =>
          if !children.isEmpty then pure ()
          else if branches.all Thread.isTerminal then
            appendCommand (.completeState
              ⟨activity, .array (branches.map fun b => b.output.getD .null)⟩)
          else appendCommand (.terminateState ⟨act.objectRef, .cancelled⟩)
    | _ => pure ()

def parallelHandler (s : ParallelState) : StateHandler where
  initialActivity := fun act => { act with activityState := some (.parallel ⟨∅⟩) }
  processInput := parallelProcessInput s
  afterActivated := parallelAfterActivated s
  completeDirectly := false
  childCompleted := parallelChildCompleted
  afterCompleting := fanOutAfterCompleting "parallel" s.assign s.output s.next s.end_
  afterTerminating := fanOutAfterTerminating "parallel"

/-! ## Map -/

def resolveMapItems (s : MapState) (act : Activity) (vars : Variables) (states : Json) :
    Handler (Except ExecutionError (List Json)) := do
  match s.items with
  | some (.array items) => pure (.ok items)
  | some (.expr e) =>
    match ← evalStringOrExpr e.text states vars with
    | .error e => pure (.error e)
    | .ok (.array items) => pure (.ok items)
    | .ok _ => pure (.error (.runtime (.invalidDefinition
        s!"Map '{act.statePath.stateName}' Items expression did not evaluate to an array")))
  | none =>
    match act.rawInput with
    | .array items => pure (.ok items)
    | _ => pure (.error (.runtime (.invalidDefinition
        s!"Map '{act.statePath.stateName}' has no Items and its input is not an array")))

def resolveMaxConcurrency (s : MapState) (vars : Variables) (states : Json) :
    Handler (Except ExecutionError Nat) := do
  match s.maxConcurrencyOr with
  | .int n =>
    if 0 ≤ n then pure (.ok n.toNat)
    else pure (.error (.runtime (.invalidDefinition
      "Map MaxConcurrency must be a non-negative integer")))
  | .expr e =>
    match ← evalStringOrExpr e.text states vars with
    | .error e => pure (.error e)
    | .ok (.number n) =>
      match ((← platform).wholeOf n).filter (0 ≤ ·) with
      | some n => pure (.ok n.toNat)
      | none => pure (.error (.runtime (.invalidDefinition
          "Map MaxConcurrency expression must evaluate to a non-negative integer")))
    | .ok _ => pure (.error (.runtime (.invalidDefinition
        "Map MaxConcurrency expression must evaluate to a non-negative integer")))

def mapProcessInput (s : MapState) (act : Activity) (vars : Variables) (states : Json)
    (_ : Timestamp) : Handler (Except ExecutionError (Json × Activity)) := do
  match ← resolveMapItems s act vars states with
  | .error e => pure (.error e)
  | .ok items =>
    match ← resolveMaxConcurrency s vars states with
    | .error e => pure (.error e)
    | .ok maxConcurrency =>
      pure (.ok (act.rawInput, { act with
        activityState := some (.map ⟨items, items.length, maxConcurrency, ∅⟩) }))

/-- `SpawnThread` for the items with the given indices. -/
def spawnItems (s : MapState) (act : Activity) (owner : ObjectRef .activity) (items : List Json)
    (indices : List Nat) : Handler Unit :=
  Prog.each (fun index =>
      appendCommand (.spawnThread
        { owner := owner
          execution := act.execution
          statePath := some act.statePath.itemProcessor
          index := index
          startAt := (s.itemProcessor.map (·.startAt)).getD ""
          input := items[index]?.getD .null }))
    indices

def mapAfterActivated (s : MapState) (act : Activity) (_ : Variables) (_ : Json) :
    Handler (Except ExecutionError Unit) := do
  match act.activityState with
  | some (.map progress) =>
    let initialBatch :=
      if progress.maxConcurrency = 0 then progress.total
      else min progress.maxConcurrency progress.total
    spawnItems s act act.objectRef progress.items (List.range initialBatch)
    if progress.total = 0 then
      appendCommand (.completeState ⟨act.objectRef, .array []⟩)
    pure (.ok ())
  | _ => pure (.ok ())

/-- Finished without a termination. -/
def Thread.succeeded (t : Thread) : Bool :=
  t.isTerminal && t.status.terminationReason.isNone

/-- How many of the items have succeeded. -/
def countSucceeded : List (ObjectRef .thread) → Handler Nat
  | [] => pure 0
  | ref :: rest => do
    let done := (found (← peekThread ref)).any Thread.succeeded
    let others ← countSucceeded rest
    pure (if done then others + 1 else others)

/-- `a - b` on `usize`: an underflow panics where it is checked and wraps otherwise. -/
def subUsize (a b : Nat) : Handler Nat := do
  if b ≤ a then pure (a - b)
  else if (← platform).debug then panicked "attempt to subtract with overflow"
  else pure (a + u64Size - b)

def mapChildCompleted (s : MapState) (activity : ObjectRef .activity) (act : Activity)
    (child : RawObjectRef) : Handler Unit := do
  match found (← peekActivity activity) with
  | none => pure ()
  | some row =>
    match row.activityState with
    | some (.map progress) =>
      let spawned := progress.children.entries.map Sigma.snd
      match spawned.find? fun ref => ref.raw = child with
      | none => pure ()
      | some ref =>
        if !(found (← peekThread ref)).any Thread.succeeded then
          failState act.objectRef (.runtime
            (.stateFailed act.statePath.stateName "Map item failed" .null))
        else
          let completedNow ← countSucceeded spawned
          if completedNow = progress.total then
            let outputs ← Prog.collect (fun ref => do
                pure (((found (← peekThread ref)).bind (·.output)).getD .null))
              (sortedByIndex progress.children)
            appendCommand (.completeState ⟨activity, .array outputs⟩)
          else
            let inFlight := spawned.length - completedNow
            let capacity :=
              if progress.maxConcurrency = 0 then progress.total else progress.maxConcurrency
            let remaining ← subUsize progress.total spawned.length
            let toSpawn := min (capacity - inFlight) remaining
            spawnItems s act activity progress.items
              ((List.range toSpawn).map (spawned.length + ·))
    | _ => pure ()

def mapHandler (s : MapState) : StateHandler where
  initialActivity := fun act => { act with activityState := some (.map ⟨[], 0, 0, ∅⟩) }
  processInput := mapProcessInput s
  afterActivated := mapAfterActivated s
  completeDirectly := false
  childCompleted := mapChildCompleted s
  afterCompleting := fanOutAfterCompleting "map" s.assign s.output s.next s.end_
  afterTerminating := fanOutAfterTerminating "map"

end Spica
