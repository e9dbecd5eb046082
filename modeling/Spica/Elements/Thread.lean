import Spica.Elements.Activity

/-! # Threads: spawn, complete, terminate and deferred closes -/

namespace Spica

namespace ThreadElement

/-- `open` of whichever container owns a thread. -/
def openOwner : ThreadOwner → Handler Unit
  | .execution r => ExecutionElement.open_ r
  | .activity r => ActivityElement.open_ r

def ownerAfterChildCompleted (owner : ThreadOwner) (child : RawObjectRef) : Handler Unit :=
  match owner with
  | .execution r => ExecutionElement.afterChildCompleted r child
  | .activity r => ActivityElement.afterChildCompleted r child

def ownerAfterChildTerminated (owner : ThreadOwner) (child : RawObjectRef) : Handler Unit :=
  match owner with
  | .execution r => ExecutionElement.afterChildTerminated r child
  | .activity r => ActivityElement.afterChildTerminated r child

/-- `TerminateState` for every child, all of which are activities. -/
def sweep (regression : RawObjectRef → String) (children : List RawObjectRef) : Handler Unit :=
  Prog.each (fun child =>
      match child.kind with
      | .activity => appendCommand (.terminateState ⟨child.typed .activity, .cancelled⟩)
      | _ => panicked (regression child))
    children

def terminate (p : TerminateThread) : Handler Unit := do
  match ← getThread p.thread with
  | none =>
    rejected .notFound
      s!"terminate_thread: thread {p.thread} does not exist; termination refused"
  | some row =>
    match row.markTerminating p.reason (← now) with
    | .error why =>
      rejected .invalidState
        s!"terminate_thread: thread {row.objectRef} cannot be terminated: {why}"
    | .ok terminating =>
      appendEvent (.threadTerminating terminating)
      let children ← getChildren row.objectRef.raw
      if children.isEmpty then
        let terminated := { row with
          status := .terminated p.reason
          metadata := row.metadata.withUpdateAt (← now) }
        openOwner row.metadata.owner
        appendEvent (.threadTerminated terminated)
        ownerAfterChildTerminated row.metadata.owner row.objectRef.raw
      else
        sweep (fun child => s!"engine regression: a Thread owns no {child.kind} child") children

def complete (p : CompleteThread) : Handler Unit := do
  match ← getThread p.thread with
  | none =>
    rejected .notFound
      s!"complete_thread: thread {p.thread} does not exist; completion refused"
  | some row =>
    if !row.status.isRunning then
      rejected .invalidState
        s!"complete_thread: thread {row.objectRef} is already {row.status.phase}; completion refused"
    else
      appendEvent (.threadCompleting { row with
        status := .completing
        output := some p.output
        metadata := row.metadata.withUpdateAt (← now) })
      let children ← getChildren row.objectRef.raw
      if children.isEmpty then
        let completed := { row with
          status := .completed
          output := some p.output
          metadata := row.metadata.withUpdateAt (← now) }
        openOwner row.metadata.owner
        appendEvent (.threadCompleted completed)
        ownerAfterChildCompleted row.metadata.owner row.objectRef.raw
      else
        rejected .invalidState
          (s!"complete_thread: thread {row.objectRef} still owns {children.length} live " ++
            "child(ren); completion refused")

/-- Relay to an owner that may be gone: only then is the relay skipped. -/
def relayIfOpen (owner : ThreadOwner) (relay : Handler Unit) : Handler Unit := do
  let opened ← Prog.handle (do openOwner owner; pure true) fun
    | .rejected _ _ => pure false
    | e => .fail e
  if opened then relay

def continueTerminate (node : ObjectRef .thread) : Handler Unit := do
  match ← getThread node with
  | none => rejected .notFound s!"continue_terminate: thread {node} not found"
  | some row =>
    match row.status with
    | .terminating reason =>
      let children ← getChildren row.objectRef.raw
      if !children.isEmpty then
        sweep (fun child => (s!"continue_terminate: thread {node} owns a live {child.kind} " ++
          s!"child {child}; a thread's children are only Activities"))
          children
      else
        appendEvent (.threadTerminated { row with
          status := .terminated reason
          metadata := row.metadata.withUpdateAt (← now) })
        relayIfOpen row.metadata.owner
          (ownerAfterChildTerminated row.metadata.owner node.raw)
    | status =>
      rejected .invalidState
        (s!"continue_terminate: thread {node} is not terminating (status " ++
          s!"{(← platform).showStatus status})")

def continueComplete (node : ObjectRef .thread) : Handler Unit := do
  match ← getThread node with
  | none => rejected .notFound s!"continue_complete: thread {node} not found"
  | some row =>
    if !row.status.isCompleting then
      rejected .invalidState
        (s!"continue_complete: thread {node} is not completing (status " ++
          s!"{(← platform).showStatus row.status})")
    else
      let children ← getChildren row.objectRef.raw
      if !children.isEmpty then
        sweep (fun child => (s!"continue_complete: thread {node} owns a live {child.kind} child " ++
          s!"{child}; a thread's children are only Activities"))
          children
      else
        appendEvent (.threadCompleted { row with
          status := .completed
          output := some (row.output.getD .null)
          metadata := row.metadata.withUpdateAt (← now) })
        relayIfOpen row.metadata.owner
          (ownerAfterChildCompleted row.metadata.owner node.raw)

/-- The thread a `SpawnThread` gives birth to. -/
def spawnedThread (p : SpawnThread) (path : StatePath) (uid : Ulid) (seq : Nat) (at_ : Timestamp) :
    Thread where
  metadata := .build uid (p.execution.name.base.generatedFromKey seq) at_ (.activity p.owner)
  execution := p.execution
  statePath := path
  startAt := p.startAt
  index := p.index
  status := .running
  input := p.input
  output := none

def spawn (p : SpawnThread) : Handler Unit := do
  match ← getActivity p.owner with
  | none => rejected .notFound s!"spawn_thread: owner activity {p.owner} not found"
  | some act =>
    if !act.status.isRunning then
      rejected .invalidState
        s!"spawn_thread: owner activity {p.owner} is {act.status.phase}, not Running; fan-out refused"
    else
      match ← getThread act.metadata.owner with
      | none =>
        rejected .notFound
          (s!"spawn_thread: owner activity {p.owner} names thread {act.metadata.owner}, which " ++
            "does not exist; fan-out refused")
      | some ownerThread =>
        let uid ← mint
        let seq ← nextGeneratedSeq
        match p.statePath with
        | none => panicked "a spawned thread always receives its state_path from the container"
        | some path =>
          let thread := spawnedThread p path uid seq (← now)
          appendEvent (.threadCreated thread)
          appendCommand (.activateState
            ⟨ownerThread.execution, thread.objectRef, path.state p.startAt, p.input⟩)

end ThreadElement

end Spica
