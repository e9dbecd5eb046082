import Spica.Lawful
import Spica.Outcome.Runs

/-! # The possible answers to a command

What a dispatch without faults can answer, in any build: for every command, the rows it finds, the
events and commands it emits and the values these carry. A settled object's owner reacts after the
last event of the answer, so its reaction is told from the rows the answer leaves behind.
-/

namespace Spica

/-- The machines a dispatch takes a flow version to stand for. -/
abbrev Machines : Type := ObjectRef .flowVersion → StateMachine → Prop

/-- The machine a thread is bound to has the state `d` at the path. -/
def Projection.Binds (M : Machines) (p : Projection) (thread : Thread) (path : StatePath)
    (d : State) : Prop :=
  ∃ exec machine, p.getExecution thread.execution = some exec ∧ M exec.flowVersion machine ∧
    machine.stateAt path = .ok d

/-! ## The reaction of an owner -/

namespace Projection

variable (p : Projection)

/-- What a thread does about a settled activity; `none` refuses it. -/
def threadTold (thread : ObjectRef .thread) (onRunning : List Command) : Option (List Command) :=
  match (p.getThread thread).map Thread.status with
  | some .running => some onRunning
  | some .completing => some [.continueComplete thread.raw]
  | some (.terminating _) => some [.continueTerminate thread.raw]
  | _ => none

/-- A running thread ends with its last activity. -/
def threadCompletion (thread : ObjectRef .thread) (child : ObjectRef .activity) : List Command :=
  [.completeThread ⟨thread, ((p.getActivity child).bind (·.output)).getD .null⟩]

def threadTermination (thread : ObjectRef .thread) (child : ObjectRef .activity) : List Command :=
  match ThreadElement.settledReason (p.getActivity child) with
  | none => []
  | some reason => [.terminateThread ⟨thread, reason⟩]

/-- What an execution does about its settled root thread; `none` refuses it. -/
def executionTold (execution : ObjectRef .execution) (onRunning : List Command) :
    Option (List Command) :=
  match (p.getExecution execution).map Execution.status with
  | some .running => some onRunning
  | some (.terminating _) => some [.continueTerminate execution.raw]
  | _ => none

def executionCompletion (execution : ObjectRef .execution) (child : ObjectRef .thread) :
    List Command :=
  [.completeExecution ⟨execution, ((p.getThread child).bind (·.output)).getD .null⟩]

def executionTermination (execution : ObjectRef .execution) (child : ObjectRef .thread) :
    List Command :=
  match (p.getThread child).bind (·.status.terminationReason) with
  | none => []
  | some reason => [.terminateExecution ⟨execution.name, some execution.uid, reason⟩]

/-- `scanBranches` on the rows. -/
def branchScan : List (ObjectRef .thread) → BranchScan
  | [] => .all []
  | ref :: rest =>
    match p.getThread ref with
    | none => .failed (.failed (.runtime (.stateNotFound s!"branch {ref}")))
    | some child =>
      match child.status.terminationReason with
      | some reason => .failed reason
      | none =>
        match branchScan rest with
        | .failed reason => .failed reason
        | .all branches => .all (child :: branches)

/-- What a running Parallel does about a settled branch. -/
def parallelReaction (activity : ObjectRef .activity) (act : Activity) : List Command :=
  match (p.getActivity activity).bind (·.activityState) with
  | some (.parallel progress) =>
    match p.branchScan (sortedByIndex progress.branches) with
    | .failed reason => [.terminateState ⟨act.objectRef, reason⟩]
    | .all branches =>
      if p.getChildren act.objectRef.raw ≠ [] then []
      else if branches.all Thread.isTerminal then
        [.completeState ⟨activity, .array (branches.map fun b => b.output.getD .null)⟩]
      else [.terminateState ⟨act.objectRef, .cancelled⟩]
  | _ => []

def succeededCount (refs : List (ObjectRef .thread)) : Nat :=
  refs.countP fun ref => (p.getThread ref).any Thread.succeeded

end Projection

/-- `a - b` on `usize`; `none` panics. -/
def subtracted (env : Env) (a b : Nat) : Option Nat :=
  if b ≤ a then some (a - b) else if env.debug then none else some (a + u64Size - b)

/-- The `SpawnThread` of the items with the given indices. -/
def itemSpawns (s : MapState) (act : Activity) (owner : ObjectRef .activity) (items : List Json)
    (indices : List Nat) : List Command :=
  indices.map fun index => .spawnThread
    { owner := owner
      execution := act.execution
      statePath := some act.statePath.itemProcessor
      index := index
      startAt := (s.itemProcessor.map (·.startAt)).getD ""
      input := items[index]?.getD .null }

/-- What a running Map does about a settled item. -/
def Projection.mapReaction (env : Env) (p : Projection) (s : MapState)
    (activity : ObjectRef .activity) (act : Activity) (child : RawObjectRef) :
    Option (List Command) :=
  match (p.getActivity activity).bind (·.activityState) with
  | some (.map progress) =>
    let spawned := progress.children.entries.map Sigma.snd
    match spawned.find? fun ref => ref.raw = child with
    | none => some []
    | some ref =>
      if !(p.getThread ref).any Thread.succeeded then
        some [.terminateState ⟨act.objectRef, .failed (.runtime
          (.stateFailed act.statePath.stateName "Map item failed" .null))⟩]
      else if p.succeededCount spawned = progress.total then
        some [.completeState ⟨activity, .array ((sortedByIndex progress.children).map
          fun ref => ((p.getThread ref).bind (·.output)).getD .null)⟩]
      else
        let inFlight := spawned.length - p.succeededCount spawned
        let capacity :=
          if progress.maxConcurrency = 0 then progress.total else progress.maxConcurrency
        (subtracted env progress.total spawned.length).map fun remaining =>
          itemSpawns s act activity progress.items
            ((List.range (min (capacity - inFlight) remaining)).map (spawned.length + ·))
  | _ => some []

/-- The state of a running activity is handed a settled child. -/
def Reacts (env : Env) (p : Projection) (d : State) (activity : ObjectRef .activity)
    (act : Activity) (child : RawObjectRef) (cs : List Command) : Prop :=
  match d with
  | .task _ => cs = [.completeState ⟨activity, act.rawOutput.getD .null⟩]
  | .parallel _ => cs = p.parallelReaction activity act
  | .map s => p.mapReaction env s activity act child = some cs
  | _ => False

/-- An activity is told of a settled child. -/
structure ActivityTold (env : Env) (M : Machines) (p : Projection) (activity : ObjectRef .activity)
    (act : Activity) (thread : Thread) (d : State) (child : RawObjectRef) (cs : List Command) :
    Prop where
  found : p.getActivity activity = some act
  owner : p.getThread act.metadata.owner = some thread
  defines : p.Binds M thread act.statePath d
  kind : ActivityElement.ownedKind d = some child.kind
  reaction : match act.status with
    | .running => Reacts env p d activity act child cs
    | .completing => cs = [.continueComplete activity.raw]
    | .terminating _ => cs = [.continueTerminate activity.raw]
    | .completed | .terminated _ => cs = []

/-- The owner of a thread is told that it is completed. -/
def CompletedTold (env : Env) (M : Machines) (p : Projection) (owner : ThreadOwner)
    (child : ObjectRef .thread) (cs : List Command) : Prop :=
  match owner with
  | .execution r => p.executionTold r (p.executionCompletion r child) = some cs
  | .activity r => ∃ act thread d, ActivityTold env M p r act thread d child.raw cs

/-- The owner of a thread is told that it is terminated. -/
def TerminatedTold (env : Env) (M : Machines) (p : Projection) (owner : ThreadOwner)
    (child : ObjectRef .thread) (cs : List Command) : Prop :=
  match owner with
  | .execution r => p.executionTold r (p.executionTermination r child) = some cs
  | .activity r => ∃ act thread d, ActivityTold env M p r act thread d child.raw cs

/-- The owner of a thread is told that it has ended, whichever way. -/
def OwnerTold (env : Env) (M : Machines) (p : Projection) (owner : ThreadOwner)
    (child : ObjectRef .thread) (cs : List Command) : Prop :=
  CompletedTold env M p owner child cs ∨ TerminatedTold env M p owner child cs

theorem OwnerTold.activity {env M p r child cs} (told : OwnerTold env M p (.activity r) child cs) :
    ∃ act thread d, ActivityTold env M p r act thread d child.raw cs := told.elim id id

/-- The owner of a thread has a row. -/
def Projection.HasOwner (p : Projection) : ThreadOwner → Prop
  | .execution r => p.getExecution r ≠ none
  | .activity r => p.getActivity r ≠ none

/-! ## Cancelling children -/

/-- The command that takes a child down with its parent. -/
def cancelOf (child : RawObjectRef) : Command :=
  match child.kind with
  | .thread => .terminateThread ⟨child.typed .thread, .cancelled⟩
  | .activity => .terminateState ⟨child.typed .activity, .cancelled⟩
  | _ => .cancelTask (child.typed .task)

/-- The commands that cancel all children, which are of the given kinds. -/
def Sweeps (p : Projection) (parent : RawObjectRef) (kinds : List ObjectKind) (cs : List Command) :
    Prop :=
  ∃ children : List RawObjectRef, children.Perm (p.getChildren parent) ∧
    (∀ child ∈ children, child.kind ∈ kinds) ∧ cs = children.map cancelOf

/-- The commands that cancel the children of one kind. -/
def Picks (p : Projection) (parent : RawObjectRef) (kind : ObjectKind) (cs : List Command) : Prop :=
  ∃ children : List RawObjectRef, children.Perm (p.getChildren parent) ∧
    cs = (children.filter fun child => child.kind = kind).map cancelOf

/-! ## How a state ends -/

/-- What `apply_assign` evaluates to and announces. -/
inductive Assigns (env : Env) (owner : ObjectRef .thread) (states : Json) (scope : Variables) :
    Option AssignObject → Except ExecutionError Variables → List Deed → Prop
  | nothing : Assigns env owner states scope none (.ok scope) []
  | failed {a e} (evaluated : Yields env (evalJson (.object a.fields) states scope) (.error e)) :
      Assigns env owner states scope (some a) (.error e) []
  | empty {a}
      (evaluated : Yields env (evalJson (.object a.fields) states scope) (.ok (.object []))) :
      Assigns env owner states scope (some a) (.ok scope) []
  | bound {a fields} (some_ : fields ≠ [])
      (evaluated : Yields env (evalJson (.object a.fields) states scope) (.ok (.object fields))) :
      Assigns env owner states scope (some a) (.ok (scope.bindAll fields))
        [.event (.variablesAssigned owner (scope.bindAll fields))]

/-- Assign, then project the output. -/
inductive Projects (env : Env) (owner : ObjectRef .thread) (states : Json) (scope : Variables)
    (assign : Option AssignObject) (output : Option Json) (fallback : Json) :
    Except ExecutionError Json → List Deed → Prop
  | unassigned {e ds} (assigns : Assigns env owner states scope assign (.error e) ds) :
      Projects env owner states scope assign output fallback (.error e) ds
  | assigned {scope' ds r} (assigns : Assigns env owner states scope assign (.ok scope') ds)
      (projected : Yields env (projectOutput output states scope' fallback) r) :
      Projects env owner states scope assign output fallback r ds

/-- How the completing step of a state ends. -/
inductive Ending where
  /-- an expression failed -/
  | fails (e : ExecutionError)
  /-- on to a successor -/
  | moves (next : StatePath) (output : Json)
  /-- the thread ends here -/
  | ends (output : Json)
  /-- a Succeed state, whose thread is told -/
  | succeeds (output : Json)
  /-- a Fail state, or a state without a route -/
  | breaks (reason : TerminationReason)

/-- What an ending emits, given the activity and the rows it leaves behind. -/
inductive Ending.Emits (env : Env) (act : Activity) (p' : Projection) : Ending → List Deed → Prop
  | fails {e} : Emits env act p' (.fails e) [.command (.terminateState ⟨act.objectRef, .failed e⟩)]
  | moves {next output completed} (closes : Asserted env act (act.markCompleted output) completed) :
      Emits env act p' (.moves next output) [.event (.stateCompleted completed),
        .event (.stateTransitioned act.objectRef next),
        .command (.activateState ⟨act.execution, act.metadata.owner, next, output⟩)]
  | ends {output completed} (closes : Asserted env act (act.markCompleted output) completed) :
      Emits env act p' (.ends output) [.event (.stateCompleted completed),
        .command (.completeThread ⟨act.metadata.owner, output⟩)]
  | succeeds {output completed cs}
      (closes : Asserted env act (act.markCompleted output) completed)
      (told : p'.threadTold act.metadata.owner
        (p'.threadCompletion act.metadata.owner act.objectRef) = some cs) :
      Emits env act p' (.succeeds output) (.event (.stateCompleted completed) :: cs.map .command)
  | breaks {reason terminating terminated cs}
      (opens : Asserted env act (act.markTerminating reason) terminating)
      (closes : Asserted env terminating terminating.markTerminated terminated)
      (told : p'.threadTold act.metadata.owner
        (p'.threadTermination act.metadata.owner act.objectRef) = some cs) :
      Emits env act p' (.breaks reason) (.event (.stateTerminating terminating) ::
        .event (.stateTerminated terminated) :: cs.map .command)

/-- Assign, project the output, and take the route. -/
def Finishes (env : Env) (act : Activity) (vars : Variables) (states : Json)
    (assign : Option AssignObject) (output : Option Json) (fallback : Json)
    (route : Json → Option Ending) (ds : List Deed) (ending : Ending) : Prop :=
  ∃ r, Projects env act.metadata.owner states vars assign output fallback r ds ∧
    match r with
    | .error e => ending = .fails e
    | .ok out => route out = some ending

/-- The route of a Pass, Wait or Task state. -/
def routeOf (next : Option String) (end_ : Option Bool) (act : Activity) (out : Json) : Ending :=
  if end_ = some true then .ends out
  else match next with
    | some next => .moves (act.statePath.sibling next) out
    | none => .breaks (.failed (.runtime .noTerminal))

/-- The route of a fan-out state, which panics without one. -/
def fanOutRoute (next : Option String) (end_ : Option Bool) (act : Activity) (out : Json) :
    Option Ending :=
  if end_ = some true then some (.ends out)
  else next.map fun next => .moves (act.statePath.sibling next) out

/-- What the completing step of a state assigns, and how it ends. -/
def Concludes (env : Env) (d : State) (act : Activity) (vars : Variables) (ds : List Deed)
    (ending : Ending) : Prop :=
  let result := act.rawOutput.getD act.rawInput
  let aggregated := act.rawOutput.getD (.array [])
  match d with
  | .pass s => Finishes env act vars (finishStates act (some result)).build s.assign s.output result
      (some ∘ routeOf s.next s.end_ act) ds ending
  | .wait s => Finishes env act vars (finishStates act (some result)).build s.assign s.output result
      (some ∘ routeOf s.next s.end_ act) ds ending
  | .task s => Finishes env act vars (finishStates act (some result)).build s.assign s.output result
      (some ∘ routeOf s.next s.end_ act) ds ending
  | .choice s => ∃ r, Yields env (resolveChoice s (finishStates act none).build vars
        act.statePath.stateName) r ∧
      match r with
      | .error e => ds = [] ∧ ending = .fails e
      | .ok (assign, output, next) => Finishes env act vars (finishStates act none).build
          (assign.or s.assign) (output.or s.output) act.rawInput
          (fun out => some (.moves (act.statePath.sibling next) out)) ds ending
  | .succeed s => ds = [] ∧ ∃ r, Yields env (processSucceed s act vars) r ∧
      match r with
      | .error e => ending = .fails e
      | .ok out => ending = .succeeds out
  | .fail s => ds = [] ∧ ∃ r, Yields env (processFail s act vars) r ∧
      match r with
      | .error e => ending = .fails e
      | .ok reason => ending = .breaks reason
  | .parallel s => Finishes env act vars (finishStates act (some aggregated)).build s.assign
      s.output aggregated (fanOutRoute s.next s.end_ act) ds ending
  | .map s => Finishes env act vars (finishStates act (some aggregated)).build s.assign
      s.output aggregated (fanOutRoute s.next s.end_ act) ds ending

/-- An activity closes as terminated and its thread is told. -/
inductive Closes (env : Env) (act : Activity) (p' : Projection) : List Deed → Prop
  | intro {terminated cs} (closes : Asserted env act act.markTerminated terminated)
      (told : p'.threadTold act.metadata.owner
        (p'.threadTermination act.metadata.owner act.objectRef) = some cs) :
      Closes env act p' (.event (.stateTerminated terminated) :: cs.map .command)

/-- The terminating step of a state: it closes when it has drained, and cancels its children
    otherwise. `p` are the rows the children are read from. -/
def Terminates (env : Env) (d : State) (act : Activity) (p p' : Projection) (ds : List Deed) :
    Prop :=
  match d with
  | .task _ => ∃ cs, Picks p act.objectRef.raw .task cs ∧
      (cs = [] ∧ Closes env act p' ds ∨ cs ≠ [] ∧ ds = cs.map .command)
  | .parallel _ | .map _ =>
    p.getChildren act.objectRef.raw = [] ∧ Closes env act p' ds ∨
    p.getChildren act.objectRef.raw ≠ [] ∧
      ∃ cs, Picks p act.objectRef.raw .thread cs ∧ ds = cs.map .command
  | _ => Closes env act p' ds

/-! ## How a state starts -/

/-- What entering a state asks for, with the suffix the next name gets. -/
def Launches (env : Env) (d : State) (act : Activity) (vars : Variables) (states : Json)
    (seq : Nat) (ds : List Deed) (r : Except ExecutionError Unit) : Prop :=
  match d with
  | .task s => ∃ at_ uid resolved,
      Yields env (resolveTaskDeadline s.timeoutSeconds vars states at_) resolved ∧
      r = resolved.map (fun _ => ()) ∧
      ds = [.take, .command (.activateTask
        { execution := act.execution
          owner := act.objectRef
          task := ⟨act.execution.name.base.generatedFromKey seq, uid⟩
          resource := s.resource
          arguments := act.input.getD .null
          retryPlan := (s.retry.getD []).map RetryPolicy.resolve
          deadline := resolved.toOption.join })]
  | .parallel s => r = .ok () ∧
      ds = if s.branches.isEmpty then [.command (.completeState ⟨act.objectRef, .array []⟩)]
        else s.branches.zipIdx.map fun b => .command (.spawnThread
          { owner := act.objectRef
            execution := act.execution
            statePath := some (act.statePath.branch b.2)
            index := b.2
            startAt := b.1.startAt
            input := act.input.getD .null })
  | .map s => r = .ok () ∧
      match act.activityState with
      | some (.map progress) =>
        ds = (itemSpawns s act act.objectRef progress.items (List.range
            (if progress.maxConcurrency = 0 then progress.total
              else min progress.maxConcurrency progress.total))).map .command ++
          if progress.total = 0 then [.command (.completeState ⟨act.objectRef, .array []⟩)]
          else []
      | _ => ds = []
  | _ => r = .ok () ∧ ds = []

/-- What follows the launch. -/
def afterLaunch (d : State) (activity : ObjectRef .activity) (input : Json) :
    Except ExecutionError Unit → List Deed
  | .error e => [.command (.terminateState ⟨activity, .failed e⟩)]
  | .ok () =>
    if (handlerFor d).completeDirectly then [.command (.completeState ⟨activity, input⟩)] else []

/-- The `$states` a starting activity is evaluated under. -/
def startStates (act : Activity) : Json :=
  States.build
    { input := act.rawInput
      stateName := act.statePath.stateName
      retryCount := act.retryCount }

/-! ## All commands -/

/-- The absolute deadline of a run. -/
def RunDue (machine : StateMachine) (deadline : Option Timestamp) : Prop :=
  match machine.timeoutSeconds.filter (0 < ·) with
  | none => deadline = none
  | some seconds => ∃ at_ due : Timestamp, at_.checkedAdd seconds.toNat = some due ∧
      deadline = some due

/-- The activity an `ActivateState` gives birth to, as its state prepares it. -/
def enteredActivity (d : State) (c : ActivateState) (uid : Ulid) (seq : Nat) (at_ : Timestamp) :
    Activity :=
  (handlerFor d).initialActivity (StateHandler.newActivity c uid seq at_)

/-- The answers a dispatch can give to a command: `p` are the rows it starts from, `p'` those it
    leaves behind. -/
inductive Outcome (env : Env) (M : Machines) (p p' : Projection) : Command → List Deed → Prop
  | flowKnown {c f r} (known : p.getFlowByName c.name = some f) :
      Outcome env M p p' (.createFlow c) [.reject r]
  | flowCreated {c machine flowUid versionUid at_} (parsed : env.parse c.definition = .ok machine)
      (unused : p.getFlowByName c.name = none) :
      Outcome env M p p' (.createFlow c)
        [.event (.flowCreated c.requestId (.new flowUid c.name at_)),
          .event (.flowVersionCreated c.requestId (.new versionUid ⟨.plain c.name, flowUid⟩ c.name 1
            c.definition (env.checksum c.definition) at_))]
  | executionCreated {c machine uid rootUid deadline at_ at_' root}
      (unused : p.getExecution ⟨c.name, .nil⟩ = none) (bound : M c.flowVersion machine)
      (due : RunDue machine deadline)
      (isRoot : root = ExecutionElement.rootThread c ⟨c.name, uid⟩ machine.startAt rootUid
        p.nextGeneratedSeq at_') :
      Outcome env M p p' (.createExecution c)
        [.event (.executionCreated c.requestId
            (ExecutionElement.createdExecution c uid deadline at_)), .take,
          .event (.threadCreated root), .command (.activateState
            ⟨⟨c.name, uid⟩, root.objectRef, StatePath.root.state machine.startAt, c.input⟩)]
  | threadSpawned {c act thread path uid at_ spawned} (found : p.getActivity c.owner = some act)
      (running : act.status = .running) (owner : p.getThread act.metadata.owner = some thread)
      (path_ : c.statePath = some path)
      (isSpawned : spawned = ThreadElement.spawnedThread c path uid p.nextGeneratedSeq at_) :
      Outcome env M p p' (.spawnThread c)
        [.take, .event (.threadCreated spawned), .command (.activateState
          ⟨thread.execution, spawned.objectRef, path.state c.startAt, c.input⟩)]
  | executionCompleted {c exec completing completed at_}
      (found : p.getExecution c.execution = some exec)
      (opens : exec.markCompleting c.output at_ = .ok completing)
      (drained : p.getChildren exec.objectRef.raw = [])
      (closes : Asserted env completing completing.markCompleted completed) :
      Outcome env M p p' (.completeExecution c)
        [.event (.executionCompleting completing), .event (.executionCompleted completed)]
  | executionTerminated {c exec terminating terminated at_ at_'}
      (found : p.getExecution ⟨c.name, c.uid.getD .nil⟩ = some exec)
      (uid : ∀ want, c.uid = some want → want = exec.metadata.uid)
      (opens : exec.markTerminating c.reason at_ = .ok terminating)
      (drained : p.getChildren exec.objectRef.raw = [])
      (closes : terminating.markTerminated at_' = .ok terminated) :
      Outcome env M p p' (.terminateExecution c)
        [.event (.executionTerminating terminating), .event (.executionTerminated terminated)]
  | executionSwept {c exec terminating at_ cs}
      (found : p.getExecution ⟨c.name, c.uid.getD .nil⟩ = some exec)
      (uid : ∀ want, c.uid = some want → want = exec.metadata.uid)
      (opens : exec.markTerminating c.reason at_ = .ok terminating)
      (busy : p.getChildren exec.objectRef.raw ≠ [])
      (sweeps : Sweeps p exec.objectRef.raw [.thread] cs) :
      Outcome env M p p' (.terminateExecution c)
        (.event (.executionTerminating terminating) :: cs.map .command)
  | threadCompleted {c row completing completed at_ at_' cs}
      (found : p.getThread c.thread = some row) (running : row.status = .running)
      (drained : p.getChildren row.objectRef.raw = []) (opens : completing = { row with
        status := .completing, output := some c.output, metadata := row.metadata.withUpdateAt at_ })
      (closes : completed = { row with
        status := .completed, output := some c.output, metadata := row.metadata.withUpdateAt at_' })
      (told : CompletedTold env M p' row.metadata.owner row.objectRef cs) :
      Outcome env M p p' (.completeThread c)
        (.event (.threadCompleting completing) :: .event (.threadCompleted completed) ::
          cs.map .command)
  | threadTerminated {c row terminating terminated at_ at_' cs}
      (found : p.getThread c.thread = some row)
      (opens : row.markTerminating c.reason at_ = .ok terminating)
      (drained : p.getChildren row.objectRef.raw = []) (closes : terminated = { row with
        status := .terminated c.reason, metadata := row.metadata.withUpdateAt at_' })
      (told : TerminatedTold env M p' row.metadata.owner row.objectRef cs) :
      Outcome env M p p' (.terminateThread c)
        (.event (.threadTerminating terminating) :: .event (.threadTerminated terminated) ::
          cs.map .command)
  | threadSwept {c row terminating at_ cs} (found : p.getThread c.thread = some row)
      (opens : row.markTerminating c.reason at_ = .ok terminating)
      (busy : p.getChildren row.objectRef.raw ≠ [])
      (sweeps : Sweeps p row.objectRef.raw [.activity] cs) :
      Outcome env M p p' (.terminateThread c)
        (.event (.threadTerminating terminating) :: cs.map .command)
  | stateRefused {c thread d uid at_ at_' act e} (found : p.getThread c.owner = some thread)
      (running : thread.status = .running) (defines : p.Binds M thread c.statePath d)
      (isNew : act = enteredActivity d c uid p.nextGeneratedSeq at_)
      (input : Yields env ((handlerFor d).processInput act (p.getVariables thread.objectRef)
        (startStates act) at_') (.error e)) :
      Outcome env M p p' (.activateState c) [.take, .event (.stateActivating act),
        .command (.terminateState ⟨act.objectRef, .failed e⟩)]
  | stateEntered {c thread d uid at_ at_' at_'' act prepared activated v ds r}
      (found : p.getThread c.owner = some thread) (running : thread.status = .running)
      (defines : p.Binds M thread c.statePath d)
      (isNew : act = enteredActivity d c uid p.nextGeneratedSeq at_)
      (input : Yields env ((handlerFor d).processInput act (p.getVariables thread.objectRef)
        (startStates act) at_') (.ok (v, prepared))) (isActivated : activated = { prepared with
        input := some v, metadata := prepared.metadata.withUpdateAt at_'' })
      (launches : Launches env d activated (p.getVariables thread.objectRef) (startStates act)
        (p.nextGeneratedSeq + 1) ds r) :
      Outcome env M p p' (.activateState c)
        (.take :: .event (.stateActivating act) :: .event (.stateActivated activated) :: ds ++
          afterLaunch d act.objectRef v r)
  | stateCompleted {c act completing thread d at_ as ds ending}
      (found : p.getActivity c.activity = some act)
      (owner : p.getThread act.metadata.owner = some thread) (running : thread.status = .running)
      (defines : p.Binds M thread act.statePath d)
      (opens : act.markCompleting c.output at_ = .ok completing)
      (drained : d.fansOut → p.getChildren completing.objectRef.raw = [])
      (concludes : Concludes env d completing (p.getVariables thread.objectRef) as ending)
      (emits : ending.Emits env completing p' ds) :
      Outcome env M p p' (.completeState c) (.event (.stateCompleting completing) :: as ++ ds)
  | stateCaught {c act thread s error catcher as output cs at_ caught}
      (found : p.getActivity c.activity = some act)
      (live : act.status = .running ∨ act.status = .completing)
      (owner : p.getThread act.metadata.owner = some thread)
      (defines : p.Binds M thread act.statePath (.task s)) (reason : c.reason = .failed error)
      (matched : (s.catch_.getD []).find? (fun c => error.matchesErrorNames c.errorEquals) =
        some catcher) (projects : Projects env act.metadata.owner (catchStates act error)
        (p.getVariables act.metadata.owner) catcher.assign catcher.output
        (act.rawOutput.getD act.rawInput) (.ok output) as)
      (cancels : Picks p act.objectRef.raw .task cs)
      (isCaught : caught = caughtActivity act output at_) :
      Outcome env M p p' (.terminateState c) (as ++ cs.map .command ++
        [.event (.stateCompleted caught),
          .event (.stateTransitioned act.objectRef (act.statePath.sibling catcher.next)),
          .command (.activateState ⟨act.execution, act.metadata.owner,
            act.statePath.sibling catcher.next, output⟩)])
  | catchFailed {c act thread s error e catcher as} (found : p.getActivity c.activity = some act)
      (live : act.status = .running ∨ act.status = .completing)
      (owner : p.getThread act.metadata.owner = some thread)
      (defines : p.Binds M thread act.statePath (.task s)) (reason : c.reason = .failed error)
      (matched : (s.catch_.getD []).find? (fun c => error.matchesErrorNames c.errorEquals) =
        some catcher) (projects : Projects env act.metadata.owner (catchStates act error)
        (p.getVariables act.metadata.owner) catcher.assign catcher.output
        (act.rawOutput.getD act.rawInput) (.error e) as) :
      Outcome env M p p' (.terminateState c)
        (as ++ [.command (.terminateState ⟨act.objectRef, .failed e⟩)])
  | stateTerminated {c act terminating thread d at_ ds}
      (found : p.getActivity c.activity = some act)
      (live : act.status = .running ∨ act.status = .completing)
      (owner : p.getThread act.metadata.owner = some thread)
      (defines : p.Binds M thread act.statePath d)
      (uncaught : ∀ s error, d = .task s → c.reason = .failed error →
        (s.catch_.getD []).find? (fun c => error.matchesErrorNames c.errorEquals) = none)
      (opens : act.markTerminating c.reason at_ = .ok terminating)
      (terminates : Terminates env d terminating p p' ds) :
      Outcome env M p p' (.terminateState c) (.event (.stateTerminating terminating) :: ds)
  | taskActivated {c at_} :
      Outcome env M p p' (.activateTask c) [.event (.taskActivated (TaskElement.newTask c at_))]
  | tasksClaimed {c at_ due tasks} (lease : at_.checkedAdd c.leaseSeconds = some due)
      (granted : ∃ all : List Task, all.Perm (p.claimable c.resource at_) ∧
        tasks = all.take c.maxTasks) :
      Outcome env M p p' (.claimTasks c) [.event (.tasksClaimed c.requestId
        (tasks.map fun t => t.claim c.workerId due at_))]
  | taskCompleted {c row completed at_ act thread d cs} (found : p.getTask c.task = some row)
      (closes : row.markCompleted env.showWorker c.workerId at_ = .ok completed)
      (told : ActivityTold env M p' row.metadata.owner act thread d c.task.raw cs) :
      Outcome env M p p' (.completeTask c)
        (.event (.taskCompleted c.requestId completed c.output) :: cs.map .command)
  | taskFailed {c row failed at_ outcome} (found : p.getTask c.task = some row)
      (fails : row.handleFailure env.showWorker env.backoff env.debug c.workerId c.error at_ =
        .ok (failed, outcome)) :
      Outcome env M p p' (.failTask c) (.event (.taskFailed failed c.error) ::
        if outcome = .terminal then
          [.command (.terminateState ⟨row.metadata.owner, .failed c.error⟩)]
        else [])
  | taskCancelled {task row cancelled at_ act thread d cs} (found : p.getTask task = some row)
      (closes : row.markCancelled at_ = .ok cancelled)
      (told : ActivityTold env M p' row.metadata.owner act thread d task.raw cs) :
      Outcome env M p p' (.cancelTask task) (.event (.taskCancelled cancelled) :: cs.map .command)
  | executionTimedOut {r deadline exec cmd} (found : p.getExecution r = some exec)
      (reaction : match exec.status with
        | .running => cmd = .terminateExecution ⟨r.name, some r.uid, .failed (.runtime (.timedOut
            s!"execution ran past its TimeoutSeconds deadline ({deadline.millis})"))⟩
        | .completing => cmd = .continueComplete r.raw
        | .terminating _ => cmd = .continueTerminate r.raw
        | _ => False) : Outcome env M p p' (.triggerDeadline (.execution r) deadline) [.command cmd]
  | activityTimedOut {r deadline act cmd} (found : p.getActivity r = some act)
      (reaction : match act.status with
        | .running => ∃ thread d, p.getThread act.metadata.owner = some thread ∧
            p.Binds M thread act.statePath d ∧
            match d with
            | .wait _ => cmd = .completeState ⟨r, act.input.getD .null⟩
            | .task _ => act.rawOutput = none ∧ cmd = .terminateState ⟨r, .failed (.runtime
                (.timedOut s!"task ran past its TimeoutSeconds deadline ({deadline.millis})"))⟩
            | _ => False
        | .completing => cmd = .continueComplete r.raw
        | .terminating _ => cmd = .continueTerminate r.raw
        | _ => False) : Outcome env M p p' (.triggerDeadline (.activity r) deadline) [.command cmd]
  | activitySwept {r act c cs} (kind : r.kind = .activity)
      (found : p.getActivity (r.typed .activity) = some act)
      (phase : c = .continueComplete r ∧ act.status = .completing ∨
        c = .continueTerminate r ∧ ∃ reason, act.status = .terminating reason)
      (busy : p.getChildren act.objectRef.raw ≠ [])
      (sweeps : Sweeps p act.objectRef.raw [.thread, .task] cs) :
      Outcome env M p p' c (cs.map .command)
  | threadSweptAgain {r row c cs} (kind : r.kind = .thread)
      (found : p.getThread (r.typed .thread) = some row)
      (phase : c = .continueComplete r ∧ row.status = .completing ∨
        c = .continueTerminate r ∧ ∃ reason, row.status = .terminating reason)
      (busy : p.getChildren row.objectRef.raw ≠ [])
      (sweeps : Sweeps p row.objectRef.raw [.activity] cs) : Outcome env M p p' c (cs.map .command)
  | executionSweptAgain {r exec reason cs} (kind : r.kind = .execution)
      (found : p.getExecution (r.typed .execution) = some exec)
      (phase : exec.status = .terminating reason) (busy : p.getChildren exec.objectRef.raw ≠ [])
      (sweeps : Sweeps p exec.objectRef.raw [.thread] cs) :
      Outcome env M p p' (.continueTerminate r) (cs.map .command)
  | activityConcluded {r act thread d as ds ending} (kind : r.kind = .activity)
      (found : p.getActivity (r.typed .activity) = some act) (phase : act.status = .completing)
      (drained : p.getChildren act.objectRef.raw = [])
      (owner : p.getThread act.metadata.owner = some thread)
      (defines : p.Binds M thread act.statePath d) (defers : ActivityElement.defersCompletion d)
      (concludes : Concludes env d act (p.getVariables thread.objectRef) as ending)
      (emits : ending.Emits env act p' ds) : Outcome env M p p' (.continueComplete r) (as ++ ds)
  | threadClosedCompleted {r row completed at_ cs} (kind : r.kind = .thread)
      (found : p.getThread (r.typed .thread) = some row) (phase : row.status = .completing)
      (drained : p.getChildren row.objectRef.raw = []) (closes : completed = { row with
        status := .completed, output := some (row.output.getD .null)
        metadata := row.metadata.withUpdateAt at_ }) (told : p'.HasOwner row.metadata.owner ∧
          CompletedTold env M p' row.metadata.owner (r.typed .thread) cs ∨
        ¬p'.HasOwner row.metadata.owner ∧ cs = []) :
      Outcome env M p p' (.continueComplete r)
        (.event (.threadCompleted completed) :: cs.map .command)
  | executionClosedCompleted {r exec completed at_} (kind : r.kind = .execution)
      (found : p.getExecution (r.typed .execution) = some exec)
      (drained : p.getChildren exec.objectRef.raw = [])
      (closes : exec.markCompleted at_ = .ok completed) :
      Outcome env M p p' (.continueComplete r) [.event (.executionCompleted completed)]
  | activityClosedTerminated {r act reason thread d ds} (kind : r.kind = .activity)
      (found : p.getActivity (r.typed .activity) = some act)
      (phase : act.status = .terminating reason) (drained : p.getChildren act.objectRef.raw = [])
      (owner : p.getThread act.metadata.owner = some thread)
      (defines : p.Binds M thread act.statePath d) (defers : ActivityElement.defersTermination d)
      (terminates : Terminates env d act p p' ds) : Outcome env M p p' (.continueTerminate r) ds
  | threadClosedTerminated {r row terminated reason at_ cs} (kind : r.kind = .thread)
      (found : p.getThread (r.typed .thread) = some row)
      (phase : row.status = .terminating reason) (drained : p.getChildren row.objectRef.raw = [])
      (closes : terminated = { row with
        status := .terminated reason, metadata := row.metadata.withUpdateAt at_ })
      (told : p'.HasOwner row.metadata.owner ∧
          TerminatedTold env M p' row.metadata.owner (r.typed .thread) cs ∨
        ¬p'.HasOwner row.metadata.owner ∧ cs = []) :
      Outcome env M p p' (.continueTerminate r)
        (.event (.threadTerminated terminated) :: cs.map .command)
  | executionClosedTerminated {r exec terminated at_} (kind : r.kind = .execution)
      (found : p.getExecution (r.typed .execution) = some exec)
      (drained : p.getChildren exec.objectRef.raw = [])
      (closes : exec.markTerminated at_ = .ok terminated) :
      Outcome env M p p' (.continueTerminate r) [.event (.executionTerminated terminated)]

end Spica
