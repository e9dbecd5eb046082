import Spica.Dispatch
import Spica.Reading

/-! # What the handlers are made of

Which operations every handler is put together from: the four that answer a request emit the
events that echo it, everything else names no request, and only the look-up of a version's machine
fills the machine cache.
-/

namespace Spica

/-- The request an event tells the outcome of. -/
def Event.requestId : Event → Option RequestId
  | .flowCreated id _ | .flowVersionCreated id _ | .executionCreated id _ | .tasksClaimed id _
  | .taskCompleted id _ _ => some id
  | _ => none

/-- The request an operation names: one it answers, or one that a command it asks for carries. -/
def Op.requestId : Op → Option RequestId
  | .appendEvent e => e.requestId
  | .appendCommand c => c.requestId
  | .reject r => some r.requestId
  | _ => none

/-- The operation fills the machine cache. -/
def Op.caches : Op → Bool
  | .cache _ _ => true
  | _ => false

/-- The one program that fills the machine cache. -/
inductive LooksUp : (β : Type) → Handler β → Prop
  | machineOr (onFault : StorageError → Abort) (version : ObjectRef .flowVersion) :
      LooksUp _ (machineOr onFault version)

/-- No part of the program names a request, and the machine cache is filled by looking up a
    version only. -/
def Anonymous {α : Type} (m : Handler α) : Prop :=
  m.Built (fun o => o.requestId = none ∧ o.caches = false) LooksUp

namespace Anonymous

variable {α β : Type}

/-! ## The vocabulary of the handlers

The lemmas of this section and of the next two are about the function of their name. They are
tagged, so that a program is taken apart at its binds and matches and its parts are looked up. -/

@[grind .] protected theorem pure (a : α) : Anonymous (pure a : Handler α) := .ret a

@[grind .] protected theorem fail (e : Abort) : Anonymous (.fail e : Handler α) := Prog.Built.fail e

@[grind .] theorem rejected (type : RejectionType) (reason : String) :
    Anonymous (rejected type reason : Handler α) := .fail _

@[grind .] theorem panicked (msg : String) : Anonymous (panicked msg : Handler α) := .fail _

@[grind ←] protected theorem bind {m : Handler α} {f : α → Handler β} (first : Anonymous m)
    (rest : ∀ a, Anonymous (f a)) : Anonymous (m >>= f) := Prog.Built.bind first rest

theorem of_reads {m : Handler α} (reads : Reads m) : Anonymous m := by
  refine .of_uses (reads.mono fun o reads => ?_)
  cases o <;> first | exact ⟨rfl, rfl⟩ | cases reads

@[grind ←] theorem each {f} (bs : List β) (one : ∀ b, Anonymous (f b)) :
    Anonymous (Prog.each f bs) := Prog.Built.each bs one

@[grind ←] theorem collect {f : β → Handler α} (bs : List β) (one : ∀ b, Anonymous (f b)) :
    Anonymous (Prog.collect f bs) := Prog.Built.collect bs one

theorem perform {o : Op} (other : o.requestId = none) (plain : o.caches = false) :
    Anonymous (Prog.perform o : Handler o.Ret) := .of_uses (.perform ⟨other, plain⟩)

@[grind .] theorem getExecution (r : ObjectRef .execution) : Anonymous (getExecution r) :=
  perform rfl rfl

@[grind .] theorem getThread (r : ObjectRef .thread) : Anonymous (getThread r) := perform rfl rfl

@[grind .] theorem getVariables (r : ObjectRef .thread) : Anonymous (getVariables r) := perform rfl rfl

@[grind .] theorem getActivity (r : ObjectRef .activity) : Anonymous (getActivity r) := perform rfl rfl

@[grind .] theorem getTask (r : ObjectRef .task) : Anonymous (getTask r) := perform rfl rfl

@[grind .] theorem getChildren (r : RawObjectRef) : Anonymous (getChildren r) := perform rfl rfl

@[grind .] theorem peekThread (r : ObjectRef .thread) : Anonymous (peekThread r) := perform rfl rfl

@[grind .] theorem peekVariables (r : ObjectRef .thread) : Anonymous (peekVariables r) :=
  perform rfl rfl

@[grind .] theorem peekActivity (r : ObjectRef .activity) : Anonymous (peekActivity r) :=
  perform rfl rfl

@[grind .] theorem peekChildren (r : RawObjectRef) : Anonymous (peekChildren r) := perform rfl rfl

attribute [grind =] Event.requestId Command.requestId

@[grind ←] theorem appendEvent {e : Event} (other : e.requestId = none) :
    Anonymous (appendEvent e) := perform other rfl

@[grind ←] theorem appendCommand {c : Command} (other : c.requestId = none) :
    Anonymous (appendCommand c) := perform other rfl

@[grind .] theorem nextGeneratedSeq : Anonymous Spica.nextGeneratedSeq := perform rfl rfl

@[grind .] theorem mint : Anonymous Spica.mint := perform rfl rfl

@[grind .] theorem now : Anonymous Spica.now := perform rfl rfl

@[grind .] theorem platform : Anonymous Spica.platform := perform rfl rfl

@[grind ←] theorem debugAssert (old : α) {update} (msg : String) (quiet : Anonymous update) :
    Anonymous (debugAssert old update msg) := by
  unfold Spica.debugAssert
  grind

@[grind .] theorem machineOr (onFault : StorageError → Abort) (version : ObjectRef .flowVersion) :
    Anonymous (machineOr onFault version) := .of_part (.machineOr onFault version)

@[grind .] theorem machineForThread (thread : Thread) : Anonymous (machineForThread thread) := by
  unfold Spica.machineForThread
  grind

@[grind .] theorem evalJson (value states : Json) (vars : Variables) :
    Anonymous (evalJson value states vars) := .of_reads (.evalJson ..)

/-! ## Containers -/

section containers

variable (thread : ObjectRef .thread) (execution : ObjectRef .execution) (child : RawObjectRef)

@[grind .] theorem threadOpen : Anonymous (ThreadElement.open_ thread) := .of_reads (.threadOpen _)

@[grind .] theorem threadSettledRow : Anonymous (ThreadElement.settledRow thread) := by
  unfold ThreadElement.settledRow
  grind

@[grind .] theorem threadAfterChildCompleted :
    Anonymous (ThreadElement.afterChildCompleted thread child) := by
  unfold ThreadElement.afterChildCompleted
  grind

@[grind .] theorem threadAfterChildTerminated :
    Anonymous (ThreadElement.afterChildTerminated thread child) := by
  unfold ThreadElement.afterChildTerminated
  grind

@[grind .] theorem executionOpen : Anonymous (ExecutionElement.open_ execution) :=
  .of_reads (.executionOpen _)

@[grind .] theorem executionSettledRow : Anonymous (ExecutionElement.settledRow execution) := by
  unfold ExecutionElement.settledRow
  grind

@[grind .] theorem executionRefuseSettled {α : Type} (status : Status) :
    Anonymous (ExecutionElement.refuseSettled execution child status : Handler α) := by
  unfold ExecutionElement.refuseSettled
  grind

@[grind .] theorem executionAfterChildCompleted :
    Anonymous (ExecutionElement.afterChildCompleted execution child) := by
  unfold ExecutionElement.afterChildCompleted
  grind

@[grind .] theorem executionAfterChildTerminated :
    Anonymous (ExecutionElement.afterChildTerminated execution child) := by
  unfold ExecutionElement.afterChildTerminated
  grind

end containers

/-! ## States -/

section states

variable (act : Activity) (vars : Variables) (states : Json) (at_ : Timestamp)
  (activity : ObjectRef .activity) (child : RawObjectRef) (output : Option Json)
  (assign : Option AssignObject) (next : Option String) (end_ : Option Bool)

@[grind .] theorem failState (error : ExecutionError) : Anonymous (failState activity error) :=
  appendCommand rfl

@[grind .] theorem applyAssign (owner : ObjectRef .thread) :
    Anonymous (applyAssign owner assign states vars) := by
  unfold Spica.applyAssign
  grind

@[grind .] theorem projectOutput (fallback : Json) :
    Anonymous (projectOutput output states vars fallback) := .of_reads (.projectOutput ..)

@[grind .] theorem closeCompleted (out : Json) : Anonymous (closeCompleted act out) := by
  unfold Spica.closeCompleted
  grind

@[grind .] theorem closeTerminated : Anonymous (closeTerminated act) := by
  unfold Spica.closeTerminated
  grind

@[grind .] theorem terminateLeaf : Anonymous (terminateLeaf act) := by
  unfold Spica.terminateLeaf
  grind

@[grind .] theorem failCompleting (reason : TerminationReason) :
    Anonymous (failCompleting act reason) := by
  unfold Spica.failCompleting
  grind

@[grind .] theorem transitionTo (path : StatePath) (out : Json) :
    Anonymous (transitionTo act path out) := by
  unfold Spica.transitionTo
  grind

@[grind .] theorem processFinish :
    Anonymous (processFinish assign output next end_ act vars) := by
  refine .bind (applyAssign ..) fun scope => ?_
  cases scope with
  | error e => exact .pure _
  | ok scope =>
    refine .bind (projectOutput ..) fun out => ?_
    grind

@[grind .] theorem finishCompleting :
    Anonymous (finishCompleting assign output next end_ act vars) := by
  refine .bind (processFinish ..) fun finish => ?_
  grind

@[grind .] theorem succeedAfterCompleting (s : SucceedState) :
    Anonymous (succeedAfterCompleting s act vars) := by
  unfold Spica.succeedAfterCompleting processSucceed
  grind

@[grind .] theorem failAfterCompleting (s : FailState) :
    Anonymous (failAfterCompleting s act vars) := by
  refine .bind (.of_reads (.processFail ..)) fun reason => ?_
  grind

@[grind .] theorem processChoice (s : ChoiceState) : Anonymous (processChoice s act vars) := by
  refine .bind (.of_reads (.resolveChoice ..)) fun choice => ?_
  cases choice with
  | error e => exact .pure _
  | ok choice =>
    refine .bind (applyAssign ..) fun scope => ?_
    grind

@[grind .] theorem choiceAfterCompleting (s : ChoiceState) :
    Anonymous (choiceAfterCompleting s act vars) := by
  unfold Spica.choiceAfterCompleting
  grind

@[grind .] theorem waitProcessInput (s : WaitState) :
    Anonymous (waitProcessInput s act vars states at_) := by
  refine .bind (.of_reads (.resolveWaitDeadline ..)) fun resumeAt => ?_
  cases resumeAt <;> exact .pure _

@[grind .] theorem taskProcessInput (s : TaskState) :
    Anonymous (taskProcessInput s act vars states at_) := .of_reads (.taskProcessInput ..)

@[grind .] theorem taskAfterActivated (s : TaskState) :
    Anonymous (taskAfterActivated s act vars states) := by
  refine .bind now fun at_ => .bind (.of_reads (.resolveTaskDeadline ..)) fun resolved => ?_
  grind

@[grind .] theorem taskChildCompleted : Anonymous (taskChildCompleted activity act child) := by
  unfold Spica.taskChildCompleted
  grind

@[grind .] theorem cancelTasks (tasks : List RawObjectRef) : Anonymous (cancelTasks tasks) :=
  each _ fun _ => appendCommand rfl

@[grind .] theorem taskAfterTerminating : Anonymous (taskAfterTerminating act) := by
  unfold Spica.taskAfterTerminating
  grind

@[grind .] theorem taskOnFailed (s : TaskState) (error : ExecutionError) :
    Anonymous (taskOnFailed s act error) := by
  have outcome (catcher : Catcher) (owner : ObjectRef .thread) (states : Json) (vars : Variables)
      (raw : Json) : Anonymous (catchOutcome catcher owner states vars raw) := by
    unfold catchOutcome
    grind
  unfold Spica.taskOnFailed
  split
  · exact .pure _
  unfold catchWith
  refine .bind (peekThread _) fun thread => ?_
  split
  · refine .bind (peekVariables _) fun scope => .bind (outcome ..) fun caught => ?_
    cases caught with
    | error e => exact .bind (failState ..) fun _ => .pure _
    | ok out =>
      refine .bind (peekChildren _) fun children => .bind (cancelTasks _) fun _ => ?_
      refine .bind now fun at_ => .bind (appendEvent rfl) fun _ => ?_
      exact .bind (transitionTo ..) fun _ => .pure _
  · exact .pure _

@[grind .] theorem fanOutAfterCompleting (label : String) :
    Anonymous (fanOutAfterCompleting label assign output next end_ act vars) := by
  -- the two guards first; each either refuses or passes on
  refine .bind (getActivity _) fun row => ?_
  dsimp only
  split
  · exact rejected ..
  refine .bind (getChildren _) fun children => ?_
  split
  · exact rejected ..
  refine .bind (applyAssign ..) fun scope => ?_
  cases scope with
  | error e => exact failState ..
  | ok scope =>
    refine .bind (projectOutput ..) fun out => ?_
    grind

@[grind .] theorem terminateThreads (children : List RawObjectRef) :
    Anonymous (terminateThreads children) := each _ fun _ => appendCommand rfl

@[grind .] theorem fanOutAfterTerminating (label : String) :
    Anonymous (fanOutAfterTerminating label act) := by
  unfold Spica.fanOutAfterTerminating
  grind

@[grind .] theorem parallelProcessInput (s : ParallelState) :
    Anonymous (parallelProcessInput s act vars states at_) := .of_reads (.parallelProcessInput ..)

@[grind .] theorem parallelAfterActivated (s : ParallelState) :
    Anonymous (parallelAfterActivated s act vars states) := by
  unfold Spica.parallelAfterActivated
  grind

@[grind .] theorem parallelChildCompleted :
    Anonymous (parallelChildCompleted activity act child) := by
  refine .bind (peekActivity _) fun row => ?_
  split
  · exact .pure _
  split
  · refine .bind (.of_reads (.scanBranches _)) fun scan => ?_
    grind
  · exact .pure _

@[grind .] theorem mapProcessInput (s : MapState) :
    Anonymous (mapProcessInput s act vars states at_) := by
  refine .bind (.of_reads (.resolveMapItems ..)) fun items => ?_
  cases items with
  | error e => exact .pure _
  | ok items =>
    refine .bind (.of_reads (.resolveMaxConcurrency ..)) fun limit => ?_
    cases limit <;> exact .pure _

@[grind .] theorem spawnItems (s : MapState) (items : List Json) (indices : List Nat) :
    Anonymous (spawnItems s act activity items indices) := each _ fun _ => appendCommand rfl

@[grind .] theorem mapAfterActivated (s : MapState) :
    Anonymous (mapAfterActivated s act vars states) := by
  unfold Spica.mapAfterActivated
  grind

@[grind .] theorem subUsize (a b : Nat) : Anonymous (subUsize a b) := .of_reads (.subUsize a b)

@[grind .] theorem mapChildCompleted (s : MapState) :
    Anonymous (mapChildCompleted s activity act child) := by
  refine .bind (peekActivity _) fun row => ?_
  split
  · exact .pure _
  split
  · dsimp only
    split
    · exact .pure _
    · refine .bind (peekThread _) fun item => ?_
      split
      · exact failState ..
      · refine .bind (.of_reads (.countSucceeded _)) fun done => ?_
        grind
  · exact .pure _

end states

end Anonymous

/-- No hook of the state answers a request. -/
structure StateHandler.Anonymous (h : StateHandler) : Prop where
  processInput : ∀ act vars states at_, Spica.Anonymous (h.processInput act vars states at_)
  afterActivated : ∀ act vars states, Spica.Anonymous (h.afterActivated act vars states)
  childCompleted : ∀ activity act child, Spica.Anonymous (h.childCompleted activity act child)
  afterCompleting : ∀ act vars, Spica.Anonymous (h.afterCompleting act vars)
  afterTerminating : ∀ act, Spica.Anonymous (h.afterTerminating act)
  onFailed : ∀ act error, Spica.Anonymous (h.onFailed act error)

attribute [grind ←] StateHandler.Anonymous.processInput StateHandler.Anonymous.afterActivated
  StateHandler.Anonymous.childCompleted StateHandler.Anonymous.afterCompleting
  StateHandler.Anonymous.afterTerminating StateHandler.Anonymous.onFailed

/-- A state that finishes at once fills in nothing but its completing step. -/
theorem StateHandler.Anonymous.immediate {completing}
    (quiet : ∀ act vars, Spica.Anonymous (completing act vars)) :
    StateHandler.Anonymous { afterCompleting := completing, afterTerminating := terminateLeaf } :=
  ⟨fun _ _ _ _ => .pure _, fun _ _ _ => .pure _, fun _ _ _ => .pure _, quiet,
    fun _ => .terminateLeaf _, fun _ _ => .pure _⟩

@[grind .] theorem handlerFor_anonymous (s : State) : (handlerFor s).Anonymous := by
  cases s with
  | pass s => exact .immediate fun _ _ => .finishCompleting ..
  | succeed s => exact .immediate fun _ _ => .succeedAfterCompleting ..
  | fail s => exact .immediate fun _ _ => .failAfterCompleting ..
  | choice s => exact .immediate fun _ _ => .choiceAfterCompleting ..
  | wait s =>
    exact ⟨fun _ _ _ _ => .waitProcessInput .., fun _ _ _ => .pure _, fun _ _ _ => .pure _,
      fun _ _ => .finishCompleting .., fun _ => .terminateLeaf _, fun _ _ => .pure _⟩
  | task s =>
    exact ⟨fun _ _ _ at_ => .taskProcessInput _ _ _ at_ s, fun _ _ _ => .taskAfterActivated ..,
      fun _ _ _ => .taskChildCompleted .., fun _ _ => .finishCompleting ..,
      fun _ => .taskAfterTerminating _, fun _ _ => .taskOnFailed ..⟩
  | parallel s =>
    exact ⟨fun _ _ _ at_ => .parallelProcessInput _ _ _ at_ s,
      fun _ vars states => .parallelAfterActivated _ vars states s,
      fun _ _ child => .parallelChildCompleted _ _ child, fun _ _ => .fanOutAfterCompleting ..,
      fun _ => .fanOutAfterTerminating .., fun _ _ => .pure _⟩
  | map s =>
    exact ⟨fun _ _ _ at_ => .mapProcessInput _ _ _ at_ s,
      fun _ vars states => .mapAfterActivated _ vars states s,
      fun _ _ _ => .mapChildCompleted .., fun _ _ => .fanOutAfterCompleting ..,
      fun _ => .fanOutAfterTerminating .., fun _ _ => .pure _⟩

namespace Anonymous

/-! ## Elements -/

section elements

variable {h : StateHandler} (act : Activity) (thread : Thread) (activity : ObjectRef .activity)
  (child : RawObjectRef)

@[grind ←] theorem activate (hooks : h.Anonymous) (p : ActivateState) :
    Anonymous (h.activate p thread) := by
  refine .bind mint fun uid => .bind nextGeneratedSeq fun seq => .bind now fun at_ => ?_
  refine .bind (getVariables _) fun vars => .bind (appendEvent rfl) fun _ => ?_
  refine .bind now fun at_ => .bind (hooks.processInput ..) fun effective => ?_
  cases effective with
  | error e => exact failState ..
  | ok effective =>
    refine .bind now fun at_ => .bind (appendEvent rfl) fun _ => ?_
    refine .bind (hooks.afterActivated ..) fun activated => ?_
    grind

@[grind ←] theorem complete (hooks : h.Anonymous) (p : CompleteState) :
    Anonymous (h.complete p act thread) := by
  unfold StateHandler.complete
  grind

@[grind ←] theorem terminate (hooks : h.Anonymous) (p : TerminateState) :
    Anonymous (h.terminate p act thread) := by
  have begins : Anonymous (h.beginTerminating p act thread) := by
    unfold StateHandler.beginTerminating
    grind
  unfold StateHandler.terminate
  grind

@[grind .] theorem stateOfThread (label subject : String) (path : StatePath)
    (undefined : String → String) :
    Anonymous (stateOfThread label subject thread path undefined) := by
  unfold Spica.stateOfThread
  grind

@[grind .] theorem activityOpen : Anonymous (ActivityElement.open_ activity) :=
  .of_reads (.activityOpen _)

@[grind .] theorem stateOf (label : String) :
    Anonymous (ActivityElement.stateOf label activity act) := by
  unfold ActivityElement.stateOf
  grind

@[grind .] theorem settleChild (def_ : State) (expected : ObjectKind) :
    Anonymous (ActivityElement.settleChild activity act thread def_ expected child) := by
  unfold ActivityElement.settleChild ActivityElement.handToState
  grind

@[grind .] theorem activityAfterChildCompleted :
    Anonymous (ActivityElement.afterChildCompleted activity child) := by
  unfold ActivityElement.afterChildCompleted
  grind

@[grind .] theorem activityAfterChildTerminated :
    Anonymous (ActivityElement.afterChildTerminated activity child) :=
  activityAfterChildCompleted activity child

@[grind .] theorem activityOnDeadlineFired (deadline : Timestamp) :
    Anonymous (ActivityElement.onDeadlineFired activity deadline) := by
  refine .bind (getActivity _) fun row => ?_
  grind

@[grind .] theorem activitySweep (label : String) (children : List RawObjectRef) :
    Anonymous (ActivityElement.sweep label activity children) := by
  unfold ActivityElement.sweep
  grind

@[grind .] theorem activityContinueTerminate :
    Anonymous (ActivityElement.continueTerminate activity) := by
  unfold ActivityElement.continueTerminate
  grind

@[grind .] theorem activityContinueComplete :
    Anonymous (ActivityElement.continueComplete activity) := by
  unfold ActivityElement.continueComplete
  grind

@[grind .] theorem threadSweep (regression : RawObjectRef → String) (children : List RawObjectRef) :
    Anonymous (ThreadElement.sweep regression children) := by
  unfold ThreadElement.sweep
  grind

@[grind .] theorem openOwner (owner : ThreadOwner) :
    Anonymous (ThreadElement.openOwner owner) := .of_reads (.openOwner _)

@[grind .] theorem ownerAfterChildCompleted (owner : ThreadOwner) :
    Anonymous (ThreadElement.ownerAfterChildCompleted owner child) := by
  cases owner with
  | execution r => exact executionAfterChildCompleted r child
  | activity r => exact activityAfterChildCompleted r child

@[grind .] theorem ownerAfterChildTerminated (owner : ThreadOwner) :
    Anonymous (ThreadElement.ownerAfterChildTerminated owner child) := by
  cases owner with
  | execution r => exact executionAfterChildTerminated r child
  | activity r => exact activityAfterChildTerminated r child

@[grind ←] theorem relayIfOpen (owner : ThreadOwner) {relay : Handler Unit}
    (quiet : Anonymous relay) : Anonymous (ThreadElement.relayIfOpen owner relay) := by
  refine .bind (.of_reads ((Reads.openOwner owner).bind (fun _ => .pure true) |>.handle fun e => ?_))
    fun opened => ?_
  · cases e <;> trivial
  · grind

theorem threadTerminate (p : TerminateThread) : Anonymous (ThreadElement.terminate p) := by
  refine .bind (getThread _) fun row => ?_
  cases row with
  | none => exact rejected ..
  | some row =>
    refine .bind now fun at_ => ?_
    split
    · exact rejected ..
    refine .bind (appendEvent rfl) fun _ => .bind (getChildren _) fun children => ?_
    grind

theorem threadComplete (p : CompleteThread) : Anonymous (ThreadElement.complete p) := by
  refine .bind (getThread _) fun row => ?_
  cases row with
  | none => exact rejected ..
  | some row =>
    dsimp only
    split
    · exact rejected ..
    refine .bind now fun at_ => .bind (appendEvent rfl) fun _ => ?_
    grind

theorem threadContinueTerminate (node : ObjectRef .thread) :
    Anonymous (ThreadElement.continueTerminate node) := by
  refine .bind (getThread _) fun row => ?_
  cases row with
  | none => exact rejected ..
  | some row =>
    dsimp only
    split
    · refine .bind (getChildren _) fun children => ?_
      grind
    · exact .bind platform fun env => rejected ..

theorem threadContinueComplete (node : ObjectRef .thread) :
    Anonymous (ThreadElement.continueComplete node) := by
  refine .bind (getThread _) fun row => ?_
  grind

theorem threadSpawn (p : SpawnThread) : Anonymous (ThreadElement.spawn p) := by
  refine .bind (getActivity _) fun row => ?_
  cases row with
  | none => exact rejected ..
  | some act =>
    dsimp only
    split
    · exact rejected ..
    refine .bind (getThread _) fun thread => ?_
    cases thread with
    | none => exact rejected ..
    | some thread =>
      refine .bind mint fun uid => .bind nextGeneratedSeq fun seq => ?_
      grind

@[grind .] theorem executionSweep (regression : RawObjectRef → String)
    (children : List RawObjectRef) : Anonymous (ExecutionElement.sweep regression children) := by
  unfold ExecutionElement.sweep
  grind

@[grind .] theorem requireUid (name : ObjectName) (uid : Option Ulid) (exec : Execution) :
    Anonymous (ExecutionElement.requireUid name uid exec) := by
  unfold ExecutionElement.requireUid
  grind

@[grind .] theorem executionOnDeadlineFired (execution : ObjectRef .execution)
    (deadline : Timestamp) : Anonymous (ExecutionElement.onDeadlineFired execution deadline) := by
  unfold ExecutionElement.onDeadlineFired
  grind

theorem executionTerminate (p : TerminateExecution) : Anonymous (ExecutionElement.terminate p) := by
  refine .bind (getExecution _) fun row => ?_
  cases row with
  | none => exact rejected ..
  | some exec =>
    refine .bind (requireUid ..) fun _ => .bind now fun at_ => ?_
    split
    · exact rejected ..
    refine .bind (appendEvent rfl) fun _ => .bind (getChildren _) fun children => ?_
    grind

theorem executionComplete (p : CompleteExecution) : Anonymous (ExecutionElement.complete p) := by
  refine .bind (getExecution _) fun row => ?_
  cases row with
  | none => exact rejected ..
  | some exec =>
    refine .bind now fun at_ => ?_
    split
    · exact rejected ..
    refine .bind (appendEvent rfl) fun _ => .bind (getChildren _) fun children => ?_
    grind

theorem executionContinueTerminate (node : ObjectRef .execution) :
    Anonymous (ExecutionElement.continueTerminate node) := by
  refine .bind (getExecution _) fun row => ?_
  grind

theorem executionContinueComplete (node : ObjectRef .execution) :
    Anonymous (ExecutionElement.continueComplete node) := by
  refine .bind (getExecution _) fun row => ?_
  cases row with
  | none => exact rejected ..
  | some exec =>
    dsimp only
    split
    · exact .bind platform fun env => rejected ..
    refine .bind (getChildren _) fun children => ?_
    grind

theorem taskActivate (p : ActivateTask) : Anonymous (TaskElement.activate p) := by
  unfold TaskElement.activate
  grind

theorem taskFail (p : FailTask) : Anonymous (TaskElement.fail p) := by
  refine .bind (getTask _) fun row => ?_
  cases row with
  | none => exact rejected ..
  | some row =>
    refine .bind platform fun env => .bind now fun at_ => ?_
    grind

theorem taskCancel (task : ObjectRef .task) : Anonymous (TaskElement.cancel task) := by
  refine .bind (getTask _) fun row => ?_
  cases row with
  | none => exact rejected ..
  | some row =>
    refine .bind now fun at_ => ?_
    grind

theorem activateState (p : ActivateState) : Anonymous (handleActivateState p) := by
  unfold handleActivateState
  grind

theorem completeState (p : CompleteState) : Anonymous (handleCompleteState p) := by
  refine .bind (getActivity _) fun row => ?_
  cases row with
  | none => exact rejected ..
  | some act =>
    refine .bind (getThread _) fun thread => ?_
    grind

theorem terminateState (p : TerminateState) : Anonymous (handleTerminateState p) := by
  have resolved (act : Activity) : Anonymous (resolveAndTerminate p act) := by
    unfold resolveAndTerminate
    grind
  unfold handleTerminateState terminateRefused
  grind

theorem fireDeadline (target : DeadlineTarget) (deadline : Timestamp) :
    Anonymous (fireDeadline target deadline) := by
  unfold Spica.fireDeadline
  cases target with
  | execution r => grind
  | activity r =>
    refine .bind (.of_reads ((Reads.activityOpen r).handle fun e => ?_)) fun _ => by grind
    cases e <;> trivial

theorem continueComplete (owner : RawObjectRef) : Anonymous (handleContinueComplete owner) := by
  unfold handleContinueComplete
  split
  · exact activityContinueComplete _
  · exact threadContinueComplete _
  · exact executionContinueComplete _
  · exact panicked _

theorem continueTerminate (owner : RawObjectRef) : Anonymous (handleContinueTerminate owner) := by
  unfold handleContinueTerminate
  split
  · exact activityContinueTerminate _
  · exact threadContinueTerminate _
  · exact executionContinueTerminate _
  · exact panicked _

end elements

end Anonymous

/-! ## The handlers that answer a request -/

/-- The event tells the outcome of the command. -/
def Command.Acks : Command → Event → Prop
  | .createFlow p, .flowCreated id _ => id = p.requestId
  | .createFlow p, .flowVersionCreated id _ => id = p.requestId
  | .createExecution p, .executionCreated id _ => id = p.requestId
  | .claimTasks p, .tasksClaimed id _ => id = p.requestId
  | .completeTask p, .taskCompleted id _ _ => id = p.requestId
  | _, _ => False

/-- The operation names no request, unless it is an event that tells the command's outcome. -/
def Op.AnswersOnly (c : Command) (o : Op) : Prop :=
  o.requestId = none ∨ ∃ ev, o = .appendEvent ev ∧ c.Acks ev

theorem Op.answersOnly_event {c ev} (own : c.Acks ev) :
    (Op.appendEvent ev).AnswersOnly c := .inr ⟨ev, rfl, own⟩

section answering

variable {α β : Type} {c : Command}

/-- The program answers the command or nothing, and fills the machine cache by looking up a version
    only. -/
def Handler.AnswersOnly (c : Command) (m : Handler α) : Prop :=
  m.Built (fun o => o.AnswersOnly c ∧ o.caches = false) LooksUp

theorem LooksUp.uses {m} (looks : LooksUp α m) : m.Uses (Op.AnswersOnly c) := by
  cases looks with
  | machineOr onFault version =>
    refine .bind (.perform (.inl rfl)) fun held => ?_
    cases held with
    | some machine => trivial
    | none =>
      refine .bind (.perform (.inl rfl)) fun row => ?_
      cases row with
      | none => trivial
      | some ver =>
        refine .bind (.perform (.inl rfl)) fun env => ?_
        cases env.parse ver.definition with
        | error e => trivial
        | ok machine => exact .bind (.perform (.inl rfl)) fun _ => trivial

theorem Handler.AnswersOnly.uses {m : Handler α} (answers : m.AnswersOnly c) :
    m.Uses (Op.AnswersOnly c) :=
  (answers.mono fun _ => And.left).uses fun _ _ => LooksUp.uses

theorem Anonymous.answersOnly {m : Handler α} (quiet : Anonymous m) : m.AnswersOnly c :=
  quiet.mono fun _ own => ⟨.inl own.1, own.2⟩

/-- A program that answers nothing, before one that may. -/
theorem Anonymous.before {m : Handler α} {f : α → Handler β} (first : Anonymous m)
    (rest : ∀ a, (f a).AnswersOnly c) : (m >>= f).AnswersOnly c :=
  Prog.Built.bind first.answersOnly rest

theorem Command.Acks.last {ev} (own : c.Acks ev) : (appendEvent ev).AnswersOnly c :=
  .of_uses (.perform ⟨Op.answersOnly_event own, rfl⟩)

/-- An event that tells the outcome, before the rest of the program. -/
theorem Command.Acks.before {ev : Event} {f : Unit → Handler β} (own : c.Acks ev)
    (rest : ∀ a, (f a).AnswersOnly c) : (appendEvent ev >>= f).AnswersOnly c :=
  Prog.Built.bind own.last rest

theorem executionCreate_answersOnly (p : CreateExecution) :
    (ExecutionElement.create p).AnswersOnly (.createExecution p) := by
  refine Anonymous.before (.perform rfl rfl) fun existing => ?_
  split
  · exact .fail _
  refine Anonymous.before .mint fun uid => ?_
  refine Anonymous.before (.machineOr ..) fun machine => ?_
  cases machine with
  | error e => exact .fail _
  | ok machine =>
    refine Anonymous.before ?_ fun deadline => ?_
    · unfold ExecutionElement.runDeadline
      grind
    dsimp only
    split
    · exact .fail _
    refine Anonymous.before .now fun at_ => ?_
    refine Command.Acks.before rfl fun _ => ?_
    refine Anonymous.answersOnly (.bind .mint fun rootUid => .bind .nextGeneratedSeq fun seq => ?_)
    grind

theorem taskClaim_answersOnly (p : ClaimTasks) :
    (TaskElement.claim p).AnswersOnly (.claimTasks p) := by
  refine Anonymous.before .now fun at_ => ?_
  split
  · exact .fail _
  refine Anonymous.before (.perform rfl rfl) fun tasks => ?_
  exact Command.Acks.last rfl

theorem taskComplete_answersOnly (p : CompleteTask) :
    (TaskElement.complete p).AnswersOnly (.completeTask p) := by
  refine Anonymous.before (.getTask _) fun row => ?_
  cases row with
  | none => exact .fail _
  | some row =>
    refine Anonymous.before .platform fun env => Anonymous.before .now fun at_ => ?_
    split
    · exact .fail _
    refine Anonymous.before (.activityOpen _) fun _ => ?_
    refine Command.Acks.before rfl fun _ => ?_
    exact Anonymous.answersOnly (.activityAfterChildCompleted ..)

def Command.isCreateFlow : Command → Bool
  | .createFlow _ => true
  | _ => false

/-- Every handler but one refuses by an error, and answers its own command only. -/
theorem dispatchCommand_answersOnly {c : Command} (other : c.isCreateFlow = false) :
    (dispatchCommand c).AnswersOnly c := by
  cases c with
  | createFlow p => cases other
  | createExecution p => exact executionCreate_answersOnly p
  | claimTasks p => exact taskClaim_answersOnly p
  | completeTask p => exact taskComplete_answersOnly p
  | spawnThread p => exact (Anonymous.threadSpawn p).answersOnly
  | completeExecution p => exact (Anonymous.executionComplete p).answersOnly
  | completeThread p => exact (Anonymous.threadComplete p).answersOnly
  | terminateExecution p => exact (Anonymous.executionTerminate p).answersOnly
  | terminateThread p => exact (Anonymous.threadTerminate p).answersOnly
  | activateState p => exact (Anonymous.activateState p).answersOnly
  | completeState p => exact (Anonymous.completeState p).answersOnly
  | terminateState p => exact (Anonymous.terminateState p).answersOnly
  | activateTask p => exact (Anonymous.taskActivate p).answersOnly
  | failTask p => exact (Anonymous.taskFail p).answersOnly
  | triggerDeadline target deadline => exact (Anonymous.fireDeadline target deadline).answersOnly
  | cancelTask task => exact (Anonymous.taskCancel task).answersOnly
  | continueComplete owner => exact (Anonymous.continueComplete owner).answersOnly
  | continueTerminate owner => exact (Anonymous.continueTerminate owner).answersOnly

end answering

end Spica
