import Spica.Applier

/-! # What folding an event does

The effect of an applier on the projection, as a function. `dispatchEvent_computes` connects it to
the applier's program: without faults the program computes this function, and the only way it
can fail is a flow filed under a name that is not plain.
-/

namespace Spica

namespace Projection

/-- Everything but the counter of generated names. -/
def content (p : Projection) : Projection := { p with nextGeneratedSeq := 0 }

/-- The counter is raised above a generated name's suffix. -/
def raised (counter : Nat) (name : ObjectName) : Nat :=
  match name.suffix with
  | none => counter
  | some n => max counter (n + 1)

def bump (p : Projection) (name : ObjectName) : Projection :=
  p.putNextGeneratedSeq (raised p.nextGeneratedSeq name)

/-- Update a row that exists. -/
def onExecution (p : Projection) (r : ObjectRef .execution) (f : Execution → Execution) :
    Projection :=
  match p.getExecution r with
  | some row => p.putExecution (f row)
  | none => p

def onThread (p : Projection) (r : ObjectRef .thread) (f : Thread → Thread) : Projection :=
  match p.getThread r with
  | some row => p.putThread (f row)
  | none => p

def onActivity (p : Projection) (r : ObjectRef .activity) (f : Activity → Activity) :
    Projection :=
  match p.getActivity r with
  | some row => p.putActivity (f row)
  | none => p

/-- Update a thread that exists and take it off its owner. -/
def settleThread (p : Projection) (r : ObjectRef .thread) (f : Thread → Thread) : Projection :=
  match p.getThread r with
  | some row => (p.putThread (f row)).removeChild row.metadata.owner.raw r.raw
  | none => p

/-- Replace an activity that exists and take it off its owner. -/
def settleActivity (p : Projection) (a : Activity) : Projection :=
  match p.getActivity a.objectRef with
  | some row => (p.putActivity a).removeChild row.metadata.owner.raw a.objectRef.raw
  | none => p

def completeTask (p : Projection) (ts : Timestamp) (t : Task) (output : Json) : Projection :=
  match p.getTask t.objectRef with
  | some row =>
    ((p.putTask { row with
        status := .completed
        metadata := row.metadata.withUpdateAt t.metadata.updatedAt }).onActivity
      row.metadata.owner fun act =>
        { act with rawOutput := some output, metadata := act.metadata.withUpdateAt ts }).removeChild
      row.metadata.owner.raw t.objectRef.raw
  | none => p

def failTask (p : Projection) (ts : Timestamp) (t : Task) : Projection :=
  match p.getTask t.objectRef with
  | some row =>
    if t.status = .pending then
      (p.putTask t).onActivity row.metadata.owner fun act =>
        { act with
          retryState := some { act.retryState.getD .default with
            attempts := t.retryState.attempts }
          metadata := act.metadata.withUpdateAt ts }
    else (p.putTask t).removeChild row.metadata.owner.raw t.objectRef.raw
  | none => p

def cancelTask (p : Projection) (t : Task) : Projection :=
  match p.getTask t.objectRef with
  | some row =>
    (p.putTask { row with
        status := .cancelled
        metadata := row.metadata.withUpdateAt t.metadata.updatedAt }).removeChild
      row.metadata.owner.raw t.objectRef.raw
  | none => p

def claimTask (ts : Timestamp) (p : Projection) (granted : Task) : Projection :=
  match p.getTask granted.objectRef with
  | some row =>
    if row.isClaimableAt ts then p.putTask (Applier.claimedRow row granted) else p
  | none => p

/-- A thread inherits the scope its container's own thread has at that moment. -/
def inheritScope (p : Projection) (t : Thread) : Projection :=
  match t.metadata.owner with
  | .activity owner =>
    match p.getActivity owner with
    | some act => p.putVariables t.objectRef (p.getVariables act.metadata.owner)
    | none => p
  | .execution _ => p

/-- The container records the thread in its fan-out map. -/
def recordFanOut (p : Projection) (ts : Timestamp) (t : Thread) : Projection :=
  match t.metadata.owner with
  | .execution _ => p
  | .activity owner =>
    match p.getActivity owner with
    | some act =>
      match Applier.recordChild act.activityState t.index t.objectRef with
      | some state => p.putActivity { act with
          activityState := some state
          metadata := act.metadata.withUpdateAt ts }
      | none => p
    | none => p

def createThread (p : Projection) (ts : Timestamp) (t : Thread) : Projection :=
  ((((p.putThread t).inheritScope t).bump t.metadata.name).addChild
    t.metadata.owner.raw t.objectRef.raw).recordFanOut ts t

/-- The flow row a version is recorded on. -/
def flowOf (p : Projection) (name : FlowName) (v : FlowVersion) : Flow :=
  (p.getFlowByName name).getD
    { metadata := .build v.metadata.owner.uid v.metadata.owner.name v.metadata.createdAt ()
      status := .active
      latestVersion := v.version }

/-- File a flow under its plain name. -/
def fileFlow (p : Projection) (f : Flow) : Projection :=
  match f.metadata.name.asPlain with
  | some name => p.putFlow name f
  | none => p

def createFlowVersion (p : Projection) (ts : Timestamp) (v : FlowVersion) : Projection :=
  match v.flowName with
  | none => p.putFlowVersion v
  | some name =>
    let flow := p.flowOf name v
    (p.putFlowVersion v).fileFlow { flow with
      latestVersion := v.version
      metadata := flow.metadata.withUpdateAt ts }

end Projection

namespace Event

/-- The effect of an event whose entry carries the given timestamp. -/
def apply (ts : Timestamp) (p : Projection) : Event → Projection
  | .executionCreated _ e => p.putExecution e
  | .executionCompleting e => p.onExecution e.objectRef fun row =>
    { row with
      status := .completing
      output := e.output
      metadata := row.metadata.withUpdateAt e.metadata.updatedAt }
  | .executionCompleted e => p.onExecution e.objectRef fun row =>
    { row with
      status := .completed
      output := e.output
      metadata := row.metadata.withUpdateAt e.metadata.updatedAt }
  | .executionTerminating e | .executionTerminated e => p.onExecution e.objectRef fun row =>
    { row with
      status := e.status
      metadata := row.metadata.withUpdateAt e.metadata.updatedAt }
  | .flowCreated _ f => p.fileFlow f
  | .flowVersionCreated _ v => p.createFlowVersion ts v
  | .stateActivating a =>
    ((p.putActivity a).bump a.metadata.name).addChild a.metadata.owner.raw a.objectRef.raw
  | .stateActivated a | .stateCompleting a | .stateTerminating a =>
    p.onActivity a.objectRef fun _ => a
  | .stateCompleted a | .stateTerminated a => p.settleActivity a
  | .variablesAssigned scope vars => p.putVariables scope vars
  | .stateTransitioned _ _ => p
  | .taskActivated t =>
    ((p.putTask t).bump t.metadata.name).addChild t.metadata.owner.raw t.objectRef.raw
  | .tasksClaimed _ tasks => tasks.foldl (Projection.claimTask ts) p
  | .taskCompleted _ t output => p.completeTask ts t output
  | .taskFailed t _ => p.failTask ts t
  | .taskCancelled t => p.cancelTask t
  | .threadCreated t => p.createThread ts t
  | .threadCompleting t => p.onThread t.objectRef fun row =>
    { row with
      status := .completing
      output := t.output
      metadata := row.metadata.withUpdateAt t.metadata.updatedAt }
  | .threadCompleted t => p.settleThread t.objectRef fun row =>
    { row with
      status := .completed
      output := t.output
      metadata := row.metadata.withUpdateAt t.metadata.updatedAt }
  | .threadTerminating t => p.onThread t.objectRef fun row =>
    { row with
      status := t.status
      metadata := row.metadata.withUpdateAt t.metadata.updatedAt }
  | .threadTerminated t => p.settleThread t.objectRef fun row =>
    { row with
      status := t.status
      metadata := row.metadata.withUpdateAt t.metadata.updatedAt }

/-- The generated name of the object the event gives birth to. -/
def bornName : Event → Option ObjectName
  | .threadCreated t => some t.metadata.name
  | .stateActivating a => some a.metadata.name
  | .taskActivated t => some t.metadata.name
  | _ => none

/-- Folding the event files no flow under a name that is not plain. -/
def Folds (p : Projection) : Event → Prop
  | .flowCreated _ f => f.metadata.name.asPlain ≠ none
  | .flowVersionCreated _ v =>
    ∃ name, v.flowName = some name ∧ (p.flowOf name v).metadata.name.asPlain ≠ none
  | _ => True

end Event

/-! ## Transactions without faults -/

namespace Txn

variable {α β : Type} {p p' q : Projection} {a : α}

/-- Without faults, the program returns `a` and turns `p` into `p'`. -/
def Computes (t : Txn α) (p : Projection) (a : α) (p' : Projection) : Prop :=
  ∀ b : Backend, b.FaultFree → ∀ n, ∃ m, t.run interpret b ⟨p, n⟩ = (.ok a, ⟨p', m⟩)

namespace Computes

protected theorem pure : Computes (pure a) p a p := fun _ _ n => ⟨n, rfl⟩

protected theorem bind {t : Txn α} {f : α → Txn β} {c : β} (first : Computes t p a q)
    (rest : Computes (f a) q c p') : Computes (t >>= f) p c p' := by
  intro b ff n
  obtain ⟨m, ran⟩ := first b ff n
  obtain ⟨m', ran'⟩ := rest b ff m
  refine ⟨m', ?_⟩
  rw [Prog.run_bind, Eff.bind_of_ok ran, ran']

/-- A read whose answer does not depend on an enumeration order. -/
theorem ask {q v} (answer : ∀ refs tasks, q.eval refs tasks p = v) :
    Computes (Txn.ask q) p v p := by
  intro b ff n
  refine ⟨n + 1, ?_⟩
  rw [run_ask]
  simp only [ff n, answer]

theorem peek {q v} (answer : ∀ refs tasks, q.eval refs tasks p = v) :
    Computes (Txn.peek q) p (.ok v) p := by
  intro b ff n
  refine ⟨n + 1, ?_⟩
  rw [run_peek]
  simp only [ff n, answer]

theorem put (w : Write) : Computes (Txn.put w) p () (w.apply p) := by
  intro b ff n
  refine ⟨n + 1, ?_⟩
  rw [run_put]
  simp only [ff n]

theorem putFlow {f} (plain : f.metadata.name.asPlain ≠ none) :
    Computes (Txn.putFlow f) p () (p.fileFlow f) := by
  unfold Txn.putFlow Projection.fileFlow
  cases named : f.metadata.name.asPlain with
  | none => exact absurd named plain
  | some name => exact put (.flow name f)

end Computes

/-- Without faults, the program panics. -/
def Panics (t : Txn α) (p : Projection) : Prop :=
  ∀ b : Backend, b.FaultFree → ∀ n, ∃ msg s, t.run interpret b ⟨p, n⟩ = (.error (.panicked msg), s)

theorem Panics.bind {t} {f : α → Txn β} (first : Computes t p a q) (rest : Panics (f a) q) :
    Panics (t >>= f) p := by
  intro b ff n
  obtain ⟨m, ran⟩ := first b ff n
  obtain ⟨msg, s, ran'⟩ := rest b ff m
  refine ⟨msg, s, ?_⟩
  rw [Prog.run_bind, Eff.bind_of_ok ran, ran']

theorem Panics.putFlow {f} (named : f.metadata.name.asPlain = none) : Panics (Txn.putFlow f) p := by
  intro b ff n
  unfold Txn.putFlow
  rw [named]
  exact ⟨_, _, rfl⟩

end Txn

/-! ## The appliers compute their effects -/

namespace Applier

open Txn

variable {p : Projection}

theorem getExecution_computes (r : ObjectRef .execution) :
    Computes (getExecution r) p (p.getExecution r) p := .ask fun _ _ => rfl

theorem getThread_computes (r : ObjectRef .thread) :
    Computes (getThread r) p (p.getThread r) p := .ask fun _ _ => rfl

theorem getVariables_computes (r : ObjectRef .thread) :
    Computes (getVariables r) p (p.getVariables r) p := .ask fun _ _ => rfl

theorem getActivity_computes (r : ObjectRef .activity) :
    Computes (getActivity r) p (p.getActivity r) p := .ask fun _ _ => rfl

theorem peekActivity_computes (r : ObjectRef .activity) :
    Computes (peek (.activity r)) p (.ok (p.getActivity r)) p := .peek fun _ _ => rfl

theorem getTask_computes (r : ObjectRef .task) :
    Computes (getTask r) p (p.getTask r) p := .ask fun _ _ => rfl

theorem getFlowByName_computes (name : FlowName) :
    Computes (ask (.flowByName name)) p (p.getFlowByName name) p := .ask fun _ _ => rfl

theorem bumpGeneratedSeq_computes (name : ObjectName) :
    Computes (bumpGeneratedSeq name) p () (p.bump name) := by
  unfold bumpGeneratedSeq Projection.bump Projection.raised
  cases name.suffix with
  | none => exact .pure
  | some n => exact .bind (.ask fun _ _ => rfl) (.put _)

theorem executionOutcome_computes (status : Status) (e : Execution) :
    Computes (executionOutcome status e) p () (p.onExecution e.objectRef fun row =>
      { row with
        status := status
        output := e.output
        metadata := row.metadata.withUpdateAt e.metadata.updatedAt }) := by
  refine .bind (getExecution_computes _) ?_
  unfold Projection.onExecution
  cases p.getExecution e.objectRef with
  | none => exact .pure
  | some row => exact .put _

theorem executionStatus_computes (e : Execution) :
    Computes (executionStatus e) p () (p.onExecution e.objectRef fun row =>
      { row with
        status := e.status
        metadata := row.metadata.withUpdateAt e.metadata.updatedAt }) := by
  refine .bind (getExecution_computes _) ?_
  unfold Projection.onExecution
  cases p.getExecution e.objectRef with
  | none => exact .pure
  | some row => exact .put _

theorem flowVersionCreated_computes (ts : Timestamp) (v : FlowVersion) {name}
    (named : v.flowName = some name) (plain : (p.flowOf name v).metadata.name.asPlain ≠ none) :
    Computes (flowVersionCreated ts v) p () (p.createFlowVersion ts v) := by
  unfold flowVersionCreated Projection.createFlowVersion
  refine .bind (.put _) ?_
  rw [named]
  exact .bind (getFlowByName_computes name) (.putFlow plain)

theorem stateActivating_computes (a : Activity) :
    Computes (stateActivating a) p ()
      (((p.putActivity a).bump a.metadata.name).addChild a.metadata.owner.raw a.objectRef.raw) :=
  .bind (.put _) (.bind (bumpGeneratedSeq_computes _) (.put _))

theorem stateReplaced_computes (a : Activity) :
    Computes (stateReplaced a) p () (p.onActivity a.objectRef fun _ => a) := by
  refine .bind (getActivity_computes _) ?_
  unfold Projection.onActivity
  cases p.getActivity a.objectRef with
  | none => exact .pure
  | some row => exact .put _

theorem stateSettled_computes (a : Activity) :
    Computes (stateSettled a) p () (p.settleActivity a) := by
  refine .bind (getActivity_computes _) ?_
  unfold Projection.settleActivity
  cases p.getActivity a.objectRef with
  | none => exact .pure
  | some row => exact .bind (.put _) (.put _)

theorem taskActivated_computes (t : Task) :
    Computes (taskActivated t) p ()
      (((p.putTask t).bump t.metadata.name).addChild t.metadata.owner.raw t.objectRef.raw) :=
  .bind (.put _) (.bind (bumpGeneratedSeq_computes _) (.put _))

theorem taskClaimed_computes (ts : Timestamp) (t : Task) :
    Computes (taskClaimed ts t) p () (p.claimTask ts t) := by
  refine .bind (getTask_computes _) ?_
  unfold Projection.claimTask
  cases p.getTask t.objectRef with
  | none => exact .pure
  | some row =>
    dsimp only
    split
    · exact .put _
    · exact .pure

theorem tasksClaimed_computes (ts : Timestamp) (tasks : List Task) :
    Computes (tasksClaimed ts tasks) p () (tasks.foldl (Projection.claimTask ts) p) := by
  induction tasks generalizing p with
  | nil => exact .pure
  | cons t tasks ih => exact .bind (taskClaimed_computes ts t) ih

/-- The part of an applier that updates the owner of a task. -/
theorem ownerUpdated_computes (r : ObjectRef .activity) (f : Activity → Activity) :
    Computes (do
      match ← getActivity r with
      | some act => put (.activity (f act))
      | none => pure ()) p () (p.onActivity r f) := by
  refine .bind (getActivity_computes _) ?_
  unfold Projection.onActivity
  cases p.getActivity r with
  | none => exact .pure
  | some row => exact .put _

theorem taskCompleted_computes (ts : Timestamp) (t : Task) (output : Json) :
    Computes (taskCompleted ts t output) p () (p.completeTask ts t output) := by
  refine .bind (getTask_computes _) ?_
  unfold Projection.completeTask
  cases p.getTask t.objectRef with
  | none => exact .pure
  | some row =>
    refine .bind (.put _) (.bind (getActivity_computes _) ?_)
    unfold Projection.onActivity
    dsimp only [Write.apply]
    generalize p.putTask _ = q
    cases q.getActivity row.metadata.owner with
    | none => exact .bind .pure (.put _)
    | some act => exact .bind (.put _) (.put _)

theorem taskFailed_computes (ts : Timestamp) (t : Task) :
    Computes (taskFailed ts t) p () (p.failTask ts t) := by
  refine .bind (getTask_computes _) ?_
  unfold Projection.failTask
  cases p.getTask t.objectRef with
  | none => exact .pure
  | some row =>
    refine .bind (.put _) ?_
    dsimp only [Write.apply]
    split
    · exact ownerUpdated_computes _ _
    · exact .put _

theorem taskCancelled_computes (t : Task) :
    Computes (taskCancelled t) p () (p.cancelTask t) := by
  refine .bind (getTask_computes _) ?_
  unfold Projection.cancelTask
  cases p.getTask t.objectRef with
  | none => exact .pure
  | some row => exact .bind (.put _) (.put _)

/-- The part of an applier that records a thread in its container's fan-out map. -/
theorem fanOutRecorded_computes (ts : Timestamp) (t : Thread) (r : ObjectRef .activity)
    (owned : t.metadata.owner = .activity r) :
    Computes (do
      match ← getActivity r with
      | some act =>
        match recordChild act.activityState t.index t.objectRef with
        | some state =>
          put (.activity { act with
            activityState := some state
            metadata := act.metadata.withUpdateAt ts })
        | none => pure ()
      | none => pure ()) p () (p.recordFanOut ts t) := by
  simp only [Projection.recordFanOut, owned]
  refine .bind (getActivity_computes _) ?_
  cases p.getActivity r with
  | none => exact .pure
  | some act =>
    dsimp only
    cases recordChild act.activityState t.index t.objectRef with
    | none => exact .pure
    | some state => exact .put _

theorem threadCreated_computes (ts : Timestamp) (t : Thread) :
    Computes (threadCreated ts t) p () (p.createThread ts t) := by
  unfold threadCreated Projection.createThread
  refine .bind (.put _) ?_
  cases owned : t.metadata.owner with
  | execution r =>
    simp only [Projection.inheritScope, Projection.recordFanOut, owned]
    exact .bind (bumpGeneratedSeq_computes _) (.bind (.put _) .pure)
  | activity r =>
    have rest : ∀ q : Projection, Computes (do
        bumpGeneratedSeq t.metadata.name
        put (.addChild (ThreadOwner.activity r).raw t.objectRef.raw)
        match ← getActivity r with
        | some act =>
          match recordChild act.activityState t.index t.objectRef with
          | some state =>
            put (.activity { act with
              activityState := some state
              metadata := act.metadata.withUpdateAt ts })
          | none => pure ()
        | none => pure ()) q ()
        (((q.bump t.metadata.name).addChild (ThreadOwner.activity r).raw
          t.objectRef.raw).recordFanOut ts t) := fun q =>
      .bind (bumpGeneratedSeq_computes _)
        (.bind (.put _) (fanOutRecorded_computes ts t r owned))
    refine .bind (peekActivity_computes _) ?_
    simp only [Projection.inheritScope, owned, Write.apply]
    generalize p.putThread t = q
    cases q.getActivity r with
    | none => exact rest q
    | some act => exact .bind (getVariables_computes _) (.bind (.put _) (rest _))

theorem threadUpdated_computes (f : Thread → Thread) (r : ObjectRef .thread) :
    Computes (do
      match ← getThread r with
      | some row => put (.thread (f row))
      | none => pure ()) p () (p.onThread r f) := by
  refine .bind (getThread_computes _) ?_
  unfold Projection.onThread
  cases p.getThread r with
  | none => exact .pure
  | some row => exact .put _

theorem threadSettled_computes (f : Thread → Thread) (r : ObjectRef .thread) :
    Computes (do
      match ← getThread r with
      | some row =>
        put (.thread (f row))
        put (.removeChild row.metadata.owner.raw r.raw)
      | none => pure ()) p () (p.settleThread r f) := by
  refine .bind (getThread_computes _) ?_
  unfold Projection.settleThread
  cases p.getThread r with
  | none => exact .pure
  | some row => exact .bind (.put _) (.put _)

end Applier

open Txn Applier

variable {p : Projection} {e : Event} (ts : Timestamp)

/-- Without faults an event that folds has exactly its effect. -/
theorem dispatchEvent_computes (folds : e.Folds p) :
    Computes (dispatchEvent ts e) p () (e.apply ts p) := by
  cases e with
  | executionCreated | variablesAssigned => exact .put _
  | executionCompleting | executionCompleted => exact executionOutcome_computes _ _
  | executionTerminating | executionTerminated => exact executionStatus_computes _
  | flowCreated => exact .putFlow folds
  | flowVersionCreated id v =>
    obtain ⟨name, named, plain⟩ := folds
    exact flowVersionCreated_computes ts v named plain
  | stateActivating a => exact stateActivating_computes a
  | stateActivated | stateCompleting | stateTerminating => exact stateReplaced_computes _
  | stateCompleted | stateTerminated => exact stateSettled_computes _
  | stateTransitioned => exact .pure
  | taskActivated t => exact taskActivated_computes t
  | tasksClaimed _ tasks => exact tasksClaimed_computes ts tasks
  | taskCompleted _ t output => exact taskCompleted_computes ts t output
  | taskFailed t => exact taskFailed_computes ts t
  | taskCancelled t => exact taskCancelled_computes t
  | threadCreated t => exact threadCreated_computes ts t
  | threadCompleting | threadTerminating => exact threadUpdated_computes _ _
  | threadCompleted | threadTerminated => exact threadSettled_computes _ _

theorem flowVersionCreated_panics {v}
    (stuck : ∀ name, v.flowName = some name → (p.flowOf name v).metadata.name.asPlain = none) :
    Panics (flowVersionCreated ts v) p := by
  unfold flowVersionCreated
  refine .bind (.put _) ?_
  cases named : v.flowName with
  | none => exact fun _ _ _ => ⟨_, _, rfl⟩
  | some name => exact .bind (getFlowByName_computes name) (.putFlow (stuck name named))

/-- An event that does not fold panics. -/
theorem dispatchEvent_panics (stuck : ¬ e.Folds p) : Panics (dispatchEvent ts e) p := by
  cases e with
  | flowCreated _ f => exact .putFlow (Classical.not_not.mp stuck)
  | flowVersionCreated _ v =>
    refine flowVersionCreated_panics ts fun name named => ?_
    by_contra plain
    exact stuck ⟨name, named, plain⟩
  | _ => exact absurd trivial stuck

/-- A fault-free fold that does not panic has the event's effect. -/
theorem dispatchEvent_ok {ts b} (ff : b.FaultFree) {s s' r}
    (ran : (dispatchEvent ts e).run interpret b s = (r, s'))
    (noPanic : ∀ msg, r ≠ .error (.panicked msg)) :
    e.Folds s.rows ∧ s'.rows = e.apply ts s.rows := by
  by_cases folds : e.Folds s.rows
  · obtain ⟨m, computed⟩ := dispatchEvent_computes ts folds b ff s.calls
    rw [ran] at computed
    cases computed
    exact ⟨folds, rfl⟩
  · obtain ⟨msg, t, panicked⟩ := dispatchEvent_panics ts folds b ff s.calls
    rw [ran] at panicked
    cases panicked
    exact absurd rfl (noPanic msg)

end Spica
