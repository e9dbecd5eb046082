import Spica.Rows
import Spica.Handler

/-! # What an event presupposes

`Event.Legal` says on which projections an event may be folded: its row is there, in the phase it
leaves, or is not there yet; a closing object has drained. Folding a legal event moves every row by
at most one step of its lifecycle and keeps the ownership forest sound.
-/

namespace Spica

variable {n : ObjectName}

/-- The state owns threads. -/
def State.fansOut : State → Bool
  | .parallel _ | .map _ => true
  | _ => false

namespace Projection

/-- The machine a thread is bound to has the state `d` at the path. -/
def Defines (env : Env) (p : Projection) (thread : Thread) (path : StatePath) (d : State) : Prop :=
  ∃ exec ver machine, p.getExecution thread.execution = some exec ∧
    p.getFlowVersion exec.flowVersion = some ver ∧ env.parse ver.definition = .ok machine ∧
    machine.stateAt path = .ok d

/-- The owner of a new thread: an execution that is not over, or a running fan-out activity. -/
def LiveOwner (p : Projection) : ThreadOwner → Prop
  | .execution r => ∃ e, p.getExecution r = some e ∧ e.objectRef = r ∧ e.status.isTerminal = false
  | .activity r => ∃ a, p.getActivity r = some a ∧ a.objectRef = r ∧ a.status = .running ∧ a.fansOut

/-- A new activity enters a state of its running thread. -/
def Enters (env : Env) (p : Projection) (a : Activity) : Prop :=
  ∃ t d, p.getThread a.metadata.owner = some t ∧ t.objectRef = a.metadata.owner ∧
    t.status = .running ∧ p.Defines env t a.statePath d ∧ d.fansOut = a.fansOut

/-- The activity's threads, if it owns any, are all settled. -/
def Drained (p : Projection) (row : Activity) : Prop :=
  row.fansOut → p.getChildren row.objectRef.raw = []

end Projection

/-- The projections on which an event may be folded. -/
def Event.Legal (env : Env) (p : Projection) : Event → Prop
  | .executionCreated _ e => p.getExecution e.objectRef = none ∧ e.status = .running
  | .executionCompleting e => ∃ row, p.getExecution e.objectRef = some row ∧ row.status = .running
  | .executionCompleted e => ∃ row, p.getExecution e.objectRef = some row ∧
      row.status = .completing ∧ p.getChildren row.objectRef.raw = []
  | .executionTerminating e => ∃ row r, p.getExecution e.objectRef = some row ∧
      row.status = .running ∧ e.status = .terminating r
  | .executionTerminated e => ∃ row r, p.getExecution e.objectRef = some row ∧
      row.status = .terminating r ∧ e.status = .terminated r ∧
      p.getChildren row.objectRef.raw = []
  | .flowCreated _ _ => True
  | .flowVersionCreated _ v => p.flowVersions.lookup v.metadata.name = none ∧
      p.flows.lookup v.metadata.name.base ≠ none
  | .threadCreated t => p.getThread t.objectRef = none ∧ t.status = .running ∧
      p.LiveOwner t.metadata.owner
  | .threadCompleting t => ∃ row, p.getThread t.objectRef = some row ∧ row.status = .running
  | .threadCompleted t => ∃ row, p.getThread t.objectRef = some row ∧
      row.objectRef = t.objectRef ∧ row.status = .completing ∧
      p.getChildren row.objectRef.raw = []
  | .threadTerminating t => ∃ row r, p.getThread t.objectRef = some row ∧ row.status = .running ∧
      t.status = .terminating r
  | .threadTerminated t => ∃ row r, p.getThread t.objectRef = some row ∧
      row.objectRef = t.objectRef ∧ row.status = .terminating r ∧ t.status = .terminated r ∧
      p.getChildren row.objectRef.raw = []
  | .stateActivating a => p.getActivity a.objectRef = none ∧ a.status = .running ∧ p.Enters env a
  | .stateActivated a => ∃ row, p.getActivity a.objectRef = some row ∧ row.Same a ∧
      row.status = .running ∧ a.status = .running
  | .stateCompleting a => ∃ row, p.getActivity a.objectRef = some row ∧ row.Same a ∧
      row.status = .running ∧ a.status = .completing
  | .stateTerminating a => ∃ row r, p.getActivity a.objectRef = some row ∧ row.Same a ∧
      (row.status = .running ∨ row.status = .completing) ∧ a.status = .terminating r
  | .stateCompleted a => ∃ row, p.getActivity a.objectRef = some row ∧ row.Same a ∧
      (row.status = .running ∨ row.status = .completing) ∧ a.status = .completed ∧ p.Drained row
  | .stateTerminated a => ∃ row r, p.getActivity a.objectRef = some row ∧ row.Same a ∧
      row.status = .terminating r ∧ a.status = .terminated r ∧ p.Drained row
  | .variablesAssigned _ _ | .stateTransitioned _ _ | .tasksClaimed _ _ => True
  | .taskActivated t => p.getTask t.objectRef = none ∧ t.status = .pending
  | .taskCompleted _ t _ | .taskCancelled t => ∃ row, p.getTask t.objectRef = some row ∧
      row.objectRef = t.objectRef ∧ row.status.isTerminal = false
  | .taskFailed t _ => ∃ row, p.getTask t.objectRef = some row ∧ row.Same t ∧
      row.status.isTerminal = false ∧ (t.status = .pending ∨ t.status = .failed)

/-! ## Rows move forward -/

namespace Projection

variable {env : Env} {p p' : Projection} {ts : Timestamp}

/-- One change of the projection: every row that changes makes one move of its lifecycle, new rows
    start theirs, and flow versions are never touched. -/
structure Evolves (env : Env) (p p' : Projection) : Prop where
  executions : p.executions.Evolves Execution.Moves (fun _ e => e.status = .running) p'.executions
  threads : p.threads.Evolves Thread.Moves
    (fun _ t => t.status = .running ∧ p.LiveOwner t.metadata.owner) p'.threads
  activities : p.activities.Evolves Activity.Moves
    (fun _ a => a.status = .running ∧ p.Enters env a) p'.activities
  tasks : p.tasks.Evolves Task.Moves (fun _ t => t.status = .pending) p'.tasks
  flowVersions : p.flowVersions.Evolves (fun v v' => v' = v)
    (fun n _ => p.flows.lookup n.base ≠ none) p'.flowVersions
  flows : p.flows.Evolves (fun _ _ => True) (fun _ _ => True) p'.flows

theorem Evolves.refl (env : Env) (p : Projection) : p.Evolves env p where
  executions := .refl fun _ => .inl rfl
  threads := .refl fun _ => .inl rfl
  activities := .refl fun _ => .inl rfl
  tasks := .refl fun _ => .inl rfl
  flowVersions := .refl fun _ => rfl
  flows := .refl fun _ => trivial

variable {q : Projection}

/-! One row changes and the rest stays; edges, scopes and the counter are not looked at. -/

theorem Evolves.execution (owned : p.Owned) {row row'} (found : p.executions.lookup n = some row)
    (same : row.Same row') (step : row.status.Step row'.status) :
    p.Evolves env (p.putExecution row') := by
  have name : row'.metadata.name = n := by
    rw [← owned.execution_name found]
    exact same.identity.2.2.1.symm
  refine { Evolves.refl env p with executions := .insert (fun _ => .inl rfl) ?_ }
  rw [name, found]
  exact .kept (.inr ⟨same, step⟩)

theorem Evolves.thread (owned : p.Owned) {row row'} (found : p.threads.lookup n = some row)
    (same : row.Same row') (step : row.status.Step row'.status) :
    p.Evolves env (p.putThread row') := by
  have name : row'.metadata.name = n := by
    rw [← owned.thread_name found]
    exact same.identity.2.2.1.symm
  refine { Evolves.refl env p with threads := .insert (fun _ => .inl rfl) ?_ }
  rw [name, found]
  exact .kept (.inr ⟨same, step⟩)

theorem Evolves.activity (owned : p.Owned) (evolves : p.Evolves env q)
    (untouched : q.activities = p.activities) {row row'}
    (found : p.activities.lookup n = some row) (same : row.Same row')
    (step : row'.status = row.status ∨ row.status.ActivityStep row'.status) :
    p.Evolves env (q.putActivity row') := by
  have name : row'.metadata.name = n := by
    rw [← owned.activity_name found]
    exact same.identity.2.2.1.symm
  refine { evolves with activities := ?_ }
  unfold putActivity
  rw [untouched]
  refine .insert (fun _ => .inl rfl) ?_
  rw [name, found]
  exact .kept (.inr ⟨same, step⟩)

theorem Evolves.task (owned : p.Owned) {row row'} (found : p.tasks.lookup n = some row)
    (same : row.Same row') (step : row.status.Step row'.status) :
    p.Evolves env (p.putTask row') := by
  have name : row'.metadata.name = n := by
    rw [← owned.task_name found]
    exact same.identity.2.2.1.symm
  refine { Evolves.refl env p with tasks := .insert (fun _ => .inl rfl) ?_ }
  rw [name, found]
  exact .kept (.inr ⟨same, step⟩)

theorem Evolves.removeChild (evolves : p.Evolves env q) (parent child : RawObjectRef) :
    p.Evolves env (q.removeChild parent child) := { evolves with }

theorem Evolves.addChild (evolves : p.Evolves env q) (parent child : RawObjectRef) :
    p.Evolves env (q.addChild parent child) := { evolves with }

theorem Evolves.bump (evolves : p.Evolves env q) (name : ObjectName) :
    p.Evolves env (q.bump name) := { evolves with }

/-- The owner's row takes a report without changing its phase. -/
theorem Evolves.report (owned : p.Owned) (evolves : p.Evolves env q)
    (untouched : q.activities = p.activities) (r : ObjectRef .activity) {f}
    (same : ∀ row : Activity, row.Same (f row)) (phase : ∀ row, (f row).status = row.status) :
    p.Evolves env (q.onActivity r f) := by
  unfold Projection.onActivity
  split
  · next row found =>
      have found : p.activities.lookup r.name = some row := by rw [← untouched]; exact found
      exact .activity owned evolves untouched found (same row) (.inl (phase row))
  · exact evolves

/-! ### A new thread -/

theorem inheritScope_eq (t : Thread) : ∃ scopes, p.inheritScope t = { p with scopes := scopes } := by
  unfold inheritScope
  split
  · split
    · exact ⟨_, rfl⟩
    · exact ⟨_, rfl⟩
  · exact ⟨_, rfl⟩

theorem bump_eq (name : ObjectName) : ∃ n, p.bump name = { p with nextGeneratedSeq := n } :=
  ⟨_, rfl⟩

/-- Up to the owner's own record, a new thread touches threads, scopes, edges and the counter. -/
theorem createThread_eq (ts : Timestamp) (t : Thread) : ∃ scopes n, p.createThread ts t =
    ({ p.putThread t with scopes := scopes, nextGeneratedSeq := n }.addChild
      t.metadata.owner.raw t.objectRef.raw).recordFanOut ts t := by
  obtain ⟨scopes, inherited⟩ := inheritScope_eq (p := p.putThread t) t
  obtain ⟨n, bumped⟩ := bump_eq (p := { p.putThread t with scopes := scopes }) t.metadata.name
  refine ⟨scopes, n, ?_⟩
  rw [createThread, inherited, bumped]

/-- Recording a thread keeps a fan-out activity one. -/
theorem recordChild_fansOut {a : Activity} {index r state m} (fans : a.fansOut)
    (recorded : Applier.recordChild a.activityState index r = some state) :
    { a with activityState := some state, metadata := m }.fansOut = a.fansOut := by
  rw [fans]
  unfold Activity.fansOut at fans ⊢
  unfold Applier.recordChild at recorded
  split at fans
  · next s same =>
      rw [same] at recorded
      cases recorded
      rfl
  · next s same =>
      rw [same] at recorded
      cases recorded
      rfl
  · cases fans
  · cases fans

theorem Evolves.createThread (owned : p.Owned) {t : Thread} (ts : Timestamp)
    (fresh : p.getThread t.objectRef = none) (running : t.status = .running)
    (owner : p.LiveOwner t.metadata.owner) : p.Evolves env (p.createThread ts t) := by
  obtain ⟨scopes, n, equal⟩ := createThread_eq (p := p) ts t
  have born : p.Evolves env (p.putThread t) := by
    refine { Evolves.refl env p with threads := .insert (fun _ => .inl rfl) ?_ }
    have fresh : p.threads.lookup t.metadata.name = none := fresh
    rw [fresh]
    exact .born ⟨running, owner⟩
  have born : p.Evolves env ({ p.putThread t with scopes := scopes, nextGeneratedSeq := n }.addChild
      t.metadata.owner.raw t.objectRef.raw) := { born with }
  rw [equal]
  unfold recordFanOut
  split
  · exact born
  · next r named =>
      rw [named] at owner
      obtain ⟨a, found, -, -, fans⟩ := owner
      have found' : p.activities.lookup r.name = some a := found
      split
      · next act there =>
          have there : p.getActivity r = some act := there
          rw [found] at there
          cases there
          split
          · next state recorded =>
              exact .activity owned born rfl found'
                ⟨ObjectMeta.sameIdentity_withUpdateAt _ _, rfl, rfl,
                  recordChild_fansOut fans recorded⟩ (.inl rfl)
          · exact born
      · exact born

/-! ### Claims -/

/-- The tasks of a projection after some claims. -/
structure Claimed (before after : Table ObjectName Task) : Prop where
  evolves : before.Evolves Task.Claims (fun _ _ => False) after
  names : ∀ n row, after.lookup n = some row → row.metadata.name = n

theorem Claimed.claimTask {tasks} (claimed : Claimed p.tasks tasks) (ts : Timestamp)
    (granted : Task) : ∃ tasks', Claimed p.tasks tasks' ∧
      Projection.claimTask ts { p with tasks := tasks } granted = { p with tasks := tasks' } := by
  unfold Projection.claimTask
  split
  · next row found =>
      have found : tasks.lookup granted.metadata.name = some row := found
      split
      · next claimable =>
          have name : (Applier.claimedRow row granted).metadata.name = granted.metadata.name :=
            (claimed.names _ row found : _)
          refine ⟨tasks.insert granted.metadata.name (Applier.claimedRow row granted),
            ⟨fun n => ?_, fun n row' there => ?_⟩, by rw [putTask, name]⟩
          · by_cases here : n = granted.metadata.name
            · subst here
              rw [AList.lookup_insert]
              obtain ⟨-, none⟩ | ⟨row₀, before, claims⟩ := claimed.evolves.inv found
              · exact none.elim
              · rw [before]
                exact .kept (Task.Claims.claimed claims granted (Task.claimable_not_terminal claimable))
            · rw [AList.lookup_insert_ne here]
              exact claimed.evolves n
          · by_cases here : n = granted.metadata.name
            · subst here
              rw [AList.lookup_insert] at there
              cases there
              exact name
            · rw [AList.lookup_insert_ne here] at there
              exact claimed.names n row' there
      · exact ⟨tasks, claimed, rfl⟩
  · exact ⟨tasks, claimed, rfl⟩

theorem Claimed.claimTasks (ts : Timestamp) (granted : List Task) :
    ∀ {tasks : Table ObjectName Task}, Claimed p.tasks tasks → ∃ tasks', Claimed p.tasks tasks' ∧
      granted.foldl (Projection.claimTask ts) { p with tasks := tasks } =
        { p with tasks := tasks' } := by
  induction granted with
  | nil => exact fun claimed => ⟨_, claimed, rfl⟩
  | cons g rest ih =>
    intro tasks claimed
    obtain ⟨tasks', claimed', equal⟩ := claimed.claimTask ts g
    rw [List.foldl_cons, equal]
    exact ih claimed'

/-- A claim is a move of the tasks it reaches, and touches nothing else. -/
theorem Owned.claimTasks (owned : p.Owned) (ts : Timestamp) (granted : List Task) :
    ∃ tasks', Claimed p.tasks tasks' ∧
      granted.foldl (Projection.claimTask ts) p = { p with tasks := tasks' } :=
  Claimed.claimTasks ts granted ⟨.refl fun _ => .inl rfl, fun _ _ => owned.task_name⟩

/-! ### Every event -/

theorem Evolves.fileFlow (evolves : p.Evolves env q) (untouched : q.flows = p.flows) (f : Flow) :
    p.Evolves env (q.fileFlow f) := by
  unfold Projection.fileFlow
  split
  · refine { evolves with flows := ?_ }
    unfold putFlow
    rw [untouched]
    refine .insert (fun _ => trivial) ?_
    cases p.flows.lookup _ with
    | none => exact .born trivial
    | some => exact .kept trivial
  · exact evolves

theorem Evolves.createFlowVersion {v} (ts : Timestamp)
    (fresh : p.flowVersions.lookup v.metadata.name = none)
    (flow : p.flows.lookup v.metadata.name.base ≠ none) :
    p.Evolves env (p.createFlowVersion ts v) := by
  have born : p.Evolves env (p.putFlowVersion v) := by
    refine { Evolves.refl env p with flowVersions := .insert (fun _ => rfl) ?_ }
    rw [fresh]
    exact .born flow
  unfold Projection.createFlowVersion
  split
  · exact born
  · exact born.fileFlow rfl _

end Projection

open Projection in
/-- Folding a legal event moves every row by at most one step. -/
theorem Event.Legal.evolves {env p} (owned : p.Owned) {e : Event} (legal : e.Legal env p)
    (ts : Timestamp) : p.Evolves env (e.apply ts p) := by
  have touched {ω : Type} (m : ObjectMeta ω) (at_ : Timestamp) : m.SameIdentity (m.withUpdateAt at_) :=
    ObjectMeta.sameIdentity_withUpdateAt m at_
  cases e with
  | flowCreated _ f => exact (Evolves.refl env p).fileFlow rfl f
  | flowVersionCreated _ v => exact .createFlowVersion ts legal.1 legal.2
  | executionCreated _ e =>
    have fresh : p.executions.lookup e.metadata.name = none := legal.1
    refine { Evolves.refl env p with executions := .insert (fun _ => .inl rfl) ?_ }
    rw [fresh]
    exact .born legal.2
  | executionCompleting e =>
    obtain ⟨row, found, status⟩ := legal
    rw [Event.apply, onExecution_some found]
    exact .execution owned found ⟨touched _ _, rfl⟩ (status ▸ .completing)
  | executionCompleted e =>
    obtain ⟨row, found, status, -⟩ := legal
    rw [Event.apply, onExecution_some found]
    exact .execution owned found ⟨touched _ _, rfl⟩ (status ▸ .completed)
  | executionTerminating e =>
    obtain ⟨row, r, found, status, next⟩ := legal
    rw [Event.apply, onExecution_some found]
    exact .execution owned found ⟨touched _ _, rfl⟩ (status ▸ next ▸ .terminating r)
  | executionTerminated e =>
    obtain ⟨row, r, found, status, next, -⟩ := legal
    rw [Event.apply, onExecution_some found]
    exact .execution owned found ⟨touched _ _, rfl⟩ (status ▸ next ▸ .terminated r)
  | threadCreated t => exact .createThread owned ts legal.1 legal.2.1 legal.2.2
  | threadCompleting t =>
    obtain ⟨row, found, status⟩ := legal
    rw [Event.apply, onThread_some found]
    exact .thread owned found ⟨touched _ _, rfl, rfl⟩ (status ▸ .completing)
  | threadCompleted t =>
    obtain ⟨row, found, -, status, -⟩ := legal
    rw [Event.apply, settleThread_some found]
    refine .removeChild ?_ _ _
    exact .thread owned found ⟨touched _ _, rfl, rfl⟩ (status ▸ .completed)
  | threadTerminating t =>
    obtain ⟨row, r, found, status, next⟩ := legal
    rw [Event.apply, onThread_some found]
    exact .thread owned found ⟨touched _ _, rfl, rfl⟩ (status ▸ next ▸ .terminating r)
  | threadTerminated t =>
    obtain ⟨row, r, found, -, status, next, -⟩ := legal
    rw [Event.apply, settleThread_some found]
    refine .removeChild ?_ _ _
    exact .thread owned found ⟨touched _ _, rfl, rfl⟩ (status ▸ next ▸ .terminated r)
  | stateActivating a =>
    obtain ⟨fresh, running, enters⟩ := legal
    have fresh : p.activities.lookup a.metadata.name = none := fresh
    refine (Evolves.bump ?_ _).addChild _ _
    refine { Evolves.refl env p with activities := .insert (fun _ => .inl rfl) ?_ }
    rw [fresh]
    exact .born ⟨running, enters⟩
  | stateActivated a =>
    obtain ⟨row, found, same, status, next⟩ := legal
    rw [Event.apply, onActivity_some found]
    exact .activity owned (.refl env p) rfl found same (.inl (next.trans status.symm))
  | stateCompleting a =>
    obtain ⟨row, found, same, status, next⟩ := legal
    rw [Event.apply, onActivity_some found]
    exact .activity owned (.refl env p) rfl found same (.inr (status ▸ next ▸ .shared .completing))
  | stateTerminating a =>
    obtain ⟨row, r, found, same, status, next⟩ := legal
    rw [Event.apply, onActivity_some found]
    refine .activity owned (.refl env p) rfl found same (.inr ?_)
    rcases status with status | status
    · exact status ▸ next ▸ .shared (.terminating r)
    · exact status ▸ next ▸ .failed r
  | stateCompleted a =>
    obtain ⟨row, found, same, status, next, -⟩ := legal
    rw [Event.apply, settleActivity_some found]
    refine (Evolves.activity owned (.refl env p) rfl found same (.inr ?_)).removeChild _ _
    rcases status with status | status
    · exact status ▸ next ▸ .caught
    · exact status ▸ next ▸ .shared .completed
  | stateTerminated a =>
    obtain ⟨row, r, found, same, status, next, -⟩ := legal
    rw [Event.apply, settleActivity_some found]
    exact (Evolves.activity owned (.refl env p) rfl found same
      (.inr (status ▸ next ▸ .shared (.terminated r)))).removeChild _ _
  | variablesAssigned scope vars => exact { Evolves.refl env p with }
  | stateTransitioned _ _ => exact .refl env p
  | taskActivated t =>
    obtain ⟨fresh, pending⟩ := legal
    have fresh : p.tasks.lookup t.metadata.name = none := fresh
    refine (Evolves.bump ?_ _).addChild _ _
    refine { Evolves.refl env p with tasks := .insert (fun _ => .inl rfl) ?_ }
    rw [fresh]
    exact .born pending
  | tasksClaimed _ granted =>
    obtain ⟨tasks, claimed, equal⟩ := owned.claimTasks ts granted
    rw [Event.apply, equal]
    have moved := claimed.evolves.mono (fun _ _ => Task.Claims.moves)
      fun _ (t : Task) never => (never.elim : t.status = .pending)
    exact { Evolves.refl env p with tasks := moved }
  | taskCompleted _ t output =>
    obtain ⟨row, found, -, open_⟩ := legal
    rw [Event.apply, Projection.completeTask, found]
    refine .removeChild ?_ _ _
    refine .report owned ?_ ?_ _ ?_ ?_
    · exact .task owned found ⟨touched _ _, rfl⟩ ⟨open_, .inl rfl⟩
    · rfl
    · exact fun _ => ⟨touched _ _, rfl, rfl, rfl⟩
    · exact fun _ => rfl
  | taskFailed t error =>
    obtain ⟨row, found, same, open_, next⟩ := legal
    have moved : p.Evolves env (p.putTask t) := by
      refine .task owned found same ⟨open_, ?_⟩
      rcases next with next | next
      · exact .inr (.inl next)
      · exact .inl (by rw [next]; rfl)
    rw [Event.apply, Projection.failTask, found]
    dsimp only
    split
    · exact .report owned moved rfl _ (fun _ => ⟨touched _ _, rfl, rfl, rfl⟩) fun _ => rfl
    · exact moved.removeChild _ _
  | taskCancelled t =>
    obtain ⟨row, found, -, open_⟩ := legal
    rw [Event.apply, Projection.cancelTask, found]
    refine .removeChild ?_ _ _
    exact .task owned found ⟨touched _ _, rfl⟩ ⟨open_, .inl rfl⟩

end Spica
