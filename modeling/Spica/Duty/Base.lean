import Spica.Duty.Rules
import Spica.Elements.Activity
import Spica.Elements.Thread
import Spica.Elements.Execution
import Spica.Elements.Task

/-! # What the answers share

Rows as a handler finds them, the moves it makes on them, and what a command may rely on when it is
dispatched.
-/

namespace Spica

variable {t t' : Task} {d : State} {n : ObjectName} {a row a' : Activity} {r : ObjectRef .thread}
  {output : Json} {at_ : Timestamp} {e e' : Execution} {f : Thread → Thread}
  {reason : TerminationReason} {status : Status} {shown : Option String → String}
  {workerId : String}

/-- Nothing but variables changed. -/
def Draft.SameRows (s s' : Draft) : Prop := ∃ scopes, s'.rows = { s.rows with scopes := scopes }

theorem Draft.SameRows.refl (s : Draft) : s.SameRows s := ⟨_, rfl⟩

/-- Commands that name no owner and no new task. -/
def Command.isPlain : Command → Bool
  | .activateTask _ | .spawnThread _ | .activateState _ => false
  | _ => true

theorem Command.may_plain {c} (plain : c.isPlain) (start : Start) (s : Draft) :
    s.MayCommand start c := by
  cases c <;> first | exact trivial | cases plain

/-! ## The definition of a state -/

section definitions

variable {env : Env} {start : Start} {s : Draft}

/-- What a thread's machine says about a state is said once. -/
theorem Projection.Defines.unique {p : Projection} {t path d'} (one : p.Defines env t path d)
    (two : p.Defines env t path d') : d = d' := by
  obtain ⟨exec, ver, machine, found, filed, parsed, at_⟩ := one
  obtain ⟨exec', ver', machine', found', filed', parsed', at_'⟩ := two
  rw [found] at found'
  cases found'
  rw [filed] at filed'
  cases filed'
  rw [parsed] at parsed'
  cases parsed'
  rw [at_] at at_'
  exact Except.ok.inj at_'

/-- The definition found for an activity is the one it was born under. -/
theorem Draft.Lawful.shape (lawful : s.Lawful env start) {act : Activity} {thread}
    (found : s.rows.activities.lookup n = some act)
    (owner : s.rows.getThread act.metadata.owner = some thread)
    (defines : s.rows.Defines env thread act.statePath d) : act.fansOut = d.fansOut := by
  obtain ⟨t, d', owner', defines', fans⟩ := lawful.sound.activities found
  rw [owner] at owner'
  cases owner'
  rw [defines.unique defines']
  exact fans.symm

end definitions

/-! ## Owners -/

namespace Projection

variable {env : Env} {p : Projection}

theorem Sound.activity_owner (sound : p.Sound env) (found : p.activities.lookup n = some a) :
    ∃ t, p.getThread a.metadata.owner = some t ∧ t.objectRef = a.metadata.owner := by
  have here : p.forest.node (.activity, n) = some a.node := node_activity found
  obtain ⟨m, there, id, -⟩ := Forest.Sound.owned sound.owned (.inr rfl) here rfl
  have there : (p.threads.lookup a.metadata.owner.name).map Thread.node = some m := there
  obtain ⟨t, got, rfl⟩ := Option.map_eq_some_iff.mp there
  exact ⟨t, got, ObjectRef.raw_injective id⟩

theorem Sound.thread_owner (sound : p.Sound env) {t r} (found : p.threads.lookup n = some t)
    (owner : t.metadata.owner = .activity r) : ∃ a, p.getActivity r = some a ∧ a.objectRef = r := by
  have here : p.forest.node (.thread, n) = some t.node := node_thread found
  obtain ⟨m, there, id, -⟩ := Forest.Sound.owned sound.owned (.inl rfl) here rfl
  rw [owner] at there id
  have there : (p.activities.lookup r.name).map Activity.node = some m := there
  obtain ⟨a, got, rfl⟩ := Option.map_eq_some_iff.mp there
  exact ⟨a, got, ObjectRef.raw_injective id⟩

end Projection

/-! ## Closing an activity -/

/-- The activity in the handler's hands is the row. -/
def Draft.Stands (s : Draft) (act : Activity) : Prop := s.rows.getActivity act.objectRef = some act

section closing

variable {env : Env} {start : Start} {s s' : Draft} {act : Activity}

theorem Draft.SameRows.stands (same : s.SameRows s') (stands : s.Stands act) : s'.Stands act := by
  obtain ⟨scopes, same⟩ := same
  unfold Draft.Stands
  rw [same]
  exact stands

theorem Draft.SameRows.drained (same : s.SameRows s') (drained : s.rows.Drained act) :
    s'.rows.Drained act := by
  obtain ⟨scopes, same⟩ := same
  unfold Projection.Drained
  rw [same]
  exact drained

/-- An event that gives birth to nothing and reports nothing. -/
theorem Draft.MayEvent.of_legal {e} (legal : e.Legal env s.rows) (quiet : e.bornName = none)
    (flow : e.definesFlow = false) (punctual : e.Punctual s.rows) : s.MayEvent env start e := by
  refine .unborn legal quiet ?_ fun _ => punctual
  cases e with
  | flowCreated | flowVersionCreated => cases flow
  | taskActivated => cases quiet
  | _ => trivial

/-- The thread of the activity is there under its full reference. -/
def Draft.OwnerStands (s : Draft) (act : Activity) : Prop :=
  ∃ t, s.rows.getThread act.metadata.owner = some t ∧ t.objectRef = act.metadata.owner

theorem Draft.Lawful.ownerStands (lawful : s.Lawful env start)
    (found : s.rows.getActivity act.objectRef = some row)
    (owner : row.metadata.owner = act.metadata.owner) : s.OwnerStands act := by
  unfold Draft.OwnerStands
  rw [← owner]
  exact lawful.sound.activity_owner found

/-- The row an event puts in place of another is the one that stands. -/
theorem stands_replaced (found : s.rows.getActivity act.objectRef = some row) :
    (s.rows.onActivity act.objectRef fun _ => act).getActivity act.objectRef = some act := by
  rw [Projection.onActivity_some found]
  exact AList.lookup_insert _

theorem stands_settled (found : s.rows.getActivity act.objectRef = some row) :
    (s.rows.settleActivity act).getActivity act.objectRef = some act := by
  rw [Projection.settleActivity_some found]
  exact AList.lookup_insert _

theorem children_replaced (r : ObjectRef .activity) (f : Activity → Activity) (p : Projection) :
    (p.onActivity r f).children = p.children := by
  unfold Projection.onActivity
  split <;> rfl

theorem Activity.markCompleted_ok {completed} (ok : act.markCompleted output at_ = .ok completed) :
    act.status = .completing ∧ act.Same completed ∧ completed.status = .completed := by
  unfold Activity.markCompleted at ok
  split at ok
  · cases ok
  · next is =>
      cases ok
      refine ⟨?_, ⟨ObjectMeta.sameIdentity_withUpdateAt _ _, rfl, rfl, rfl⟩, rfl⟩
      cases status : act.status <;> simp [status, Status.isCompleting] at is ⊢

theorem Activity.markTerminated_ok {terminated} (ok : act.markTerminated at_ = .ok terminated) :
    ∃ r, act.status = .terminating r ∧ act.Same terminated ∧ terminated.status = .terminated r := by
  unfold Activity.markTerminated at ok
  split at ok
  · next r status =>
      cases ok
      exact ⟨r, status, ⟨ObjectMeta.sameIdentity_withUpdateAt _ _, rfl, rfl, rfl⟩, rfl⟩
  · cases ok

theorem Activity.markTerminating_ok {r terminating}
    (ok : act.markTerminating r at_ = .ok terminating) :
    (act.status = .running ∨ act.status = .completing) ∧ act.Same terminating ∧
      terminating.status = .terminating r := by
  unfold Activity.markTerminating at ok
  split at ok
  · cases ok
  · next is =>
      cases ok
      refine ⟨?_, ⟨ObjectMeta.sameIdentity_withUpdateAt _ _, rfl, rfl, rfl⟩, rfl⟩
      cases status : act.status <;>
        simp [status, Status.isTerminating, Status.isTerminal] at is ⊢

theorem Activity.markCompleting_ok {completing}
    (ok : act.markCompleting output at_ = .ok completing) :
    act.status = .running ∧ act.Same completing ∧ completing.status = .completing := by
  unfold Activity.markCompleting at ok
  split at ok
  · cases ok
  · next is =>
      cases ok
      refine ⟨?_, ⟨ObjectMeta.sameIdentity_withUpdateAt _ _, rfl, rfl, rfl⟩, rfl⟩
      cases status : act.status <;> simp [status, Status.isRunning] at is ⊢

theorem Activity.Same.objectRef (same : a.Same a') :
    a'.objectRef = a.objectRef := same.identity.objectRef .activity

theorem Activity.Same.owner (same : a.Same a') :
    a'.metadata.owner = a.metadata.owner := same.identity.2.2.2.2.2.symm

end closing

/-! ## Rows as they are found -/

section standing

variable {env : Env} {start : Start} {s : Draft}

theorem Draft.Lawful.stands (lawful : s.Lawful env start) {r act}
    (found : s.rows.getActivity r = some act) : s.Stands act := by
  have found : s.rows.activities.lookup r.name = some act := found
  show s.rows.activities.lookup act.metadata.name = some act
  rwa [lawful.sound.owned.activity_name found]

theorem Draft.Lawful.standing_thread (lawful : s.Lawful env start) {t}
    (found : s.rows.getThread r = some t) : s.rows.getThread t.objectRef = some t := by
  have found : s.rows.threads.lookup r.name = some t := found
  show s.rows.threads.lookup t.metadata.name = some t
  rwa [lawful.sound.owned.thread_name found]

theorem Draft.Lawful.standing_execution (lawful : s.Lawful env start) {r}
    (found : s.rows.getExecution r = some e) : s.rows.getExecution e.objectRef = some e := by
  have found : s.rows.executions.lookup r.name = some e := found
  show s.rows.executions.lookup e.metadata.name = some e
  rwa [lawful.sound.owned.execution_name found]

theorem Draft.Lawful.standing_task (lawful : s.Lawful env start) {r}
    (found : s.rows.getTask r = some t) : s.rows.getTask t.objectRef = some t := by
  have found : s.rows.tasks.lookup r.name = some t := found
  show s.rows.tasks.lookup t.metadata.name = some t
  rwa [lawful.sound.owned.task_name found]

end standing

/-! ## Threads -/

namespace Projection

variable {p : Projection}

theorem onThread_get (owned : p.Owned) {row} (found : p.getThread r = some row)
    (name : (f row).metadata.name = row.metadata.name) :
    (p.onThread r f).getThread r = some (f row) := by
  have known : row.metadata.name = r.name := owned.thread_name found
  rw [onThread_some found]
  unfold getThread Projection.putThread
  rw [name, known]
  exact AList.lookup_insert _

end Projection

namespace ThreadElement

open Projection

/-- Settling a thread leaves its row where it was. -/
theorem settled_there {row} {p : Projection} (found : p.getThread r = some row) :
    (p.settleThread r f).threads.lookup (f row).metadata.name = some (f row) := by
  rw [settleThread_some found]
  exact AList.lookup_insert _

theorem markTerminating_ok {row terminating : Thread}
    (ok : row.markTerminating reason at_ = .ok terminating) : row.status = .running ∧
      terminating = { row with
        status := .terminating reason, metadata := row.metadata.withUpdateAt at_ } := by
  unfold Thread.markTerminating at ok
  split at ok
  · cases ok
  · next is =>
      cases ok
      refine ⟨?_, rfl⟩
      cases status : row.status <;> simp [status, Status.isRunning] at is ⊢

theorem isCompleting_iff : status.isCompleting = true ↔ status = .completing := by
  cases status <;> simp [Status.isCompleting]

theorem isRunning_iff : status.isRunning = true ↔ status = .running := by
  cases status <;> simp [Status.isRunning]

theorem createThread_get (ts : Timestamp) (t : Thread) (p : Projection) :
    (p.createThread ts t).getThread t.objectRef = some t := by
  obtain ⟨scopes, n, equal⟩ := createThread_eq (p := p) ts t
  have put : (p.putThread t).threads.lookup t.metadata.name = some t := AList.lookup_insert _
  rw [equal]
  unfold recordFanOut
  split
  · exact put
  · split
    · split
      · exact put
      · exact put
    · exact put

end ThreadElement

/-! ## Executions -/

namespace ExecutionElement

open Projection

theorem onExecution_get {q : Projection} (owned : q.Owned) {r row f}
    (found : q.getExecution r = some row) (name : (f row).metadata.name = row.metadata.name) :
    (q.onExecution r f).getExecution r = some (f row) := by
  have known : row.metadata.name = r.name := owned.execution_name found
  rw [onExecution_some found]
  unfold Projection.getExecution Projection.putExecution
  rw [name, known]
  exact AList.lookup_insert _

theorem markTerminating_ok (ok : e.markTerminating reason at_ = .ok e') : e.status = .running ∧
      e' = { e with status := .terminating reason, metadata := e.metadata.withUpdateAt at_ } := by
  unfold Execution.markTerminating at ok
  split at ok
  · cases ok
  · next is =>
      cases ok
      exact ⟨ThreadElement.isRunning_iff.mp (by simpa using is), rfl⟩

theorem markTerminated_ok (ok : e.markTerminated at_ = .ok e') :
    ∃ r, e.status = .terminating r ∧
      e' = { e with status := .terminated r, metadata := e.metadata.withUpdateAt at_ } := by
  unfold Execution.markTerminated at ok
  split at ok
  · next r status =>
      cases ok
      exact ⟨r, status, rfl⟩
  · cases ok

theorem markCompleting_ok (ok : e.markCompleting output at_ = .ok e') : e.status = .running ∧
      e' = { e with
        status := .completing, output := some output, metadata := e.metadata.withUpdateAt at_ } := by
  unfold Execution.markCompleting at ok
  split at ok
  · cases ok
  · next is =>
      cases ok
      exact ⟨ThreadElement.isRunning_iff.mp (by simpa using is), rfl⟩

theorem markCompleted_ok (ok : e.markCompleted at_ = .ok e') :
    e.status = .completing ∧
      e' = { e with status := .completed, metadata := e.metadata.withUpdateAt at_ } := by
  unfold Execution.markCompleted at ok
  split at ok
  · cases ok
  · next is =>
      cases ok
      exact ⟨ThreadElement.isCompleting_iff.mp (by simpa using is), rfl⟩

end ExecutionElement

/-! ## Tasks -/

/-- A report of a task whose owner is over. -/
def Command.Late (rows : Projection) : Command → Prop
  | .completeTask p => ∃ row a, rows.getTask p.task = some row ∧ row.status.isTerminal = false ∧
      rows.getActivity row.metadata.owner = some a ∧ a.status.isTerminal
  | .failTask p => ∃ row a, rows.getTask p.task = some row ∧ row.status.isTerminal = false ∧
      rows.getActivity row.metadata.owner = some a ∧ a.status.isTerminal
  | _ => False

/-- The task is in flight and its owner is over. -/
def Projection.orphans (rows : Projection) (task : ObjectRef .task) : Bool :=
  (rows.getTask task).any fun row => !row.status.isTerminal &&
    (rows.getActivity row.metadata.owner).any (·.status.isTerminal)

theorem Projection.orphans_iff {rows : Projection} {task} :
    rows.orphans task = true ↔ ∃ row a, rows.getTask task = some row ∧
      row.status.isTerminal = false ∧ rows.getActivity row.metadata.owner = some a ∧
      a.status.isTerminal := by
  unfold Projection.orphans
  simp only [Option.any_eq_true, Bool.and_eq_true, Bool.not_eq_true']
  constructor
  · rintro ⟨row, found, open_, a, owner, ended⟩
    exact ⟨row, a, found, open_, owner, ended⟩
  · rintro ⟨row, a, found, open_, owner, ended⟩
    exact ⟨row, found, open_, a, owner, ended⟩

instance (rows : Projection) (c : Command) : Decidable (c.Late rows) :=
  match c with
  | .completeTask p => decidable_of_iff (rows.orphans p.task = true) Projection.orphans_iff
  | .failTask p => decidable_of_iff (rows.orphans p.task = true) Projection.orphans_iff
  | .createFlow _ | .createExecution _ | .spawnThread _ | .completeExecution _ | .completeThread _
  | .terminateExecution _ | .terminateThread _ | .activateState _ | .completeState _
  | .terminateState _ | .activateTask _ | .claimTasks _ | .triggerDeadline _ _ | .cancelTask _
  | .continueComplete _ | .continueTerminate _ => .isFalse id

namespace TaskElement

theorem markCompleted_ok (ok : t.markCompleted shown workerId at_ = .ok t') :
    t.status.isTerminal = false ∧ t'.objectRef = t.objectRef := by
  unfold Task.markCompleted at ok
  split at ok
  · cases ok
  · next running =>
      split at ok
      · cases ok
      · cases ok
        refine ⟨?_, rfl⟩
        cases status : t.status <;>
          simp [status, TaskStatus.isRunning, TaskStatus.isTerminal] at running ⊢

theorem markCancelled_ok (ok : t.markCancelled at_ = .ok t') :
    t.status.isTerminal = false ∧ t'.objectRef = t.objectRef := by
  unfold Task.markCancelled at ok
  split at ok
  · cases ok
  · next open_ =>
      cases ok
      exact ⟨by simpa using open_, rfl⟩

theorem handleFailure_ok {backoff checked error outcome}
    (ok : t.handleFailure shown backoff checked workerId error at_ = .ok (t', outcome)) :
    t.status.isTerminal = false ∧ t.Same t' ∧ (t'.status = .pending ∨ t'.status = .failed) := by
  obtain ⟨open_, -, takes⟩ := Task.handleFailure_inv ok
  have same : t.metadata.SameIdentity (t.metadata.withUpdateAt at_) :=
    ObjectMeta.sameIdentity_withUpdateAt _ _
  cases takes with
  | unmatched | spent => exact ⟨open_, ⟨same, rfl⟩, .inr rfl⟩
  | retried => exact ⟨open_, ⟨same, rfl⟩, .inl rfl⟩

end TaskElement

/-! ## Commands -/

/-- What a command may rely on when it is dispatched. -/
def Command.Ready (rows : Projection) : Command → Prop
  | .activateTask p => p.task.name.suffix ≠ none ∧ rows.tasks.lookup p.task.name = none
  | c => c.Sound rows

def Command.definesFlow : Command → Bool
  | .createFlow _ => true
  | _ => false

def Command.activates : Command → Option ObjectName
  | .activateTask p => some p.task.name
  | _ => none

end Spica
