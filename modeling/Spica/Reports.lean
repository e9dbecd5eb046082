import Spica.Gateway
import Spica.Hook
import Spica.TaskLog

/-! # Who may fail a task

A task takes a failure report from the worker that holds its lease. The empty identity is the
engine's own, and is taken whoever holds the lease, wherever it comes from.
-/

namespace Spica

open Log Scenario

namespace Projection

/-- The task is running, leased to the worker. -/
def LeasedTo (rows : Projection) (task : ObjectName) (workerId : String) : Prop :=
  ∃ row, rows.tasks.lookup task = some row ∧ row.status = .running ∧ row.workerId = some workerId

/-- The empty identity gives no access to the task: it is settled, or leased to that identity. -/
def Settled (rows : Projection) (task : ObjectName) : Prop :=
  ∀ row, rows.tasks.lookup task = some row → row.status.isTerminal = true ∨
    row.status = .running ∧ row.workerId = some ""

end Projection

section guard

variable {env : Env} {cause : Nat} {rows : Projection} {machines machines' : MachineCache}
  {p : FailTask} {produced : Produced}

/-- A failure report is answered only if the task takes it, whatever storage does. -/
theorem failTask_answered {a}
    (ran : dispatchOnce env cause (.failTask p) rows machines a = (.ok produced, machines')) :
    ∃ row, rows.getTask p.task = some row ∧ row.status.isTerminal = false ∧
      (p.workerId = "" ∨ row.status = .running ∧ row.workerId = some p.workerId) := by
  obtain ⟨w, -, returned, -, -, -⟩ := dispatchOnce_inv ran
  unfold dispatchCommand TaskElement.fail at returned
  rw [Prog.run_bind] at returned
  obtain ⟨found, w₁, read, rest⟩ := Eff.bind_ok_iff.mp returned
  rw [getTask, Prog.run_perform] at read
  have isRow : found = rows.getTask p.task := Handler.ask_answers read
  cases task : found with
  | none => rw [task] at rest; cases rest
  | some row =>
    rw [task] at rest
    dsimp only at rest
    rw [Prog.run_bind] at rest
    obtain ⟨_, w₂, _, rest⟩ := Eff.bind_ok_iff.mp rest
    rw [Prog.run_bind] at rest
    obtain ⟨at_, w₃, _, rest⟩ := Eff.bind_ok_iff.mp rest
    split at rest
    · cases rest
    · cases rest
    · next ok =>
        obtain ⟨live, accepts, -⟩ := Task.handleFailure_inv ok
        exact ⟨row, isRow ▸ task, live, accepts⟩

theorem Task.handleFailure_open {t : Task} {shown backoff checked error now why}
    (live : t.status.isTerminal = false) :
    t.handleFailure shown backoff checked "" error now ≠ .error (.refused why) := by
  intro refused
  have empty : "".isEmpty = true := rfl
  simp only [Task.handleFailure, live, empty, Bool.false_eq_true, if_false, Bool.not_true,
    Bool.false_and] at refused
  split at refused
  · cases refused
  · split at refused
    · split at refused <;> cases refused
    · cases refused

/-- A report that is taken leaves another row. -/
theorem Task.Takes.changed {t t' : Task} {backoff checked error now outcome}
    (takes : t.Takes backoff checked error now t' outcome) (live : t.status.isTerminal = false) :
    t' ≠ t := by
  intro same
  cases takes with
  | unmatched | spent =>
    rw [← same] at live
    cases live
  | retried =>
    have counted : (t.retryState.attempts + 1) % 4294967296 = t.retryState.attempts :=
      congrArg (fun t => t.retryState.attempts) same
    omega

/-- Without faults only a panic keeps a report without an identity from a task in flight. -/
theorem TaskElement.fail_panics {c : Ctx} {w w' row e} (ff : c.toBackend.FaultFree)
    (found : w.txn.rows.getTask p.task = some row) (live : row.status.isTerminal = false)
    (empty : p.workerId = "")
    (ran : (TaskElement.fail p).run Handler.interpret c w = (.error e, w')) :
    ∃ msg, e = .panicked msg := by
  have read : (getTask p.task).run Handler.interpret c w =
      (.ok (some row), { w with txn := { w.txn with calls := w.txn.calls + 1 } }) := by
    rw [getTask, Prog.run_perform]
    show Handler.onTxn storageFault (Txn.ask (.task p.task)) c w = _
    unfold Handler.onTxn
    rw [Txn.run_ask]
    simp only [ff w.txn.calls]
    exact congrArg (fun r => (Except.ok r, _)) found
  have asked (v : Work) : platform.run Handler.interpret c v = (.ok c.env, v) := rfl
  have ticked (v : Work) : now.run Handler.interpret c v =
      (.ok (c.clock v.ticks), { v with ticks := v.ticks + 1 }) := rfl
  unfold TaskElement.fail at ran
  rw [Prog.run_bind, Eff.bind_of_ok read] at ran
  dsimp only at ran
  rw [Prog.run_bind, Eff.bind_of_ok (asked _), Prog.run_bind, Eff.bind_of_ok (ticked _)] at ran
  split at ran
  · cases ran
    exact ⟨_, rfl⟩
  · next refused =>
      rw [empty] at refused
      exact (Task.handleFailure_open live refused).elim
  · next failed outcome _ =>
      rw [Prog.run_bind] at ran
      rcases told : (appendEvent (.taskFailed failed p.error)).run Handler.interpret c _ with
        ⟨fault | done, v⟩
      · rw [Eff.bind_of_error told] at ran
        cases ran
        rw [appendEvent, Prog.run_perform] at told
        change Handler.appendEvent _ c _ = _ at told
        rw [Handler.appendEvent_run] at told
        split at told <;> cases told
        exact ⟨_, rfl⟩
      · rw [Eff.bind_of_ok told] at ran
        split at ran <;> cases ran

theorem dispatchOnce_panics {a row e} (ff : a.toBackend.FaultFree) (begun : a.beginFault = none)
    (found : rows.getTask p.task = some row) (live : row.status.isTerminal = false)
    (empty : p.workerId = "")
    (ran : dispatchOnce env cause (.failTask p) rows machines a = (.error e, machines')) :
    ∃ msg, e = .panicked msg := by
  have ff : (a.ctx env cause).toBackend.FaultFree := ff
  unfold dispatchOnce at ran
  rw [begun] at ran
  dsimp only at ran
  split at ran
  · next failed =>
      cases ran
      exact TaskElement.fail_panics ff found live empty failed
  · split at ran
    · cases ran
      exact ⟨_, rfl⟩
    · cases ran

/-- Where the attempts only panic, what is decided is the answer of one of them. -/
theorem attemptFrom_answered {c d as} (panics : ∀ a ∈ as, ∀ machines machines' e,
      dispatchOnce env cause c rows machines a = (.error e, machines') → ∃ msg, e = .panicked msg)
    (ran : attemptFrom env cause c rows d as machines = (some produced, machines')) :
    ∃ a ∈ as, ∃ machines', dispatchOnce env cause c rows machines a = (.ok produced, machines') := by
  cases as with
  | nil => cases ran
  | cons a later =>
    unfold attemptFrom at ran
    rcases once : dispatchOnce env cause c rows machines a with ⟨e | answer, m⟩
    · obtain ⟨msg, rfl⟩ := panics a (by simp) _ _ _ once
      rw [once] at ran
      cases ran
    · rw [once] at ran
      cases ran
      exact ⟨a, by simp, _, once⟩

/-- Without faults the row of a task whose report is taken changes. -/
theorem failTask_changes {a : Attempt} (ff : a.toBackend.FaultFree) (filed : rows.Filed)
    (ran : dispatchOnce env cause (.failTask p) rows machines a = (.ok produced, machines')) :
    produced.rows.tasks.lookup p.task.name ≠ rows.tasks.lookup p.task.name := by
  obtain ⟨ds, outcome, writes⟩ := dispatchOnce_outcome (M := fun _ _ => True) ff
    ⟨fun _ _ _ => trivial, fun _ _ _ _ _ => trivial⟩ ran
  cases outcome with
  | @taskFailed _ row failed at_ outcome found takes =>
    obtain ⟨live, same, -⟩ := Task.handleFailure_eq takes
    have after : ∃ ts, produced.rows = rows.failTask ts failed := by
      obtain ⟨entries, after⟩ := produced
      cases writes with
      | event ts _ rest =>
        refine ⟨ts, ?_⟩
        split at rest
        · cases rest with
          | command _ rest =>
            cases rest
            rfl
        · cases rest
          rfl
    obtain ⟨ts, after⟩ := after
    have named : failed.metadata.name = p.task.name :=
      (congrArg (·.id.name) same.kin).trans (filed.tasks _ _ found)
    have found : rows.tasks.lookup p.task.name = some row := found
    rw [after, found, ← named, filed.lookup_failTask found same]
    exact fun same => (Task.handleFailure_inv takes).2.2.changed live (Option.some.inj same)
  | activitySwept _ _ phase | threadSweptAgain _ _ phase => rcases phase with ⟨⟨⟩, -⟩ | ⟨⟨⟩, -⟩

end guard

namespace World

variable {env : Env} {w w' : World} {d : Decision} {next : Nat} {machines : MachineCache}
  {c : Command} {workerId : String} {task : ObjectName} {quoted : String → String}
  {fromSlice : List UInt8 → Except String Json}

theorem reading_inv (reads : w.reading = some (next, c, machines)) :
    ∃ leader cause ts, w.proc = .running next leader ∧ leader.definitions = machines ∧
      entryAt w.log next = some ⟨cause, ts, .command c⟩ := by
  unfold reading at reads
  split at reads
  · next leader here =>
      split at reads
      · next cause ts c' entry =>
          cases reads
          exact ⟨leader, cause, ts, here, rfl, entry⟩
      · cases reads
  · cases reads

/-- The command is answered by a single rejection, and committing that changes no row. -/
structure Refuses (env : Env) (w : World) (next : Nat) (w' : World) : Prop where
  logged : ∃ r at_ noopAt, w'.log =
    w.log ++ [⟨some next, at_, .reject r⟩, ⟨some next, noopAt, .noop⟩]
  unchanged : ∀ w'', w'.step env .commit = some w'' → w''.storage.rows = w.storage.rows

/-- A failure reported from outside is refused, unless the task runs under the lease of the worker
    who reports it, or the worker has no identity. Then the row of a task in flight changes, if
    storage does not fail and the leader does not panic. -/
theorem only_holder_fails_task (report : FailureReport quoted fromSlice workerId task c)
    (reads : w.reading = some (next, c, machines))
    (moved : w.step env (.dispatch d) = some w') :
    ((workerId = "" → w.storage.rows.Settled task) →
      w.storage.rows.LeasedTo task workerId ∨ w.Refuses env next w') ∧
    (Run.Reach (World.step env) (World.Spared env) init w → d.FaultFree →
      ¬(workerId = "" → w.storage.rows.Settled task) →
      ∀ w'', w'.step env .commit = some w'' →
        w''.storage.rows.tasks.lookup task ≠ w.storage.rows.tasks.lookup task) := by
  obtain ⟨error, rfl⟩ := report.command
  obtain ⟨leader, cause, ts, here, rfl, entry⟩ := reading_inv reads
  cases step_inv moved with
  | @dispatch _ next' leader' cause' ts' c' produced definitions here' entry' decided =>
    cases here.symm.trans here'
    cases entry.symm.trans entry'
    refine ⟨fun guarded => ?_, fun run ff unguarded => ?_⟩
    · rcases processCommand_inv decided with ⟨i, before, after, once⟩ | ⟨at_, r, rfl⟩
      · obtain ⟨row, found, live, holder⟩ := failTask_answered once
        have found : w.storage.rows.tasks.lookup task = some row := found
        left
        rcases holder with empty | ⟨running, leased⟩
        · have empty : workerId = "" := empty
          subst empty
          rcases guarded rfl row found with terminal | held
          · rw [live] at terminal
            cases terminal
          · exact ⟨row, found, held⟩
        · exact ⟨row, found, running, leased⟩
      · refine .inr ⟨⟨r, at_, d.noopAt, rfl⟩, ?_⟩
        rintro w'' ⟨⟩
        simp [Storage.commit]
    · rintro w'' ⟨⟩
      obtain ⟨rfl, row, found, live⟩ : workerId = "" ∧ ∃ row,
          w.storage.rows.tasks.lookup task = some row ∧ row.status.isTerminal = false := by
        simp only [Projection.Settled, Classical.not_imp, not_forall, not_or] at unguarded
        obtain ⟨empty, row, found, live, -⟩ := unguarded
        exact ⟨empty, row, found, Bool.eq_false_iff.mpr live⟩
      have found : w.storage.rows.getTask ⟨task, .nil⟩ = some row := found
      obtain ⟨a, member, machines', once⟩ := attemptFrom_answered (fun a member _ _ _ ran => by
        obtain ⟨i, rfl⟩ := List.mem_ofFn.mp member
        exact dispatchOnce_panics (ff.1 i).1 (ff.1 i).2 found live rfl ran) decided
      obtain ⟨i, rfl⟩ := List.mem_ofFn.mp member
      have current := FoldsTo.whole.mp ((Faithful.reach run).running here)
      exact failTask_changes (ff.1 i).1 current.filed once

/-! The task of `oneClaim` is leased to one worker. A report by another one is refused; a report
without an identity is not. -/

def plainText (s : String) : String := s

def noJson (_ : List UInt8) : Except String Json := .error "unsupported"

def failureBy (workerId : String) : FailTaskRequest :=
  ⟨workerId, "exec-2", some ⟨"States.TaskFailed", []⟩⟩

def failureCommand (workerId : String) : Command :=
  Gateway.fail workerId firstTask.name (.runtime (.stateFailed "" "States.TaskFailed" .null))

theorem parses_firstTask : ObjectName.fromParsed plainText "exec-2" = .ok firstTask.name := by
  decide +kernel

theorem failureBy_reports (workerId : String) :
    FailureReport plainText noJson workerId firstTask.name (failureCommand workerId) := by
  have named : ObjectName.fromParsed plainText (failureBy workerId).taskName = .ok firstTask.name :=
    parses_firstTask
  refine .service (rfl : (failureBy workerId).workerId = workerId) named ?_
  simp only [TaskService.failTask, TaskService.parseTaskName, named]
  rfl

/-- The report is the next command the leader reads. -/
def failureQueued (workerId : String) : World :=
  after true catching (oneClaim ++ appends [failureCommand workerId] ++ List.replicate 4 .skip)

theorem reading_of_any (reads : w.reading.any (fun r => r.2.1 = c) = true) :
    ∃ next machines, w.reading = some (next, c, machines) := by
  obtain ⟨⟨next, c', machines⟩, found, same⟩ := (Option.any_eq_true _ _).mp reads
  obtain rfl : c' = c := of_decide_eq_true same
  exact ⟨next, machines, found⟩

theorem failureQueued_reach (workerId : String) :
    Run.Reach (World.step (host true catching)) (fun _ a => a.FaultFree) init
      (failureQueued workerId) := by
  refine reach_after fun _ => (oneClaim_calm.append (appends_calm _)).append ?_
  intro a member
  rw [List.eq_of_mem_replicate member]
  trivial

/-- The other one is refused, and the one without an identity is not. -/
theorem only_holder_fails_task_foreign :
    (∃ next w', (failureQueued "other").step (host true catching) (.dispatch decision) = some w' ∧
      (failureQueued "other").Refuses (host true catching) next w') ∧
    ∃ w', (failureQueued "").step (host true catching) (.dispatch decision) = some w' ∧
      ∀ w'', w'.step (host true catching) .commit = some w'' →
        w''.storage.rows.tasks.lookup firstTask.name ≠
          (failureQueued "").storage.rows.tasks.lookup firstTask.name := by
  constructor
  · obtain ⟨w', moved⟩ := Option.isSome_iff_exists.mp (by decide +kernel :
      ((failureQueued "other").step (host true catching) (.dispatch decision)).isSome = true)
    obtain ⟨next, machines, reads⟩ := reading_of_any (by decide +kernel :
      (failureQueued "other").reading.any (fun r => r.2.1 = failureCommand "other") = true)
    refine ⟨next, w', moved, ((only_holder_fails_task (failureBy_reports "other") reads moved).1
      fun empty => absurd empty (by decide)).resolve_left ?_⟩
    rintro ⟨row, found, -, leased⟩
    have held : ((failureQueued "other").storage.rows.tasks.lookup firstTask.name).any
        (fun row => row.workerId = some "other") = false := by decide +kernel
    rw [found] at held
    simp [leased] at held
  · obtain ⟨w', moved⟩ := Option.isSome_iff_exists.mp (by decide +kernel :
      ((failureQueued "").step (host true catching) (.dispatch decision)).isSome = true)
    obtain ⟨next, machines, reads⟩ := reading_of_any (by decide +kernel :
      (failureQueued "").reading.any (fun r => r.2.1 = failureCommand "") = true)
    refine ⟨w', moved, (only_holder_fails_task (failureBy_reports "") reads moved).2
      ((failureQueued_reach "").weaken fun _ _ ff => ff.spared) decision_faultFree fun settled => ?_⟩
    have held : ((failureQueued "").storage.rows.tasks.lookup firstTask.name).any (fun row =>
        !row.status.isTerminal && decide (row.workerId ≠ some "")) = true := by decide +kernel
    obtain ⟨row, found, live⟩ := (Option.any_eq_true _ _).mp held
    rcases settled rfl row found with terminal | ⟨-, leased⟩
    · simp [terminal] at live
    · simp [leased] at live

/-- The report is decided and committed. -/
def failureDecided (workerId : String) : World :=
  Run.script (World.step (host true catching)) (failureQueued workerId) [.dispatch decision, .commit]

theorem anyone_fails_task :
    ∃ w w' c, Run.Reach (World.step (host true catching)) (fun _ a => a.FaultFree) init w ∧
      FailureReport plainText noJson "" firstTask.name c ∧
      w.reading.any (fun r => r.2.1 = c) = true ∧ ¬ w.storage.rows.LeasedTo firstTask.name "" ∧
      Run.Reach (World.step (host true catching)) (fun _ a => a.FaultFree) w w' ∧
      w'.storage.rows.tasks.lookup firstTask.name ≠ w.storage.rows.tasks.lookup firstTask.name := by
  refine ⟨failureQueued "", failureDecided "", failureCommand "", failureQueued_reach "",
    failureBy_reports "", by decide +kernel, ?_, ?_, ?_⟩
  · rintro ⟨row, found, -, leased⟩
    have held : ((failureQueued "").storage.rows.tasks.lookup firstTask.name).any
        (fun row => row.workerId = some "") = false := by decide +kernel
    rw [found] at held
    simp [leased] at held
  · refine Run.reach_script ?_
    simp only [List.mem_cons, List.not_mem_nil, or_false]
    rintro _ a (rfl | rfl)
    · exact decision_faultFree
    · trivial
  · intro same
    have changed : ((failureDecided "").storage.rows.tasks.lookup firstTask.name).map Task.status ≠
        ((failureQueued "").storage.rows.tasks.lookup firstTask.name).map Task.status := by
      decide +kernel
    exact changed (congrArg _ same)

end World

end Spica
