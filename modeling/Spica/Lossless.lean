import Spica.Durability
import Spica.Scenario

/-! # What the durable encoding loses

A JSON null in an optional field, and nothing else.
-/

namespace Spica

open Serde Log

variable {w' : World} {w : Spica.World} {as : List Action}

section texts

variable [Wire.Texts]

/-- Each step of a run meets the condition where it is taken. -/
def World.WholeRun (env : Env) : World → List Action → Prop
  | _, [] => True
  | w, a :: as => w.Whole env a ∧ ∀ u, w.step env a = some u → u.WholeRun env as

namespace Stored

variable {env : Env}

/-- Every position of the log and every row is read over the durable store as in memory. -/
structure ReadsAlike (w' : World) (w : Spica.World) : Prop where
  entries : ∀ n, readEntry w'.log n = entryAt w.log n
  rows : ∀ refs tasks q,
    eval refs tasks w'.storage.rows q = .ok (q.eval refs tasks w.storage.rows)
  position : w'.storage.lastProcessedPosition = w.storage.lastProcessedPosition

theorem World.Mirrors.readsAlike (mirrors : w'.Mirrors w) : ReadsAlike w' w where
  entries := mirrors.log.readEntry
  rows := mirrors.storage.rows.eval
  position := mirrors.storage.position

/-- A run takes the same steps over the durable store and log as over memory. -/
theorem World.run_mirrors (mirrors : w'.Mirrors w) (whole : w.WholeRun env as) :
    Option.Rel Mirrors (as.foldlM (step env) w') (as.foldlM (Spica.World.step env) w) := by
  induction as generalizing w' w with
  | nil => exact .some mirrors
  | cons a as ih =>
    obtain ⟨here, later⟩ := whole
    have stepped := step_mirrors mirrors here
    rw [List.foldlM_cons, List.foldlM_cons]
    cases first : w'.step env a <;> cases second : w.step env a <;>
      rw [first, second] at stepped <;> cases stepped
    · exact .none
    · next after => exact ih after (later _ second)

end Stored

/-- Rows and entries are read back as they were, but for a null in an optional field; and without
    one the engine over the durable store and log runs as over memory. -/
theorem durable_encoding_lossless (env : Env) :
    (∀ f, Wire.flow.Valid f → Wire.flow.read (Wire.flow.write f) = .ok f) ∧
    (∀ v, Wire.flowVersion.Valid v → Wire.flowVersion.read (Wire.flowVersion.write v) = .ok v) ∧
    (∀ t, Wire.task.Valid t → Wire.task.read (Wire.task.write t) = .ok t) ∧
    (∀ e, Wire.execution.Valid e →
      (Wire.execution.read (Wire.execution.write e) = .ok e ↔ e.NullFree)) ∧
    (∀ t, Wire.thread.Valid t → (Wire.thread.read (Wire.thread.write t) = .ok t ↔ t.NullFree)) ∧
    (∀ a, Wire.activity.Valid a →
      (Wire.activity.read (Wire.activity.write a) = .ok a ↔ a.NullFree)) ∧
    (∀ e, Wire.entry.Valid e →
      (Wire.entry.read (Wire.entry.write e) = .ok e ↔ e.payload.NullFree)) ∧
    ∀ actions, World.init.WholeRun env actions →
      Option.Rel Stored.ReadsAlike
        (actions.foldlM (Stored.World.step env) .init)
        (actions.foldlM (World.step env) .init) := by
  refine ⟨fun _ => Wire.flow.read_write, fun _ => Wire.flowVersion.read_write,
    fun _ => Wire.task.read_write, ?_, ?_, ?_, ?_, ?_⟩
  · intro e valid
    rw [Wire.read_write_iff _ valid, Wire.execution_back_iff]
  · intro t valid
    rw [Wire.read_write_iff _ valid, Wire.thread_back_iff]
  · intro a valid
    rw [Wire.read_write_iff _ valid, Wire.activity_back_iff]
  · intro e valid
    rw [Wire.read_write_iff _ valid, Wire.entry_back_iff]
  · intro actions whole
    have both := Stored.World.run_mirrors Stored.World.init_mirrors whole
    cases first : actions.foldlM (Stored.World.step env) .init <;>
      cases second : actions.foldlM (World.step env) .init <;> rw [first, second] at both <;>
      cases both
    · exact .none
    · next mirrors => exact .some mirrors.readsAlike

/-! ## Runs that are checked -/

/-- What the step writes and appends is whole, if the first attempt at a command answers it. -/
def World.writesWhole (env : Env) (w : World) : Action → Bool
  | .clientAppend c at_ noopAt =>
    WholeBatch w.log [⟨none, at_, .command c⟩, ⟨none, noopAt, .noop⟩]
  | .dispatch d =>
    match w.proc with
    | .running next leader =>
      match entryAt w.log next with
      | some ⟨_, _, .command c⟩ =>
        ((List.ofFn d.attempts).head?.all fun a =>
          decide (a.Whole env next c w.storage.rows leader.definitions) &&
          (dispatchOnce env next c w.storage.rows leader.definitions a).1.isOk) &&
        (processCommand env next c w.storage.rows leader.definitions d).1.all fun produced =>
          WholeBatch w.log (produced.batch next d.noopAt)
      | _ => true
    | _ => true
  | .recover b =>
    match w.proc with
    | .recovering _ pos inflight => (entryAt w.log pos).all fun e => e.event?.all fun ev =>
        ev.Whole b e.timestamp (inflight.getD w.storage.rows)
    | _ => true
  | .follow b => (entryAt w.log w.follower.pos).all fun e => e.event?.all fun ev =>
      ev.Whole b e.timestamp (w.follower.inflight.getD w.follower.storage.rows)
  | _ => true

def World.runsWhole (env : Env) : World → List Action → Bool
  | _, [] => true
  | w, a :: as => w.writesWhole env a && (w.step env a).all (·.runsWhole env as)

theorem World.whole_of_writes {env a} (calm : a.FaultFree) (writes : w.writesWhole env a = true) :
    w.Whole env a := by
  cases a with
  | clientAppend c at_ noopAt =>
    simp only [writesWhole, decide_eq_true_eq] at writes
    exact writes
  | dispatch d =>
    refine ⟨calm, fun next leader cause ts c here entry => ?_⟩
    simp only [writesWhole, here, entry, Bool.and_eq_true] at writes
    obtain ⟨first, batch⟩ := writes
    refine ⟨?_, fun produced definitions done => ?_⟩
    · unfold Decision.Whole
      cases attempts : List.ofFn d.attempts with
      | nil => trivial
      | cons a later =>
        simp only [attempts, List.head?_cons, Option.all_some, Bool.and_eq_true,
          decide_eq_true_eq] at first
        refine ⟨first.1, fun e machines failed => ?_⟩
        rw [failed] at first
        cases first.2
    · simpa [done] using batch
  | recover b =>
    refine ⟨calm, fun definitions pos inflight e ev here entry isEvent => ?_⟩
    simpa [writesWhole, here, entry, isEvent] using writes
  | follow b =>
    refine ⟨calm, fun e ev entry isEvent => ?_⟩
    simpa [writesWhole, entry, isEvent] using writes
  | _ => trivial

theorem World.wholeRun_of_writes {env} (calm : ∀ a ∈ as, a.FaultFree)
    (writes : w.runsWhole env as = true) : w.WholeRun env as := by
  induction as generalizing w with
  | nil => trivial
  | cons a as ih =>
    simp only [runsWhole, Bool.and_eq_true] at writes
    refine ⟨whole_of_writes (calm a List.mem_cons_self) writes.1, fun u moved => ?_⟩
    refine ih (fun a there => calm a (List.mem_cons_of_mem _ there)) ?_
    simpa [moved] using writes.2

end texts

namespace Scenario

instance texts : Wire.Texts := .marked

/-- Start the execution on an input that is not null. -/
def createTrue : Command :=
  .createExecution ⟨.nil, .plain exec, ⟨.generated flow 1, ⟨0⟩⟩, .bool true⟩

/-- The actions of a script that are enabled where they come. -/
def enabled (env : Env) : World → List Action → List Action
  | _, [] => []
  | w, a :: as =>
    match w.step env a with
    | some u => a :: enabled env u as
    | none => enabled env w as

/-- A task is asked for, claimed and done, its execution completes, and a follower reads the log. -/
def wholeExecution : List Action :=
  enabled (host true catching) .init
    (appends [createFlow, createTrue] ++ starts 4 ++ leads 14 ++ appends [claim] ++ leads 4 ++
      appends [report] ++ leads 20 ++ List.replicate 50 (.follow backend))

theorem enabled_subset {env a} (member : a ∈ enabled env w as) : a ∈ as := by
  induction as generalizing w with
  | nil => exact member
  | cons b as ih =>
    unfold enabled at member
    split at member
    · rcases List.mem_cons.mp member with rfl | later
      · exact List.mem_cons_self
      · exact List.mem_cons_of_mem _ (ih later)
    · exact List.mem_cons_of_mem _ (ih member)

theorem wholeExecution_calm : Calm wholeExecution := by
  intro a member
  rcases List.mem_append.mp (enabled_subset member) with member | member
  · have calm : Calm (appends [createFlow, createTrue] ++ starts 4 ++ leads 14 ++ appends [claim] ++
        leads 4 ++ appends [report] ++ leads 20) :=
      ((((((appends_calm _).append (starts_calm _)).append (leads_calm _)).append
        (appends_calm _)).append (leads_calm _)).append (appends_calm _)).append (leads_calm _)
    exact calm a member
  · rw [List.eq_of_mem_replicate member]
    exact fun _ => rfl

end Scenario

open Scenario

/-- An execution runs to its end over both, and its rows are read back. -/
theorem durable_encoding_lossless_execution :
    ∃ w' w e a t,
      wholeExecution.foldlM (Stored.World.step (host true catching)) .init = some w' ∧
      wholeExecution.foldlM (World.step (host true catching)) .init = some w ∧
      Stored.ReadsAlike w' w ∧
      w.storage.rows.executions.lookup (.plain exec) = some e ∧ e.status = .completed ∧
      Wire.execution.read (Wire.execution.write e) = .ok e ∧
      w.storage.rows.getActivity firstActivity = some a ∧
      Wire.activity.read (Wire.activity.write a) = .ok a ∧
      w.storage.rows.getTask firstTask = some t ∧ Wire.task.read (Wire.task.write t) = .ok t := by
  obtain ⟨-, -, task, execution, -, activity, -, runs⟩ :=
    durable_encoding_lossless (host true catching)
  have both := runs wholeExecution (World.wholeRun_of_writes wholeExecution_calm (by decide +kernel))
  have done : ((wholeExecution.foldlM (World.step (host true catching)) .init).any fun w =>
      ((w.storage.rows.executions.lookup (.plain exec)).any fun e =>
        e.status = .completed ∧ Wire.execution.Valid e ∧ e.NullFree) &&
      ((w.storage.rows.getActivity firstActivity).any fun a => Wire.activity.Valid a ∧ a.NullFree) &&
      (w.storage.rows.getTask firstTask).any fun t => Wire.task.Valid t) = true := by
    decide +kernel
  cases first : wholeExecution.foldlM (Stored.World.step (host true catching)) .init <;>
    cases second : wholeExecution.foldlM (World.step (host true catching)) .init <;>
    rw [first, second] at both <;> cases both
  · rw [second] at done
    cases done
  · next w' w alike =>
    rw [second, Option.any_some, Bool.and_eq_true, Bool.and_eq_true] at done
    obtain ⟨⟨ended, settled⟩, reported⟩ := done
    obtain ⟨e, isRow, ended⟩ := (Option.any_eq_true _ _).mp ended
    obtain ⟨a, isActivity, settled⟩ := (Option.any_eq_true _ _).mp settled
    obtain ⟨t, isTask, reported⟩ := (Option.any_eq_true _ _).mp reported
    obtain ⟨status, valid, free⟩ := of_decide_eq_true ended
    obtain ⟨valid', free'⟩ := of_decide_eq_true settled
    exact ⟨w', w, e, a, t, rfl, rfl, alike, isRow, status, (execution e valid).mpr free, isActivity,
      (activity a valid').mpr free', isTask, task t (of_decide_eq_true reported)⟩

/-! ## A task that returns null -/

namespace Scenario

def reportNull : Command := .completeTask ⟨.nil, firstTask, "worker", .null⟩

/-- The task's timeout comes right after its result. -/
def lateTimeout : List Action := oneClaim ++ appends [reportNull, timeout] ++ leads 3

def terminates (r : ObjectRef .activity) : EntryPayload → Bool
  | .command (.terminateState c) => c.activity = r
  | _ => false

def refuses : EntryPayload → Bool
  | .reject _ => true
  | _ => false

/-- A running activity whose task returned null. -/
def returnedNull : Activity where
  metadata := .build .nil (.generated exec 1) ⟨0⟩ ⟨.generated exec 0, .nil⟩
  execution := ⟨.plain exec, .nil⟩
  statePath := ⟨["S"]⟩
  status := .running
  rawInput := .bool true
  input := some (.bool true)
  rawOutput := some .null
  activityState := none
  retryState := none
  output := none

end Scenario

/-- The result of a task that returned null is read back as no result, and a timeout that comes
    after it, refused in memory, terminates the activity over the durable store. -/
theorem null_result_lost :
    (Wire.activity.read (Wire.activity.write returnedNull)).map Activity.rawOutput = .ok none ∧
    ((entryAt (after false catching lateTimeout).log 29).map Entry.payload).any refuses = true ∧
    ((Stored.readEntry (Run.script (Stored.World.step (host false catching)) .init
      lateTimeout).log 29).map Entry.payload).any (terminates firstActivity) = true := by
  decide +kernel

end Spica
