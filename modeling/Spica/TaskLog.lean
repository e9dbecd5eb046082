import Spica.Scenario
import Spica.TaskRows

/-! # Tasks along a run

Every event about a task is decided from the row the log folds to, and its value is what the row
becomes; only the row of a completed task keeps the lease that the event has released. The row of
the owner counts the retries of the task.
-/

namespace Spica

open Log Projection

/-- The event at a position answers a command of the log, from the rows the log folds to before
    it. -/
structure ToldAt (env : Env) (log : List Entry) (n k : Nat) (ts : Timestamp) (ev : Event)
    (c : Command) (p : Projection) : Prop where
  asked : ∃ cause at_, entryAt log k = some ⟨cause, at_, .command c⟩
  filed : p.Filed
  told : TaskTold env p c ev
  inTime : ev.InTime ts
  before : FoldsTo log (n - 1) p
  after : FoldsTo log n (ev.apply ts p)

/-- Every event about tasks is one that was told. -/
def ToldLog (env : Env) (log : List Entry) : Prop :=
  ∀ n cause ts ev, entryAt log n = some ⟨cause, ts, .event ev⟩ → ev.isTask = true →
    ∃ k c p, cause = some k ∧ ToldAt env log n k ts ev c p

section told

variable {env : Env} {n k cause : Nat} {c : Command} {p q : Projection} {log es : List Entry}
  {ts : Timestamp} {ev : Event}

theorem Replays.filed (all : Replays p es q) (filed : p.Filed) : q.Filed := by
  induction es generalizing p with
  | nil =>
    obtain rfl : p = q := Replays.nil.unique all
    exact filed
  | cons e es ih =>
    cases isEvent : e.event? with
    | none => exact ih (Replays.skip_inv isEvent all) filed
    | some ev => exact ih (Replays.event_inv isEvent all).2 (ev.apply_filed filed _)

theorem Mirrors.filed (mirrors : Mirrors .empty es q) : q.Filed := by
  obtain ⟨r, replays, same⟩ := mirrors
  have filed := replays.filed empty_filed
  obtain ⟨k, rfl⟩ := content_eq_iff.mp same
  exact { filed with }

theorem ToldAt.append (told : ToldAt env log n k ts ev c p) (inside : n ≤ log.length) :
    ToldAt env (log ++ es) n k ts ev c p where
  asked := by
    obtain ⟨cause, at_, entry⟩ := told.asked
    exact ⟨cause, at_, by rw [entryAt_append (entryAt_eq_some entry).2, entry]⟩
  filed := told.filed
  told := told.told
  inTime := told.inTime
  before := (FoldsTo.append (by omega)).mpr told.before
  after := (FoldsTo.append inside).mpr told.after

theorem ToldLog.append (told : ToldLog env log) (new : ∀ i e ev, es[i]? = some e →
    e.event? = some ev → ev.isTask = true → ∃ k c p, e.causeId = some k ∧
      ToldAt env (log ++ es) (log.length + (i + 1)) k e.timestamp ev c p) :
    ToldLog env (log ++ es) := by
  intro n cause ts ev entry isTask
  by_cases old : n ≤ log.length
  · rw [entryAt_append old] at entry
    obtain ⟨k, c, p, caused, told⟩ := told n cause ts ev entry isTask
    exact ⟨k, c, p, caused, told.append old⟩
  · obtain ⟨i, rfl⟩ : ∃ i, n = log.length + (i + 1) := ⟨n - log.length - 1, by omega⟩
    rw [entryAt_append_right] at entry
    exact new i _ ev entry rfl isTask

theorem ClaimsInTime.event {e} (inTime : ClaimsInTime es) (there : e ∈ es)
    (isEvent : e.payload = .event ev) : ev.InTime e.timestamp := by
  cases ev with
  | tasksClaimed req tasks => exact inTime e there req tasks isEvent
  | _ => trivial

theorem TimedAnswer.sound (env : Env) : (TimedAnswer env).Sound where
  answers := fun answer => (Answer.sound env _).answers answer.1
  mirrors := fun answer => (Answer.sound env _).mirrors answer.1
  counter_le := fun answer => (Answer.sound env _).counter_le answer.1

/-- The event about tasks of an answer is its first entry. -/
theorem TimedAnswer.told (answer : TimedAnswer env k c p es q)
    (asked : ∃ cause at_, entryAt log k = some ⟨cause, at_, .command c⟩)
    (folded : Mirrors .empty log p) (rest : List Entry) {i e} (entry : es[i]? = some e)
    (isEvent : e.event? = some ev) (isTask : ev.isTask = true) :
    e.causeId = some k ∧
      ToldAt env (log ++ (es ++ rest)) (log.length + (i + 1)) k e.timestamp ev c p := by
  obtain ⟨answer, inTime⟩ := answer
  have there := List.mem_of_getElem? entry
  cases answer with
  | refused =>
    cases List.mem_singleton.mp there
    cases isEvent
  | outcome outcome writes =>
    have deed := writes.event_mem there isEvent
    rcases outcome.task with ⟨ev', cs, told, rfl, -⟩ | other
    · obtain ⟨ts, fs, rfl, quiet, folds, rfl⟩ := writes.event_commands
      cases i with
      | succ i =>
        rw [quiet e (List.mem_of_getElem? (by simpa using entry))] at isEvent
        cases isEvent
      | zero =>
        cases entry
        cases isEvent
        have before : FoldsTo (log ++ (⟨some k, ts, .event ev⟩ :: fs ++ rest)) log.length p :=
          (FoldsTo.append le_rfl).mpr (FoldsTo.whole.mpr folded)
        have here : entryAt (log ++ (⟨some k, ts, .event ev⟩ :: fs ++ rest)) (log.length + 1) =
            some ⟨some k, ts, .event ev⟩ := by
          rw [entryAt_append_right]
          rfl
        obtain ⟨cause, at_, found⟩ := asked
        refine ⟨rfl, ⟨cause, at_, ?_⟩, folded.filed, told, inTime.event there rfl, before,
          before.event here rfl folds⟩
        rw [entryAt_append (entryAt_eq_some found).2, found]
    · rw [other ev deed] at isTask
      cases isTask

theorem Annals.told (annals : Annals (TimedAnswer env) log p) : ToldLog env log := by
  induction annals with
  | empty =>
    intro n cause ts ev entry
    simp [entryAt] at entry
  | client at_ noopAt _ _ ih =>
    refine ih.append fun i e ev entry isEvent => ?_
    have there := List.mem_of_getElem? entry
    simp only [List.mem_cons, List.not_mem_nil, or_false] at there
    rcases there with rfl | rfl <;> cases isEvent
  | @answer log es p q r k cause ts c noopAt past entry same answers ih =>
    have folded : Mirrors .empty log q := (past.mirrors (TimedAnswer.sound env)).content_right same
    refine ih.append fun i e ev found isEvent isTask => ?_
    by_cases inside : i < es.length
    · rw [List.getElem?_append_left inside] at found
      exact ⟨k, c, q, answers.told ⟨cause, ts, entry⟩ folded _ found isEvent isTask⟩
    · rw [List.getElem?_append_right (by omega)] at found
      cases List.mem_singleton.mp (List.mem_of_getElem? found)
      cases isEvent

end told

/-! ## Along a ledger -/

/-- Every task is activated where there is none of its name. -/
def FreshLog (log : List Entry) : Prop :=
  ∀ n cause ts t p, entryAt log n = some ⟨cause, ts, .event (.taskActivated t)⟩ →
    FoldsTo log (n - 1) p → p.tasks.lookup t.metadata.name = none

/-- The tasks of a ledger and those its commands ask for. -/
structure Ledger.Manned (l : Ledger) : Prop where
  rows : l.rows.Manned
  owed : ∀ r, .activateTask r ∈ l.queue → r.Owed l.rows
  fresh : FreshLog l.log

section ledger

variable {env : Env} {M : Machines} {n cause : Nat} {c : Command} {p q : Projection}
  {ds : List Deed} {log es : List Entry} {rest : List Command} {ts noopAt : Timestamp} {ev : Event}

/-- A request that waits stays owed, whatever is answered. -/
theorem ActivateTask.Owed.told {r : ActivateTask} (owed : r.Owed p) (filed : p.Filed)
    (manned : p.Manned) (fresh : p.tasks.lookup r.task.name = none) (told : TaskTold env p c ev) :
    r.Owed (ev.apply ts p) := by
  obtain ⟨act, here, count⟩ := owed.unretried
  obtain ⟨act', here', ⟨same, -⟩ | ⟨retries, all⟩⟩ := told.counts ts filed here
  · exact ⟨owed.heir, act', here', same.trans count⟩
  · obtain ⟨v, only⟩ := ev.tasks_of_retries retries
    have member : v ∈ ev.tasks := by simp [only]
    obtain ⟨⟨row, found⟩, heir⟩ := told.retried filed manned retries member
    rw [(all v member).1] at heir
    rw [heir.task_eq owed.heir, fresh] at found
    cases found

theorem FreshLog.append (fresh : FreshLog log) (new : ∀ i e t, es[i]? = some e →
    e.event? = some (.taskActivated t) → i = 0 ∧ ∀ p, Mirrors .empty log p →
      p.tasks.lookup t.metadata.name = none) : FreshLog (log ++ es) := by
  intro n cause ts t p entry folds
  by_cases old : n ≤ log.length
  · rw [entryAt_append old] at entry
    exact fresh n cause ts t p entry ((FoldsTo.append (by omega)).mp folds)
  · obtain ⟨i, rfl⟩ : ∃ i, n = log.length + (i + 1) := ⟨n - log.length - 1, by omega⟩
    rw [entryAt_append_right] at entry
    obtain ⟨rfl, unused⟩ := new i _ t entry rfl
    exact unused p (FoldsTo.whole.mp ((FoldsTo.append le_rfl).mp folds))

theorem Ledger.Manned.outcome (manned : Manned ⟨log, p, c :: rest⟩)
    (kindred : Kindred ⟨log, p, c :: rest⟩) (folded : Mirrors .empty log p)
    (outcome : Outcome env M p q c ds) (writes : Writes cause p ds es q) (inTime : ClaimsInTime es) :
    Manned ⟨log ++ (es ++ [⟨some n, noopAt, .noop⟩]), q, rest ++ commandsOf es⟩ := by
  have family := kindred.family
  have fresh : FreshLog (log ++ (es ++ [⟨some n, noopAt, .noop⟩])) := by
    refine manned.fresh.append fun i e t entry isEvent => ?_
    by_cases inside : i < es.length
    · rw [List.getElem?_append_left inside] at entry
      have deed := writes.event_mem (List.mem_of_getElem? entry) isEvent
      rcases outcome.task with ⟨ev, cs, told, rfl, -⟩ | other
      · obtain ⟨ts, fs, rfl, quiet, -⟩ := writes.event_commands
        cases i with
        | succ i =>
          rw [quiet e (List.mem_of_getElem? (by simpa using entry))] at isEvent
          cases isEvent
        | zero =>
          cases entry
          cases isEvent
          cases told with
          | @activated r at_ =>
            refine ⟨rfl, fun p' folds => ?_⟩
            obtain ⟨k, rfl⟩ := content_eq_iff.mp (folded.unique folds)
            exact Option.map_eq_none_iff.mp (kindred.fresh r.task.name (by simp [Command.activates]))
      · cases other _ deed
    · rw [List.getElem?_append_right (by omega)] at entry
      cases List.mem_singleton.mp (List.mem_of_getElem? entry)
      cases isEvent
  have owed (r : ActivateTask) (waits : .activateTask r ∈ rest) :
      r.Owed p ∧ p.tasks.lookup r.task.name = none := by
    have there : .activateTask r ∈ c :: rest := List.mem_cons_of_mem _ waits
    have fresh := kindred.fresh r.task.name (List.mem_filterMap.mpr ⟨_, there, rfl⟩)
    exact ⟨manned.owed r there, Option.map_eq_none_iff.mp fresh⟩
  rcases outcome.task with ⟨ev, cs, told, rfl, silent⟩ | other
  · obtain ⟨ts, fs, rfl, -, -, rfl⟩ := writes.event_commands
    constructor
    · exact manned.rows.told family.filed told (inTime.event List.mem_cons_self rfl) fun r asks =>
        manned.owed r (asks ▸ List.mem_cons_self)
    · intro r waits
      rcases List.mem_append.mp waits with old | new
      · obtain ⟨owed, fresh⟩ := owed r old
        exact owed.told family.filed manned.rows fresh told
      · rw [writes.commands, mem_deedCommands] at new
        have asks := silent _ (by simpa using new)
        cases asks
    · exact fresh
  · constructor
    · exact manned.rows.other family outcome writes other
    · intro r waits
      rcases List.mem_append.mp waits with old | new
      · obtain ⟨owed, -⟩ := owed r old
        obtain ⟨act, here, count⟩ := owed.unretried
        obtain ⟨act', here', kept⟩ := outcome.keeps_activity writes family
          (fun ev there => ev.retries_of_other (other ev there)) here
        exact ⟨owed.heir, act', here', kept.retryCount.trans count⟩
      · rw [writes.commands, mem_deedCommands] at new
        exact outcome.owes writes family new
    · exact fresh

theorem Ledger.Turns.manned {l} (turns : Turns (TimedAnswer env) l) : l.Manned := by
  have sound := TimedAnswer.advancing env
  refine turns.keeps (I := Manned) ⟨⟨?_, ?_, ?_⟩, by simp, ?_⟩ fun past manned turn => ?_
  · rintro n t ⟨⟩
  · rintro n t ⟨⟩
  · rintro n t ⟨⟩
  · intro n cause ts t p entry
    simp [entryAt] at entry
  have rooted := past.rooted (fun answer => answer.1) sound
  have folded := (past.advances sound).mirrors
  cases turn with
  | @restart log p q queue n ends quiet folds =>
    obtain ⟨k, rfl⟩ := content_eq_iff.mp (folded.unique folds.mirrors)
    refine ⟨{ manned.rows with }, fun r waits => ?_, manned.fresh⟩
    have asks := rooted.none_left ends quiet _ waits
    cases asks
  | step step =>
    cases step with
    | @client log p queue c at_ noopAt client =>
      refine ⟨manned.rows, fun r waits => ?_, manned.fresh.append fun i e t entry isEvent => ?_⟩
      · rcases List.mem_append.mp waits with old | new
        · exact manned.owed r old
        · cases List.mem_singleton.mp new
          cases client
      · have there := List.mem_of_getElem? entry
        simp only [List.mem_cons, List.not_mem_nil, or_false] at there
        rcases there with rfl | rfl <;> cases isEvent
    | answer noopAt answers =>
      obtain ⟨answer, inTime⟩ := answers
      cases answer with
      | outcome outcome writes => exact manned.outcome rooted.kindred folded outcome writes inTime
      | refused =>
        refine ⟨manned.rows, fun r waits => ?_, manned.fresh.append fun i e t entry isEvent => ?_⟩
        · simp only [commandsOf, Entry.command?, List.filterMap_cons, List.filterMap_nil,
            List.append_nil] at waits
          exact manned.owed r (List.mem_cons_of_mem _ waits)
        · have there := List.mem_of_getElem? entry
          simp only [List.cons_append, List.nil_append, List.mem_cons, List.not_mem_nil,
            or_false] at there
          rcases there with rfl | rfl <;> cases isEvent

end ledger

/-! ## In every run -/

/-- The row is the value an event carries, or that of a completed task with the lease it had. -/
structure Projection.Took (p : Projection) (ev : Event) (t : Task) : Prop where
  whole : p.getTask t.objectRef = some t ↔ ev.completesTask = false
  leased : ev.completesTask = true → ∃ worker lease,
    p.getTask t.objectRef = some { t with workerId := some worker, leaseExpiresAt := lease }

section took

variable {env : Env} {log : List Entry} {n : Nat} {cause : Option Nat} {ts : Timestamp} {ev : Event}
  {t : Task} {p : Projection}

theorem Event.isTask_of_mem (member : t ∈ ev.tasks) : ev.isTask = true := by
  cases ev <;> first | rfl | cases member

theorem TaskTold.took {c} (told : TaskTold env p c ev) (filed : p.Filed) (inTime : ev.InTime ts)
    (member : t ∈ ev.tasks) : (ev.apply ts p).Took ev t := by
  cases completes : ev.completesTask with
  | false =>
    have stored : (ev.apply ts p).getTask t.objectRef = some t :=
      told.stores filed inTime member completes
    exact ⟨by simp [stored, completes], by simp [completes]⟩
  | true =>
    cases ev with
    | taskCompleted req v output =>
      cases List.mem_singleton.mp member
      obtain ⟨row, worker, -, -, -, released, -, stored⟩ := told.completes ts filed
      have stored : (Event.apply ts p (.taskCompleted req t output)).getTask t.objectRef = _ :=
        stored
      refine ⟨?_, fun _ => ⟨worker, _, stored⟩⟩
      rw [stored, completes]
      refine iff_of_false (fun same => ?_) (by simp)
      have held := congrArg Task.workerId (Option.some.inj same)
      rw [released] at held
      cases held
    | _ => cases completes

theorem Projection.Took.content {q : Projection} (took : p.Took ev t) (same : p.content = q.content) :
    q.Took ev t := by
  obtain ⟨k, rfl⟩ := content_eq_iff.mp same
  exact { took with }

theorem ToldLog.took (told : ToldLog env log) (entry : entryAt log n = some ⟨cause, ts, .event ev⟩)
    (member : t ∈ ev.tasks) (folds : FoldsTo log n p) : p.Took ev t := by
  obtain ⟨k, c, r, -, told⟩ := told n cause ts ev entry (ev.isTask_of_mem member)
  exact (told.told.took told.filed told.inTime member).content (Mirrors.unique told.after folds)

end took

namespace World

/-- What the log says of tasks and what is stored of them agree, but for the lease of a completed
    task. -/
structure TasksAgree (w : World) : Prop where
  /-- up to every event of the log -/
  folded : ∀ {n cause ts ev t p}, entryAt w.log n = some ⟨cause, ts, .event ev⟩ → t ∈ ev.tasks →
    FoldsTo w.log n p → p.Took ev t
  /-- in storage, until a later event is committed -/
  stored : ∀ {n cause ts ev t}, entryAt w.log n = some ⟨cause, ts, .event ev⟩ → t ∈ ev.tasks →
    n ≤ w.storage.lastProcessedPosition → QuietBetween w.log n w.storage.lastProcessedPosition →
    w.storage.rows.Took ev t
  released : ∀ {r t}, w.storage.rows.getTask r = some t → t.status = .failed →
    t.workerId = none ∧ t.leaseExpiresAt = none
  held : ∀ {r t}, w.storage.rows.getTask r = some t → t.status = .completed →
    t.workerId ≠ none ∧ t.leaseExpiresAt ≠ none
  counted : ∀ {r t}, w.storage.rows.getTask r = some t →
    ∃ act, w.storage.rows.getActivity t.metadata.owner = some act ∧
      act.retryCount = t.retryState.attempts

variable {env : Env} {w : World}

theorem Timely.chronicled (run : Run.Reach (World.step env) (Timely env) init w) :
    w.Chronicled (TimedAnswer env) :=
  Chronicled.of_run (TimedAnswer.advancing env) (fun _ _ timely => timely.1) timed_answers run

theorem Timely.told (run : Run.Reach (World.step env) (Timely env) init w) : ToldLog env w.log := by
  obtain ⟨p, annals⟩ := Annals.of_run (TimedAnswer.sound env) (fun _ _ timely => timely.1)
    timed_answers run
  exact annals.told

theorem Timely.took {n : Nat} {cause ts ev t}
    (run : Run.Reach (World.step env) (Timely env) init w)
    (entry : entryAt w.log n = some ⟨cause, ts, .event ev⟩) (member : t ∈ ev.tasks)
    (order : n ≤ w.storage.lastProcessedPosition)
    (quiet : QuietBetween w.log n w.storage.lastProcessedPosition) : w.storage.rows.Took ev t := by
  have told := Timely.told run
  obtain ⟨k, c, p, -, ⟨_, _, _, _, _, after⟩⟩ := told _ _ _ _ entry (Event.isTask_of_mem member)
  have current : FoldsTo w.log w.storage.lastProcessedPosition w.storage.rows :=
    (Timely.chronicled run).stored.mirrors
  exact (told.took entry member after).content (Mirrors.unique (after.quiet order quiet) current)

/-- As long as no storage failure is swallowed, the stored tasks are those of the events. -/
theorem task_rows_agree (run : Run.Reach (World.step env) (Timely env) init w) : w.TasksAgree := by
  have chronicled := Timely.chronicled run
  have told := Timely.told run
  obtain ⟨l', turns', -, same⟩ := chronicled.committed (TimedAnswer.advancing env) (Placed.reach run)
  have manned : w.storage.rows.Manned := by
    obtain ⟨k, same⟩ := content_eq_iff.mp same
    rw [same]
    exact { turns'.manned.rows with }
  refine ⟨told.took, Timely.took run, fun found ended => ?_, fun found ended => ?_,
    fun found => manned.counted _ _ found⟩
  · have leased := manned.leased _ _ found
    rwa [Task.Leased, ended] at leased
  · have leased := manned.leased _ _ found
    rwa [Task.Leased, ended] at leased

open Scenario in
theorem Timely.of_still {a} (still : a.FaultFree ∧ Clocked ⟨0⟩ a) (w : World) : w.Timely env a := by
  refine ⟨still.1.spared, ?_⟩
  cases a with
  | dispatch d =>
    intro i m n _
    show ((d.attempts i).clock m).millis ≤ ((d.attempts i).clock n).millis
    rw [still.2.1 i m, still.2.1 i n]
  | _ => trivial

/-! A claimed task is reported complete. The event says that nobody holds it, and the row still
names the worker. -/

open Scenario

def oneReport : List Action :=
  appends [createFlow, createExecution exec] ++ starts 4 ++ drives frozen 26 ++ appends [claim] ++
    drives frozen 3 ++ appends [report] ++ drives frozen 1

theorem oneReport_still : Still oneReport :=
  ((((((appends_still _).append (starts_still _)).append (frozen_still _)).append
    (appends_still _)).append (frozen_still _)).append (appends_still _)).append (frozen_still _)

def completes (row : Option Task) : Event → Bool
  | .taskCompleted _ t _ => t.workerId.isNone && t.leaseExpiresAt.isNone &&
      row.any fun row => row.status == .completed && row.objectRef == t.objectRef &&
        row.workerId == some "worker" && row.leaseExpiresAt == some ⟨60000⟩
  | _ => false

theorem task_rows_agree_report :
    (after true catching oneReport).TasksAgree ∧
      (entryAt (after true catching oneReport).log 20).any (fun e => e.event?.any Event.isTask) := by
  refine ⟨task_rows_agree (reach_after fun w a member => ?_), by decide +kernel⟩
  exact Timely.of_still (oneReport_still a member) w

theorem completed_row_keeps_lease :
    Run.Reach (World.step (host true catching)) (fun _ a => a.FaultFree ∧ Clocked ⟨0⟩ a) init
        (after true catching oneReport) ∧
      (after true catching oneReport).storage.lastProcessedPosition = 26 ∧
      (entryAt (after true catching oneReport).log 24).any (fun e => e.event?.any
        (completes ((after true catching oneReport).storage.rows.getTask firstTask))) := by
  refine ⟨reach_after fun _ a member => oneReport_still a member, ?_, ?_⟩
  all_goals decide +kernel

end World

end Spica
