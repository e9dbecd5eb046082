import Spica.Answers

/-! # The observer of the leader

A hook is told of the events of a batch once the batch is committed, and after them of its
rejections. The events it is still to be told of wait in the leader: a dispatch that answers puts
the events of its answer there, recovery puts each event it folds there, telling the hook empties
it. A command refused by an error puts nothing there, so its commit tells of what was left.
-/

namespace Spica

open Log Scenario

/-- What the hook is called with. -/
inductive HookCall where
  | onEventApplied (event : Event)
  | onCommandRejected (requestId : RequestId) (reject : Reject)
  deriving DecidableEq

def Entry.reject? (e : Entry) : Option Reject :=
  match e.payload with
  | .reject r => some r
  | _ => none

def appliedEvents (es : List Entry) : List Event := es.filterMap Entry.event?

/-- The calls of one commit: `after_commit`, then the rejections of the answer. -/
def hookCalls (applied : List Event) (answer : List Entry) : List HookCall :=
  applied.map .onEventApplied ++
    (answer.filterMap Entry.reject?).map fun r => .onCommandRejected r.requestId r

/-- The answer of the attempt that answers the command. `none` if no attempt does and the command
    is refused by the leader. -/
def dispatchedFrom (env : Env) (cause : Nat) (command : Command) (rows : Projection) :
    List Attempt → MachineCache → Option Produced
  | [], _ => none
  | a :: later, machines =>
    match dispatchOnce env cause command rows machines a with
    | (.ok produced, _) => some produced
    | (.error (.unexpected _), machines) => dispatchedFrom env cause command rows later machines
    | (.error _, _) => none

namespace World

variable (env : Env) (w : World) (d : Decision)

/-- The command the leader is about to decide, with what it knows of machines. -/
def reading : Option (Nat × Command × MachineCache) :=
  match w.proc with
  | .running next leader =>
    match entryAt w.log next with
    | some ⟨_, _, .command c⟩ => some (next, c, leader.definitions)
    | _ => none
  | _ => none

/-- The answer to that command. -/
def answer : Option Produced :=
  w.reading.bind fun (next, c, machines) =>
    (processCommand env next c w.storage.rows machines d).1

/-- The answer, if a dispatch gives it. -/
def dispatched : Option Produced :=
  w.reading.bind fun (next, c, machines) =>
    dispatchedFrom env next c w.storage.rows (List.ofFn d.attempts) machines

/-- The event recovery is about to fold. -/
def folds : Option Event :=
  match w.proc with
  | .recovering _ pos _ => (entryAt w.log pos).bind Entry.event?
  | _ => none

end World

/-- The system together with what the hook has been told. -/
structure Observed where
  world : World
  /-- the events the hook is still to be told of -/
  lastApplied : List Event
  /-- the answer being committed -/
  produced : List Entry
  calls : List HookCall

namespace Observed

def init : Observed := ⟨.init, [], [], []⟩

variable (env : Env)

/-- A processor that is run again keeps its leader, and with it the events not told yet. -/
def step (o : Observed) (a : Action) : Option Observed :=
  (o.world.step env a).map fun w =>
    match a with
    | .boot keep => { o with world := w, lastApplied := if keep then o.lastApplied else [] }
    | .recover _ => { o with world := w, lastApplied := o.world.folds.elim o.lastApplied ([·]) }
    | .dispatch d => { o with
        world := w
        lastApplied :=
          (o.world.dispatched env d).elim o.lastApplied fun p => appliedEvents p.entries
        produced := (o.world.answer env d).elim [] Produced.entries }
    | .commit => ⟨w, [], [], o.calls ++ hookCalls o.lastApplied o.produced⟩
    | _ => { o with world := w }

/-- The hook is told of the events of the batch being committed, in its order, then of its
    rejections, and of nothing else. -/
def Tells (o o' : Observed) : Prop :=
  ∃ next leader rows last first, o.world.proc = .committing next leader rows last ∧
    Appended o.world.log o.world.storage.lastProcessedPosition next first last ∧
    Boundary o.world.log first ∧
    o'.calls = o.calls ++ hookCalls (appliedEvents ((o.world.log.take last).drop first))
      ((o.world.log.take last).drop first)

/-- A command is refused by an error only where no event is left to tell. -/
def Told (o : Observed) : Action → Prop
  | .dispatch d => o.lastApplied = [] ∨ (o.world.dispatched env d).isSome = true
  | _ => True

instance (o : Observed) : DecidablePred (o.Told env)
  | .dispatch d =>
    inferInstanceAs (Decidable (o.lastApplied = [] ∨ (o.world.dispatched env d).isSome = true))
  | .clientAppend .. | .boot _ | .recover _ | .skip | .commit | .stop | .follow _
  | .followerRestart => .isTrue trivial

end Observed

/-! ## What waits to be told -/

section answer

variable {env : Env} {cause : Nat} {command : Command} {rows : Projection}
  {machines machines' : MachineCache} {produced : Produced} {d : Decision}

theorem Produced.IsRefusal.quiet (refusal : produced.IsRefusal cause rows) :
    appliedEvents produced.entries = [] := by
  obtain ⟨ts, r, rfl⟩ := refusal
  rfl

/-- An answer is either that of a dispatch, or a refusal without events. -/
theorem attemptFrom_dispatched {attempts}
    (ran : attemptFrom env cause command rows d attempts machines = (some produced, machines')) :
    dispatchedFrom env cause command rows attempts machines = some produced ∨
      dispatchedFrom env cause command rows attempts machines = none ∧
        appliedEvents produced.entries = [] := by
  induction attempts generalizing machines with
  | nil => cases ran
  | cons a later ih =>
    unfold attemptFrom at ran
    unfold dispatchedFrom
    split at ran
    case h_1 once =>
      cases ran
      rw [once]
      exact .inl rfl
    case h_2 => cases ran
    case h_3 once =>
      rw [once]
      exact .inr ⟨rfl, (rejectCommand_refuses (Prod.mk.inj ran).1).quiet⟩
    case h_4 once =>
      rw [once]
      split at ran
      case isTrue last =>
        obtain rfl := List.isEmpty_iff.mp last
        exact .inr ⟨rfl, (rejectCommand_refuses (Prod.mk.inj ran).1).quiet⟩
      case isFalse => exact ih ran

end answer

namespace World

variable {env : Env} {w : World} {d : Decision} {next : Nat} {leader : Leader}
  {cause : Option Nat} {ts : Timestamp} {c : Command} {produced : Produced}
  {definitions : MachineCache}

theorem reading_eq (here : w.proc = .running next leader)
    (entry : entryAt w.log next = some ⟨cause, ts, .command c⟩) :
    w.reading = some (next, c, leader.definitions) := by
  simp [reading, here, entry]

theorem answer_eq (here : w.proc = .running next leader)
    (entry : entryAt w.log next = some ⟨cause, ts, .command c⟩)
    (decided : processCommand env next c w.storage.rows leader.definitions d =
      (some produced, definitions)) : w.answer env d = some produced := by
  simp [answer, reading_eq here entry, decided]

theorem dispatched_eq (here : w.proc = .running next leader)
    (entry : entryAt w.log next = some ⟨cause, ts, .command c⟩)
    (decided : processCommand env next c w.storage.rows leader.definitions d =
      (some produced, definitions)) :
    w.dispatched env d = some produced ∨
      w.dispatched env d = none ∧ appliedEvents produced.entries = [] := by
  simpa [dispatched, reading_eq here entry] using attemptFrom_dispatched decided

end World

theorem mem_appliedEvents {es ev} :
    ev ∈ appliedEvents es ↔ ∃ e ∈ es, e.event? = some ev := List.mem_filterMap

theorem onEventApplied_mem_hookCalls {applied answer ev} :
    .onEventApplied ev ∈ hookCalls applied answer ↔ ev ∈ applied := by
  simp [hookCalls]

/-- The hook is not told of the Noop that closes a batch. -/
theorem hookCalls_noop (es : List Entry) (cause : Option Nat) (ts : Timestamp) :
    hookCalls (appliedEvents (es ++ [⟨cause, ts, .noop⟩])) (es ++ [⟨cause, ts, .noop⟩]) =
      hookCalls (appliedEvents es) es := by
  simp [hookCalls, appliedEvents, List.filterMap_cons, Entry.event?, Entry.reject?]

/-- A batch starts where the batch before it ends. -/
theorem Appended.first_unique {log committed next first first' last}
    (one : Appended log committed next first last)
    (other : Appended log committed next first' last) (starts : Boundary log first)
    (starts' : Boundary log first') : first = first' := by
  have later {a b : Nat} (answer : Appended log committed next a last) (inside : b + 1 < last)
      (starts : Boundary log b) : b ≤ a := by
    by_contra past
    rcases starts with zero | ⟨e, found, noop⟩
    · omega
    · have := (answer.answers b e (by omega) (by omega) found).2
      simp [noop] at this
  exact le_antisymm (later other one.nonempty starts) (later one other.nonempty starts')

namespace Observed

variable {env : Env} {o o' : Observed} {a : Action}

/-- The event is in a committed batch. -/
def Durable (w : World) (ev : Event) : Prop :=
  ∃ pos e, pos ≤ w.storage.lastProcessedPosition ∧ entryAt w.log pos = some e ∧ e.event? = some ev

theorem Durable.step {w w' ev} (durable : Durable w ev) (placed : w.Placed)
    (moved : w.step env a = some w') : Durable w' ev := by
  obtain ⟨pos, e, below, found, isEvent⟩ := durable
  obtain ⟨es, grown⟩ := World.log_grows moved
  refine ⟨pos, e, below.trans (World.committed_mono placed moved), ?_, isEvent⟩
  rw [grown, entryAt_append (entryAt_eq_some found).2, found]

/-- The answer being committed is the batch the log holds for it. -/
def Holds (w : World) (produced : List Entry) : Prop :=
  ∀ next leader rows last, w.proc = .committing next leader rows last →
    ∃ first ts, Appended w.log w.storage.lastProcessedPosition next first last ∧
      Boundary w.log first ∧
      (w.log.take last).drop first = produced ++ [⟨some next, ts, .noop⟩]

/-- What holds of the observer in every run. -/
structure Consistent (o : Observed) : Prop where
  placed : o.world.Placed
  /-- what waits to be told is in the log -/
  known : ∀ ev ∈ o.lastApplied, ∃ e ∈ o.world.log, e.event? = some ev
  answer : Holds o.world o.produced
  told : ∀ ev, .onEventApplied ev ∈ o.calls → Durable o.world ev

theorem step_world (moved : o.step env a = some o') : o.world.step env a = some o'.world := by
  obtain ⟨w, stepped, rfl⟩ := Option.map_eq_some_iff.mp moved
  rw [stepped]
  cases a <;> rfl

theorem init_consistent : init.Consistent where
  placed := World.init_placed
  known := by simp [init]
  answer := by rintro _ _ _ _ ⟨⟩
  told := by simp [init]

/-- A client's append leaves the batch being committed as it is. -/
theorem Holds.extend {w produced es} (holds : Holds w produced) (new : ∀ e ∈ es, e.event? = none) :
    Holds { w with log := w.log ++ es } produced := by
  intro next leader rows last here
  obtain ⟨first, ts, answer, starts, batch⟩ := holds next leader rows last here
  obtain ⟨at_, closed⟩ := answer.closed
  refine ⟨first, ts, answer.extend new, starts.append, ?_⟩
  rw [List.take_append_of_le_length (entryAt_eq_some closed).2]
  exact batch

/-- The batch just appended. -/
theorem Holds.appended {w : World} {d : Decision} {next leader} {produced : Produced}
    (placed : w.Placed) (quiet : QuietBetween w.log
      w.storage.lastProcessedPosition w.log.length) (inside : next ≤ w.log.length)
    (sound : produced.Sound next) :
    Holds { w with
      log := w.log ++ produced.batch next d.noopAt
      proc := .committing next leader produced.rows
        (w.log.length + (produced.batch next d.noopAt).length) } produced.entries := by
  rintro _ _ _ _ ⟨⟩
  refine ⟨w.log.length, d.noopAt, .intro sound inside placed.boundary.le quiet,
    placed.ended.append, ?_⟩
  have whole : w.log.length + (produced.batch next d.noopAt).length =
      (w.log ++ produced.batch next d.noopAt).length := List.length_append.symm
  rw [whole, List.take_length, List.drop_left]
  rfl

theorem Consistent.step (consistent : o.Consistent) (moved : o.step env a = some o') :
    o'.Consistent := by
  obtain ⟨placed, known, holds, told⟩ := consistent
  obtain ⟨w, stepped, same⟩ := Option.map_eq_some_iff.mp moved
  have placed' := placed.step stepped
  have told' (ev : Event) (call : .onEventApplied ev ∈ o.calls) : Durable w ev :=
    (told ev call).step placed stepped
  have known' (ev : Event) (member : ev ∈ o.lastApplied) : ∃ e ∈ w.log, e.event? = some ev := by
    obtain ⟨e, there, isEvent⟩ := known ev member
    obtain ⟨es, grown⟩ := World.log_grows stepped
    exact ⟨e, grown ▸ List.mem_append_left _ there, isEvent⟩
  cases World.step_inv stepped with
  | clientAppend =>
    subst same
    exact ⟨placed', known', holds.extend (by simp [Entry.event?]), told'⟩
  | @boot keep =>
    subst same
    refine ⟨placed', ?_, by rintro _ _ _ _ ⟨⟩, told'⟩
    cases keep
    · simp
    · exact known
  | @recovered _ _ _ _ here tail =>
    subst same
    refine ⟨placed', ?_, by rintro _ _ _ _ ⟨⟩, told'⟩
    have none : o.world.folds = none := by simp [World.folds, here, tail]
    rw [none]
    exact known
  | @recover _ _ _ _ _ e _ here entry =>
    subst same
    refine ⟨placed', ?_, by rintro _ _ _ _ ⟨⟩, told'⟩
    have folds : o.world.folds = e.event? := by simp [World.folds, here, entry]
    rw [folds]
    cases isEvent : e.event? with
    | none => exact known
    | some ev =>
      intro ev' member
      obtain rfl := List.mem_singleton.mp member
      exact ⟨e, mem_of_entryAt entry, isEvent⟩
  | @dispatch d next leader cause ts c produced definitions here entry decided =>
    subst same
    have running := placed.proc
    rw [here] at running
    obtain ⟨-, -, quiet⟩ := running
    dsimp only
    rw [World.answer_eq here entry decided]
    refine ⟨placed', ?_, .appended placed quiet (entryAt_eq_some entry).2
      (processCommand_sound decided), told'⟩
    intro ev member
    rcases World.dispatched_eq here entry decided with answered | ⟨refused, -⟩
    · rw [answered] at member
      obtain ⟨e, there, isEvent⟩ := mem_appliedEvents.mp member
      exact ⟨e, List.mem_append_right _ (List.mem_append_left _ there), isEvent⟩
    · rw [refused] at member
      exact known' ev member
  | @commit next leader rows last here =>
    subst same
    refine ⟨placed', by simp, by rintro _ _ _ _ ⟨⟩, ?_⟩
    intro ev call
    rcases List.mem_append.mp call with old | new
    · exact told' ev old
    -- no event of the log is above the batch being committed
    · obtain ⟨e, member, isEvent⟩ := known ev (onEventApplied_mem_hookCalls.mp new)
      obtain ⟨first, ts, answer, -, -⟩ := holds _ _ _ _ here
      obtain ⟨i, found⟩ := List.mem_iff_getElem?.mp member
      have found : entryAt o.world.log (i + 1) = some e := by rw [entryAt_succ, found]
      refine ⟨i + 1, e, ?_, found, isEvent⟩
      by_contra above
      have quiet := answer.rest (i + 1) e (Nat.lt_of_not_le above) (entryAt_eq_some found).2 found
      simp [isEvent] at quiet
  | skip | stop =>
    subst same
    exact ⟨placed', known, by rintro _ _ _ _ ⟨⟩, told'⟩
  | follow | followerRestart =>
    subst same
    exact ⟨placed', known, holds, told'⟩

theorem Consistent.reach {ok} (run : Run.Reach (Observed.step env) ok init o) : o.Consistent :=
  run.keeps (fun _ _ _ consistent _ moved => consistent.step moved) init_consistent

/-! ## Every committed event is told once -/

/-- What waits to be told at a commit is the events of the answer. -/
def Fresh (o : Observed) : Prop :=
  ∀ next leader rows last, o.world.proc = .committing next leader rows last →
    o.lastApplied = appliedEvents o.produced

theorem Fresh.step (fresh : o.Fresh) (told : o.Told env a) (moved : o.step env a = some o') :
    o'.Fresh := by
  obtain ⟨w, stepped, same⟩ := Option.map_eq_some_iff.mp moved
  cases World.step_inv stepped with
  | @dispatch d next leader cause ts c produced definitions here entry decided =>
    subst same
    intro _ _ _ _ _
    show Option.elim _ _ _ = appliedEvents (Option.elim _ _ _)
    rw [World.answer_eq here entry decided]
    rcases World.dispatched_eq here entry decided with answered | ⟨refused, quiet⟩
    · rw [answered]
      rfl
    · rw [refused]
      have nothing : o.lastApplied = [] := by simpa [Told, refused] using told
      exact nothing.trans quiet.symm
  | clientAppend | follow | followerRestart =>
    subst same
    exact fresh
  | _ =>
    subst same
    rintro _ _ _ _ ⟨⟩

theorem commit_tells_iff (consistent : o.Consistent) (moved : o.step env .commit = some o') :
    o.Tells o' ↔ o.lastApplied = appliedEvents o.produced := by
  obtain ⟨w, stepped, same⟩ := Option.map_eq_some_iff.mp moved
  cases World.step_inv stepped with
  | @commit next leader rows last here =>
  subst same
  obtain ⟨first, ts, answer, starts, batch⟩ := consistent.answer _ _ _ _ here
  constructor
  · rintro ⟨next', leader', rows', last', first', here', answer', starts', calls⟩
    cases here.symm.trans here'
    rw [← answer.first_unique answer' starts starts', batch, hookCalls_noop] at calls
    have told := List.append_cancel_left calls
    simpa [hookCalls, List.map_inj_right] using told
  · intro same
    refine ⟨next, leader, rows, last, first, here, answer, starts, ?_⟩
    rw [batch, hookCalls_noop, ← same]

/-- What the hook is told, and when. -/
structure Reports (env : Env) (o : Observed) : Prop where
  commits : ∀ o', o.step env .commit = some o' → o.Tells o'
  silent : ∀ a o', a ≠ .commit → o.step env a = some o' → o'.calls = o.calls
  durable : ∀ ev, .onEventApplied ev ∈ o.calls → Durable o.world ev

/-- Only commits call the hook. -/
theorem step_silent (other : a ≠ .commit) (moved : o.step env a = some o') :
    o'.calls = o.calls := by
  obtain ⟨w, -, rfl⟩ := Option.map_eq_some_iff.mp moved
  cases a with
  | commit => exact absurd rfl other
  | _ => rfl

theorem hook_reports_batches
    (run : Run.Reach (Observed.step env) (Observed.Told env) init o) : o.Reports env := by
  have consistent : o.Consistent := .reach run
  have fresh : o.Fresh :=
    run.keeps (fun _ _ _ fresh told moved => fresh.step told moved) (by rintro _ _ _ _ ⟨⟩)
  refine ⟨?_, fun a o' => step_silent, consistent.told⟩
  intro o' moved
  obtain ⟨w, stepped, -⟩ := Option.map_eq_some_iff.mp moved
  cases World.step_inv stepped with
  | commit here => exact (commit_tells_iff consistent moved).mpr (fresh _ _ _ _ here)

/-- After a restart that recovers a batch, the next command is answered and awaits its commit. -/
def answeredAfterRecovery : Observed :=
  Run.script (Observed.step (host true (single pass))) init
    (World.appendedActions ++ .stop :: (starts 8 ++ appends [createExecution exec] ++
      [.dispatch decision]))

theorem hook_reports_batches_recovered :
    answeredAfterRecovery.lastApplied ≠ [] ∧
      ∃ o', answeredAfterRecovery.step (host true (single pass)) .commit = some o' ∧
        answeredAfterRecovery.Tells o' := by
  have run : Run.Reach (Observed.step (host true (single pass))) (Told (host true (single pass)))
      init answeredAfterRecovery :=
    Run.reach_checked (fun o a => decide (o.Told (host true (single pass)) a))
      (fun _ _ _ => of_decide_eq_true) (by decide +kernel)
  obtain ⟨o', moved⟩ := Option.isSome_iff_exists.mp
    (by decide +kernel : (answeredAfterRecovery.step (host true (single pass)) .commit).isSome = true)
  exact ⟨by decide +kernel, o', moved, (hook_reports_batches run).commits o' moved⟩

/-! Where a command is refused right after the restart, its commit tells the hook of the last
event recovery has folded. -/

def refusedAfterRecovery : Observed :=
  Run.script (Observed.step (host true (single pass))) init
    (World.appendedActions ++ .stop :: (starts 8 ++ appends [report] ++
      [.dispatch decision]))

theorem recovered_event_told_again :
    ∃ o o', Run.Reach (Observed.step (host true (single pass))) (fun _ _ => True) init o ∧
      o.step (host true (single pass)) .commit = some o' ∧ appliedEvents o.produced = [] ∧
      (∃ ev, o.lastApplied = [ev] ∧ .onEventApplied ev ∈ o'.calls) ∧ ¬ o.Tells o' := by
  have run : Run.Reach (Observed.step (host true (single pass))) (fun _ _ => True) init
      refusedAfterRecovery := Run.reach_script fun _ _ _ => trivial
  obtain ⟨o', moved⟩ := Option.isSome_iff_exists.mp
    (by decide +kernel : (refusedAfterRecovery.step (host true (single pass)) .commit).isSome = true)
  have quiet : appliedEvents refusedAfterRecovery.produced = [] := by decide +kernel
  obtain ⟨ev, left⟩ := List.length_eq_one_iff.mp
    (by decide +kernel : refusedAfterRecovery.lastApplied.length = 1)
  refine ⟨_, o', run, moved, quiet, ⟨ev, left, ?_⟩, ?_⟩
  · obtain ⟨w, -, rfl⟩ := Option.map_eq_some_iff.mp moved
    exact List.mem_append_right _ (onEventApplied_mem_hookCalls.mpr (by simp [left]))
  · rw [commit_tells_iff (.reach run) moved, quiet, left]
    exact List.cons_ne_nil _ _

end Observed

end Spica
