import Spica.Leader
import Spica.Lib.Log

/-! # The stream processor over a durable log

The log is one list of entries, an entry's position being its index from 1. Clients append a
command closed by a Noop. The leader reads the log in order, answers each command it reads with
a batch closed by a Noop, appended at once, and then commits the batch's transaction together
with the Noop's position. It may stop at any point; a restart first folds the events above the
committed position batch by batch, then reads on from the position committed last.
-/

namespace Spica

/-- The commands the engine's write methods and the deadline sink append. -/
def Command.isClient : Command → Bool
  | .createFlow _ | .createExecution _ | .claimTasks _ | .triggerDeadline _ _ => true
  | .terminateExecution p => p.reason = .cancelled
  | .completeTask p => p.task.uid = .nil
  | .failTask p => p.task.uid = .nil
  | _ => false

/-- The leader's memory: how far it has applied, and the machines it has parsed. -/
structure Leader where
  watermark : Nat
  definitions : MachineCache

/-- Where the leader's loop is. -/
inductive Proc where
  /-- not running; a restart may keep the machines of the same process -/
  | stopped (definitions : MachineCache)
  /-- recovering, about to read `pos`, with the open transaction of an unfinished batch -/
  | recovering (definitions : MachineCache) (pos : Nat) (inflight : Option Projection)
  /-- about to read `next` -/
  | running (next : Nat) (leader : Leader)
  /-- the answer to the command at `next` is appended up to `last`, but not yet committed -/
  | committing (next : Nat) (leader : Leader) (rows : Projection) (last : Nat)

/-- A read replica: its own storage, how far it has read, and an unfinished batch. -/
structure Follower where
  storage : Storage
  pos : Nat
  inflight : Option Projection

def Follower.boot (s : Storage) : Follower := ⟨s, s.lastProcessedPosition + 1, none⟩

structure World where
  log : List Entry
  storage : Storage
  proc : Proc
  follower : Follower

namespace World

def init : World where
  log := []
  storage := .empty
  proc := .stopped ∅
  follower := .boot .empty

end World

/-- One move of the system. -/
inductive Action where
  | clientAppend (command : Command) (at_ noopAt : Timestamp)
  | boot (keepDefinitions : Bool)
  | recover (backend : Backend)
  | dispatch (d : Decision)
  | skip
  | commit
  | stop
  | follow (backend : Backend)
  | followerRestart

/-- No storage call of the action fails. -/
def Action.FaultFree : Action → Prop
  | .recover b | .follow b => b.FaultFree
  | .dispatch d => d.FaultFree
  | _ => True

/-- Fold an event into the open transaction of a batch, opened now if there is none. `none` is
    a failure that ends the loop. -/
def foldInflight (backend : Backend) (storage : Storage) (inflight : Option Projection)
    (ts : Timestamp) (e : Event) : Option Projection :=
  let rows := inflight.getD storage.rows
  match (dispatchEvent ts e).run Txn.interpret backend ⟨rows, 0⟩ with
  | (.ok (), txn) => some txn.rows
  | (.error _, _) => none

/-- One entry of `recover_leader`, or of a follower: fold an event, commit at a Noop that ends a
    batch with events in it, pass over anything else. -/
def replayEntry (backend : Backend) (pos : Nat) (e : Entry) (s : Storage)
    (inflight : Option Projection) : Option (Storage × Option Projection) :=
  match e.payload with
  | .event ev => (foldInflight backend s inflight e.timestamp ev).map fun rows => (s, some rows)
  | .noop =>
    match inflight with
    | none => some (s, none)
    | some rows => some (s.commit rows pos, none)
  | .command _ | .reject _ => some (s, inflight)

namespace World

open Log

variable (env : Env)

def clientAppend (w : World) (c : Command) (at_ noopAt : Timestamp) : Option World :=
  if c.isClient then
    some { w with log := w.log ++ [⟨none, at_, .command c⟩, ⟨none, noopAt, .noop⟩] }
  else none

def boot (w : World) (keep : Bool) : Option World :=
  match w.proc with
  | .stopped definitions => some { w with
      proc := .recovering (if keep then definitions else ∅)
        (w.storage.lastProcessedPosition + 1) none }
  | _ => none

/-- `recover_leader`: one entry, or the end of the log. -/
def recover (w : World) (backend : Backend) : Option World :=
  match w.proc with
  | .recovering definitions pos inflight =>
    match entryAt w.log pos with
    | none => some { w with
        proc := .running (w.storage.lastProcessedPosition + 1)
          ⟨w.storage.lastProcessedPosition, definitions⟩ }
    | some e =>
      (replayEntry backend pos e w.storage inflight).map fun (s, inflight) =>
        { w with storage := s, proc := .recovering definitions (pos + 1) inflight }
  | _ => none

/-- Decide the command at the read position and append the answer. -/
def dispatch (w : World) (d : Decision) : Option World :=
  match w.proc with
  | .running next leader =>
    match entryAt w.log next with
    | some ⟨_, _, .command c⟩ =>
      match processCommand env next c w.storage.rows leader.definitions d with
      | (some produced, definitions) =>
        let batch := produced.batch next d.noopAt
        some { w with
          log := w.log ++ batch
          proc := .committing next { leader with definitions := definitions }
            produced.rows (w.log.length + batch.length) }
      | (none, _) => none
    | _ => none
  | _ => none

def commit (w : World) : Option World :=
  match w.proc with
  | .committing next leader rows last => some { w with
      storage := w.storage.commit rows last
      proc := .running (next + 1) { leader with watermark := last } }
  | _ => none

/-- Pass over an entry that is not a command. An event the leader has not applied panics where
    debug assertions are compiled in. -/
def skip (w : World) : Option World :=
  match w.proc with
  | .running next leader =>
    match entryAt w.log next with
    | some ⟨_, _, .event _⟩ =>
      if env.debug && decide (leader.watermark < next) then none
      else some { w with proc := .running (next + 1) leader }
    | some ⟨_, _, .noop⟩ | some ⟨_, _, .reject _⟩ =>
      some { w with proc := .running (next + 1) leader }
    | _ => none
  | _ => none

/-- Cancelled or crashed, wherever the loop is. -/
def stop (w : World) : Option World :=
  match w.proc with
  | .stopped _ => none
  | .recovering definitions _ _ => some { w with proc := .stopped definitions }
  | .running _ leader => some { w with proc := .stopped leader.definitions }
  | .committing _ leader _ _ => some { w with proc := .stopped leader.definitions }

def follow (w : World) (backend : Backend) : Option World :=
  match entryAt w.log w.follower.pos with
  | none => none
  | some e =>
    (replayEntry backend w.follower.pos e w.follower.storage w.follower.inflight).map
      fun (s, inflight) => { w with follower := ⟨s, w.follower.pos + 1, inflight⟩ }

def step (w : World) : Action → Option World
  | .clientAppend c at_ noopAt => w.clientAppend c at_ noopAt
  | .boot keep => w.boot keep
  | .recover backend => w.recover backend
  | .dispatch d => w.dispatch env d
  | .skip => w.skip env
  | .commit => w.commit
  | .stop => w.stop
  | .follow backend => w.follow backend
  | .followerRestart => some { w with follower := .boot w.follower.storage }

/-- Everything a move can do, with what made it possible. -/
inductive Step (w : World) : Action → World → Prop
  | clientAppend {c at_ noopAt} (client : c.isClient = true) :
      Step w (.clientAppend c at_ noopAt)
        { w with log := w.log ++ [⟨none, at_, .command c⟩, ⟨none, noopAt, .noop⟩] }
  | boot {keep definitions} (here : w.proc = .stopped definitions) :
      Step w (.boot keep) { w with
        proc := .recovering (if keep then definitions else ∅)
          (w.storage.lastProcessedPosition + 1) none }
  | recovered {backend definitions pos inflight}
      (here : w.proc = .recovering definitions pos inflight) (tail : entryAt w.log pos = none) :
      Step w (.recover backend) { w with
        proc := .running (w.storage.lastProcessedPosition + 1)
          ⟨w.storage.lastProcessedPosition, definitions⟩ }
  | recover {backend definitions pos inflight inflight' e s}
      (here : w.proc = .recovering definitions pos inflight) (entry : entryAt w.log pos = some e)
      (replayed : replayEntry backend pos e w.storage inflight = some (s, inflight')) :
      Step w (.recover backend) { w with
        storage := s
        proc := .recovering definitions (pos + 1) inflight' }
  | dispatch {d next leader cause ts c produced definitions}
      (here : w.proc = .running next leader)
      (entry : entryAt w.log next = some ⟨cause, ts, .command c⟩)
      (decided : processCommand env next c w.storage.rows leader.definitions d =
        (some produced, definitions)) :
      Step w (.dispatch d) { w with
        log := w.log ++ produced.batch next d.noopAt
        proc := .committing next { leader with definitions := definitions } produced.rows
          (w.log.length + (produced.batch next d.noopAt).length) }
  | skip {next leader e} (here : w.proc = .running next leader)
      (entry : entryAt w.log next = some e) (passed : e.isCommand = false) :
      Step w .skip { w with proc := .running (next + 1) leader }
  | commit {next leader rows last} (here : w.proc = .committing next leader rows last) :
      Step w .commit { w with
        storage := w.storage.commit rows last
        proc := .running (next + 1) { leader with watermark := last } }
  | stop {definitions} (live : ∀ definitions, w.proc ≠ .stopped definitions) :
      Step w .stop { w with proc := .stopped definitions }
  | follow {backend e s inflight} (entry : entryAt w.log w.follower.pos = some e)
      (replayed : replayEntry backend w.follower.pos e w.follower.storage w.follower.inflight =
        some (s, inflight)) :
      Step w (.follow backend) { w with follower := ⟨s, w.follower.pos + 1, inflight⟩ }
  | followerRestart :
      Step w .followerRestart { w with follower := .boot w.follower.storage }

variable {env} {w w' : World} {a : Action}

theorem step_inv (moved : w.step env a = some w') : Step env w a w' := by
  cases a with
  | clientAppend c at_ noopAt =>
    simp only [step, World.clientAppend] at moved
    split at moved
    · cases moved
      exact .clientAppend ‹_›
    · cases moved
  | boot keep =>
    simp only [step, World.boot] at moved
    split at moved
    · cases moved
      exact .boot ‹_›
    · cases moved
  | recover backend =>
    simp only [step, World.recover] at moved
    split at moved
    · split at moved
      · cases moved
        exact .recovered ‹_› ‹_›
      · obtain ⟨⟨s, inflight'⟩, replayed, rfl⟩ := Option.map_eq_some_iff.mp moved
        exact .recover ‹_› ‹_› replayed
    · cases moved
  | dispatch d =>
    simp only [step, World.dispatch] at moved
    split at moved
    · split at moved
      · split at moved
        · cases moved
          exact .dispatch ‹_› ‹_› ‹_›
        · cases moved
      · cases moved
    · cases moved
  | skip =>
    simp only [step, World.skip] at moved
    split at moved
    · split at moved
      · split at moved
        · cases moved
        · cases moved
          exact .skip ‹_› ‹_› rfl
      · cases moved
        exact .skip ‹_› ‹_› rfl
      · cases moved
        exact .skip ‹_› ‹_› rfl
      · cases moved
    · cases moved
  | commit =>
    simp only [step, World.commit] at moved
    split at moved
    · cases moved
      exact .commit ‹_›
    · cases moved
  | stop =>
    simp only [step, World.stop] at moved
    split at moved
    · cases moved
    all_goals
      cases moved
      exact .stop (by simp [*])
  | follow backend =>
    simp only [step, World.follow] at moved
    split at moved
    · cases moved
    · obtain ⟨⟨s, inflight'⟩, replayed, rfl⟩ := Option.map_eq_some_iff.mp moved
      exact .follow ‹_› replayed
  | followerRestart =>
    cases moved
    exact .followerRestart

/-- The log only grows. -/
theorem log_grows (moved : w.step env a = some w') : ∃ es, w'.log = w.log ++ es := by
  cases step_inv moved with
  | clientAppend => exact ⟨_, rfl⟩
  | dispatch => exact ⟨_, rfl⟩
  | _ => exact ⟨[], (List.append_nil _).symm⟩

end World

end Spica
