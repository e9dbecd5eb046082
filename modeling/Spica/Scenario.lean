import Spica.Lawful
import Spica.Stream
import Spica.Lib.Run

/-! # Scripted runs

A platform without surprises, on which a run is determined by what clients append and when the
leader stops: storage never fails, the clock counts, identities are numbered. `leads` is the
leader's loop, driven until it is idle.
-/

namespace Spica.Scenario

def host (debug : Bool) (machine : StateMachine) : Env where
  debug := debug
  parse _ := .ok machine
  checksum _ := 0
  backoff _ attempt := attempt
  parseTimestamp _ := none
  wholeOf _ := none
  showWorker := fun _ => ""
  showStatus := Status.phase
  showPath := fun _ => ""
  showUlid := fun _ => ""

def backend : Backend := ⟨fun _ => none, fun _ => .asIs _, fun _ => .asIs _⟩

def attempt : Attempt where
  toBackend := backend
  beginFault := none
  clock n := ⟨n⟩
  ids n := ⟨n + 1⟩
  jsonata _ _ _ _ := .error "unsupported"

def decision : Decision := ⟨fun _ => attempt, none, ⟨0⟩, ⟨0⟩⟩

def appends (commands : List Command) : List Action := commands.map (.clientAppend · ⟨0⟩ ⟨0⟩)

/-- Start the leader and recover a log of at most the given length. -/
def starts (length : Nat) : List Action :=
  .boot false :: List.replicate (length + 1) (.recover backend)

/-- Pass over, dispatch and commit at most so many entries, each dispatch deciding alike. -/
def drives (d : Decision) (entries : Nat) : List Action :=
  (List.replicate entries [.dispatch d, .commit, .skip]).flatten

def leads (entries : Nat) : List Action := drives decision entries

/-- The same platform, on which the clock stands still. -/
def frozen : Decision := ⟨fun _ => { attempt with clock := fun _ => ⟨0⟩ }, none, ⟨0⟩, ⟨0⟩⟩

/-- Where a script gets to on such a platform. -/
def after (debug : Bool) (machine : StateMachine) (actions : List Action) : World :=
  Run.script (World.step (host debug machine)) .init actions

/-- A machine of one state. -/
def single (state : State) : StateMachine := ⟨"S", none, [("S", state)]⟩

def pass : State := .pass ⟨none, none, none, some true⟩

def flow : PlainName := ⟨"flow", by decide⟩

def exec : PlainName := ⟨"exec", by decide⟩

def second : PlainName := ⟨"second", by decide⟩

def createFlow : Command := .createFlow ⟨.nil, flow, "definition"⟩

/-- Start an execution of the flow's first version under the given name. -/
def createExecution (name : PlainName) : Command :=
  .createExecution ⟨.nil, .plain name, ⟨.generated flow 1, ⟨0⟩⟩, .null⟩

/-- A flow and one execution of it, run until the leader is idle. -/
def oneExecution : List Action :=
  appends [createFlow, createExecution exec] ++ starts 4 ++ leads 26

/-- A Task with a timeout, whose failures are caught. -/
def catching : StateMachine :=
  ⟨"S", none,
    [("S", .task ⟨none, none, none, some true, none, none, some [⟨["States.ALL"], "T", none, none⟩],
      "resource", some (.int 5)⟩),
    ("T", pass)]⟩

/-- The first activity of the execution, and the task it asks for. -/
def firstActivity : ObjectRef .activity := ⟨.generated exec 1, .nil⟩

def firstTask : ObjectRef .task := ⟨.generated exec 2, .nil⟩

def claim : Command := .claimTasks ⟨.nil, "worker", "resource", 1, 60⟩

def report : Command := .completeTask ⟨.nil, firstTask, "worker", .bool true⟩

def timeout : Command := .triggerDeadline (.activity firstActivity) ⟨5⟩

/-- The execution's first task is claimed, and the leader is idle. -/
def oneClaim : List Action := oneExecution ++ appends [claim] ++ leads 3

theorem starts_no_stop {length} : .stop ∉ starts length := by
  simp [starts, List.mem_replicate]

theorem leads_no_stop {entries} : .stop ∉ leads entries := by
  simp [leads, drives, List.mem_flatten, List.mem_replicate]

theorem appends_no_stop {commands} : .stop ∉ appends commands := by
  simp [appends]

/-- No storage call fails in any of the actions. -/
def Calm (as : List Action) : Prop := ∀ a ∈ as, a.FaultFree

theorem Calm.append {as bs} (first : Calm as) (rest : Calm bs) : Calm (as ++ bs) := by
  intro a member
  rcases List.mem_append.mp member with member | member
  · exact first a member
  · exact rest a member

theorem appends_calm (commands : List Command) : Calm (appends commands) := by
  intro a member
  obtain ⟨c, -, rfl⟩ := List.mem_map.mp member
  trivial

theorem starts_calm (length : Nat) : Calm (starts length) := by
  intro a member
  rcases List.mem_cons.mp member with rfl | member
  · trivial
  · rw [List.eq_of_mem_replicate member]
    exact fun _ => rfl

theorem decision_faultFree : decision.FaultFree := ⟨fun _ => ⟨fun _ => rfl, rfl⟩, rfl⟩

theorem leads_calm (entries : Nat) : Calm (leads entries) := by
  intro a member
  obtain ⟨group, repeated, member⟩ := List.mem_flatten.mp member
  rw [List.eq_of_mem_replicate repeated] at member
  simp only [List.mem_cons, List.not_mem_nil, or_false] at member
  rcases member with rfl | rfl | rfl
  · exact decision_faultFree
  · trivial
  · trivial

theorem reach_after {debug machine actions ok} (good : ∀ w, ∀ a ∈ actions, ok w a) :
    Run.Reach (World.step (host debug machine)) ok .init (after debug machine actions) :=
  Run.reach_script good

theorem oneExecution_calm : Calm oneExecution :=
  ((appends_calm _).append (starts_calm _)).append (leads_calm _)

theorem oneClaim_calm : Calm oneClaim :=
  (oneExecution_calm.append (appends_calm _)).append (leads_calm _)

/-- Every reading of the clock the action makes is the given one. -/
def Clocked (at_ : Timestamp) : Action → Prop
  | .clientAppend _ a b => a = at_ ∧ b = at_
  | .dispatch d => (∀ i n, (d.attempts i).clock n = at_) ∧ d.rejectAt = at_ ∧ d.noopAt = at_
  | _ => True

/-- Nothing fails, and the clock stands still. -/
def Still (as : List Action) : Prop := ∀ a ∈ as, a.FaultFree ∧ Clocked ⟨0⟩ a

theorem Still.append {as bs} (first : Still as) (rest : Still bs) : Still (as ++ bs) := by
  intro a member
  rcases List.mem_append.mp member with member | member
  · exact first a member
  · exact rest a member

theorem appends_still (commands : List Command) : Still (appends commands) := by
  intro a member
  obtain ⟨c, -, rfl⟩ := List.mem_map.mp member
  exact ⟨trivial, rfl, rfl⟩

theorem starts_still (length : Nat) : Still (starts length) := by
  intro a member
  refine ⟨starts_calm length a member, ?_⟩
  rcases List.mem_cons.mp member with rfl | member
  · trivial
  · rw [List.eq_of_mem_replicate member]
    trivial

theorem drives_still {d} (fine : d.FaultFree) (reads : Clocked ⟨0⟩ (.dispatch d)) (entries : Nat) :
    Still (drives d entries) := by
  intro a member
  obtain ⟨group, repeated, member⟩ := List.mem_flatten.mp member
  rw [List.eq_of_mem_replicate repeated] at member
  simp only [List.mem_cons, List.not_mem_nil, or_false] at member
  rcases member with rfl | rfl | rfl
  · exact ⟨fine, reads⟩
  · exact ⟨trivial, trivial⟩
  · exact ⟨trivial, trivial⟩

theorem frozen_still (entries : Nat) : Still (drives frozen entries) :=
  drives_still ⟨fun _ => ⟨fun _ => rfl, rfl⟩, rfl⟩ ⟨fun _ _ => rfl, rfl, rfl⟩ entries

end Spica.Scenario
