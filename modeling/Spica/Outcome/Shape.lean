import Spica.Outcome.Cases

/-! # The shape of an answer

What the parts of an answer can hold: which events and which commands are among their deeds.
-/

namespace Spica

variable {env : Env} {M : Machines} {p q : Projection} {c : Command} {ds as : List Deed}
  {act : Activity} {d : State} {vars : Variables} {ending : Ending}
variable {owner : ObjectRef .thread} {states v : Json} {assign : Option AssignObject}
    {r : Except ExecutionError Variables} {at_ : Timestamp} {prepared : Activity} {e : Event}

theorem Projects.assigns {output fallback r}
    (projects : Projects env owner states vars assign output fallback r as) :
    ∃ r, Assigns env owner states vars assign r as := by
  cases projects with
  | unassigned assigns => exact ⟨_, assigns⟩
  | assigned assigns => exact ⟨_, assigns⟩

/-- All a state does before it ends is to assign, in the scope of its thread. -/
theorem Concludes.assigns (concludes : Concludes env d act vars as ending) :
    ∃ states assign r, Assigns env act.metadata.owner states vars assign r as := by
  have finishes {states : Json} {assign : Option AssignObject} {output : Option Json}
      {fallback : Json} {route : Json → Option Ending}
      (finishes : Finishes env act vars states assign output fallback route as ending) :
      ∃ states assign r, Assigns env act.metadata.owner states vars assign r as := by
    obtain ⟨r, projects, -⟩ := finishes
    obtain ⟨r', assigns⟩ := projects.assigns
    exact ⟨_, _, r', assigns⟩
  unfold Concludes at concludes
  cases d with
  | pass | wait | task | parallel | map => exact finishes concludes
  | choice s =>
    obtain ⟨r, -, concludes⟩ := concludes
    cases r with
    | error e =>
      obtain ⟨rfl, -⟩ := concludes
      exact ⟨.null, none, _, .nothing⟩
    | ok chosen => exact finishes concludes
  | succeed | fail =>
    obtain ⟨rfl, -⟩ := concludes
    exact ⟨.null, none, _, .nothing⟩

theorem Assigns.event (assigns : Assigns env owner states vars assign r as) {x} (there : x ∈ as) :
    ∃ vars', x = .event (.variablesAssigned owner vars') := by
  cases assigns with
  | bound => exact ⟨_, List.mem_singleton.mp there⟩
  | _ => cases there

theorem Assigns.command (assigns : Assigns env owner states vars assign r as) {c} :
    .command c ∉ as := by
  intro there
  obtain ⟨vars', same⟩ := assigns.event there
  cases same

/-- Preparing the input of a task changes nothing of its activity. -/
theorem taskProcessInput_keeps {c}
    (input : Yields env ((handlerFor (.task c)).processInput act vars states at_)
      (.ok (v, prepared))) : prepared = act := by
  obtain ⟨cause, s, t, gives⟩ := input
  have gives : (taskProcessInput c act vars states at_).Runs (Handler.does env cause) s _ t := gives
  unfold taskProcessInput at gives
  cases arguments : c.arguments with
  | none =>
    rw [arguments] at gives
    obtain ⟨same, -⟩ := gives
    cases same
    rfl
  | some value =>
    rw [arguments] at gives
    obtain ⟨r, -, gives⟩ := (Reads.evalJson _ _ _).then gives
    cases r <;> obtain ⟨same, -⟩ := gives <;> cases same
    rfl

/-- Preparing the input changes nothing of an activity but its state, and keeps its shape. -/
theorem processInput_shape
    (input : Yields env ((handlerFor d).processInput act vars states at_) (.ok (v, prepared))) :
    ∃ state, prepared = { act with activityState := state } ∧
      (act.fansOut = d.fansOut → prepared.fansOut = d.fansOut) := by
  obtain ⟨cause, s, t, gives⟩ := input
  cases d with
  | pass | choice | succeed | fail =>
    obtain ⟨same, -⟩ := gives
    cases same
    exact ⟨_, rfl, id⟩
  | wait c =>
    have gives : (waitProcessInput c act vars states at_).Runs (Handler.does env cause) s _ t := gives
    unfold waitProcessInput at gives
    obtain ⟨r, -, gives⟩ := (Reads.resolveWaitDeadline _ _ _ _).then gives
    cases r <;> obtain ⟨same, -⟩ := gives <;> cases same
    exact ⟨_, rfl, fun _ => rfl⟩
  | task c =>
    obtain rfl := taskProcessInput_keeps ⟨cause, s, t, gives⟩
    exact ⟨_, rfl, id⟩
  | parallel c =>
    have gives : (parallelProcessInput c act vars states at_).Runs (Handler.does env cause) s _ t :=
      gives
    unfold parallelProcessInput at gives
    cases arguments : c.arguments with
    | none =>
      rw [arguments] at gives
      obtain ⟨same, -⟩ := gives
      cases same
      exact ⟨_, rfl, id⟩
    | some value =>
      rw [arguments] at gives
      obtain ⟨r, -, gives⟩ := (Reads.evalJson _ _ _).then gives
      cases r <;> obtain ⟨same, -⟩ := gives <;> cases same
      exact ⟨_, rfl, id⟩
  | map c =>
    have gives : (mapProcessInput c act vars states at_).Runs (Handler.does env cause) s _ t := gives
    unfold mapProcessInput at gives
    obtain ⟨r, -, gives⟩ := (Reads.resolveMapItems _ _ _ _).then gives
    cases r with
    | error e =>
      obtain ⟨same, -⟩ := gives
      cases same
    | ok items =>
      obtain ⟨r, -, gives⟩ := (Reads.resolveMaxConcurrency _ _ _).then gives
      cases r <;> obtain ⟨same, -⟩ := gives <;> cases same
      exact ⟨_, rfl, fun _ => rfl⟩

theorem processInput_keeps
    (input : Yields env ((handlerFor d).processInput act vars states at_) (.ok (v, prepared))) :
    ∃ state, prepared = { act with activityState := state } := by
  obtain ⟨state, same, -⟩ := processInput_shape input
  exact ⟨state, same⟩

/-- Entering a state emits no event of its own. -/
theorem Launches.command {seq r} (launches : Launches env d act vars states seq ds r) :
    .event e ∉ ds := by
  unfold Launches at launches
  cases d with
  | task s =>
    obtain ⟨at_, uid, resolved, -, -, rfl⟩ := launches
    simp
  | parallel s =>
    obtain ⟨-, rfl⟩ := launches
    split <;> simp
  | map s =>
    obtain ⟨-, launches⟩ := launches
    split at launches
    · rw [launches]
      split <;> simp
    · rw [launches]
      simp
  | _ =>
    obtain ⟨-, rfl⟩ := launches
    simp

theorem afterLaunch_command {activity r} : .event e ∉ afterLaunch d activity v r := by
  cases r with
  | error => simp [afterLaunch]
  | ok =>
    unfold afterLaunch
    split <;> simp

/-- The event is not about an activity that ends. -/
def Event.isEnding : Event → Bool
  | .stateCompleted _ | .stateTransitioned _ _ | .stateTerminating _ | .stateTerminated _ => true
  | _ => false

theorem Ending.Emits.event (emits : ending.Emits env act q ds) (there : .event e ∈ ds) :
    e.isEnding = true := by
  cases emits <;> simp at there
  case moves => rcases there with rfl | rfl <;> rfl
  case ends => rw [there]; rfl
  case succeeds => rw [there]; rfl
  case breaks => rcases there with rfl | rfl <;> rfl

theorem Closes.event (closes : Closes env act q ds) (there : .event e ∈ ds) :
    e.isEnding = true := by
  cases closes
  simp at there
  rw [there]
  rfl

theorem Terminates.event (terminates : Terminates env d act p q ds) (there : .event e ∈ ds) :
    e.isEnding = true := by
  unfold Terminates at terminates
  cases d with
  | task s =>
    obtain ⟨cs, -, ⟨-, closes⟩ | ⟨-, rfl⟩⟩ := terminates
    · exact closes.event there
    · simp at there
  | parallel | map =>
    rcases terminates with ⟨-, closes⟩ | ⟨-, cs, -, rfl⟩
    · exact closes.event there
    · simp at there
  | _ => exact Closes.event terminates there

/-- The events that bring a flow or an execution into being. -/
def Event.founds : Event → Bool
  | .flowCreated _ _ | .flowVersionCreated _ _ | .executionCreated _ _ => true
  | _ => false

def Command.founds : Command → Bool
  | .createFlow _ | .createExecution _ => true
  | _ => false

theorem Event.founds_of_ending (ending : e.isEnding = true) : e.founds = false := by
  cases e <;> first | rfl | cases ending

theorem Assigns.founds (assigns : Assigns env owner states vars assign r as)
    (there : .event e ∈ as) : e.founds = false := by
  obtain ⟨vars', same⟩ := assigns.event there
  cases same
  rfl

/-- Only the two creating commands create. -/
theorem Outcome.founds (outcome : Outcome env M p q c ds) (other : c.founds = false)
    (there : .event e ∈ ds) : e.founds = false := by
  cases outcome with
  | flowKnown | flowCreated | executionCreated => cases other
  | executionTimedOut | activityTimedOut | activitySwept | threadSweptAgain
  | executionSweptAgain => simp at there
  | threadSpawned | executionSwept | threadSwept | stateRefused | taskActivated | tasksClaimed
  | taskCompleted | taskCancelled | threadClosedCompleted | executionClosedCompleted
  | threadClosedTerminated | executionClosedTerminated =>
    simp at there
    rw [there]
    rfl
  | executionCompleted | executionTerminated | threadCompleted | threadTerminated =>
    simp at there
    rcases there with rfl | rfl <;> rfl
  | taskFailed =>
    split at there
    all_goals
      simp at there
      rw [there]
      rfl
  | stateEntered _ _ _ _ _ _ launches =>
    simp [launches.command, afterLaunch_command] at there
    rcases there with rfl | rfl <;> rfl
  | stateCompleted _ _ _ _ _ _ concludes emits =>
    obtain ⟨states, assign, r, assigns⟩ := concludes.assigns
    rcases List.mem_cons.mp there with first | there
    · cases first
      rfl
    rcases List.mem_append.mp there with assigned | ended
    · exact assigns.founds assigned
    · exact Event.founds_of_ending (emits.event ended)
  | activityConcluded _ _ _ _ _ _ _ concludes emits =>
    obtain ⟨states, assign, r, assigns⟩ := concludes.assigns
    rcases List.mem_append.mp there with assigned | ended
    · exact assigns.founds assigned
    · exact Event.founds_of_ending (emits.event ended)
  | stateCaught _ _ _ _ _ _ projects =>
    obtain ⟨r, assigns⟩ := projects.assigns
    simp at there
    rcases there with assigned | rfl | rfl
    · exact assigns.founds assigned
    all_goals rfl
  | catchFailed _ _ _ _ _ _ projects =>
    obtain ⟨r, assigns⟩ := projects.assigns
    simp at there
    exact assigns.founds there
  | stateTerminated _ _ _ _ _ _ terminates =>
    rcases List.mem_cons.mp there with first | there
    · cases first
      rfl
    · exact Event.founds_of_ending (terminates.event there)
  | activityClosedTerminated _ _ _ _ _ _ _ terminates =>
    exact Event.founds_of_ending (terminates.event there)

end Spica
