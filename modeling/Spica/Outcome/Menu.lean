import Spica.Outcome.Shape

/-! # What an answer can hold

Which commands the answer to a command can leave behind, and which events it can hold, by the
constructors of either. Whatever is not on the menu need not be looked for in the answer.
-/

namespace Spica

variable {parent child : RawObjectRef} {thread : ObjectRef .thread} {onRunning : List Command}
    {activity : ObjectRef .activity} {r : Except ExecutionError Unit} {a : ActivateState}
    {ev : Event}

/-- The command goes on with an owner that is told of a settled child: one that owns tasks, one
    that owns threads, or an execution. -/
def Command.tells : Option ObjectKind → Command → Bool
  | some .task, .completeState _ => true
  | some .thread, .completeState _ | some .thread, .terminateState _
  | some .thread, .spawnThread _ => true
  | none, .completeExecution _ | none, .terminateExecution _ => true
  | _, .continueComplete _ | _, .continueTerminate _ => true
  | _, _ => false

/-- The command goes on with a thread whose activity has settled. -/
def Command.tellsThread : Command → Bool
  | .completeThread _ | .terminateThread _ | .continueComplete _ | .continueTerminate _ => true
  | _ => false

/-- What the owner of a settled thread goes on with. -/
def Command.tellsOwner (c : Command) : Bool := c.tells (some .thread) || c.tells none

/-- What the completing step of a state leaves behind. -/
def Command.concludes : Command → Bool
  | .activateState _ | .terminateState _ => true
  | c => c.tellsThread

/-- What the terminating step of a state leaves behind. -/
def Command.winds : Command → Bool
  | .cancelTask _ => true
  | c => c.tellsThread

/-- The answer to the first command can hold the second. -/
def Command.mayAsk : Command → Command → Bool
  | .createExecution _, .activateState _ | .spawnThread _, .activateState _ => true
  | .terminateExecution _, .terminateThread _ => true
  | .completeThread _, c | .terminateThread _, c => c.tellsOwner
  | .activateState _, .activateTask _ | .activateState _, .spawnThread _
  | .activateState _, .completeState _ | .activateState _, .terminateState _ => true
  | .completeState _, c => c.concludes
  | .terminateState _, c => c.concludes || c.winds
  | .completeTask _, c | .cancelTask _, c => c.tells (some .task)
  | .failTask _, .terminateState _ => true
  | .triggerDeadline (.execution _) _, c => c.tells none
  | .triggerDeadline (.activity _) _, .terminateState _ => true
  | .triggerDeadline (.activity _) _, c => c.tells (some .task)
  | .continueComplete _, c => c.concludes || c.winds || c.tellsOwner
  | .continueTerminate _, c => c.winds || c.tellsOwner
  | _, _ => false

/-- The event ends an activity, or assigns on its behalf. -/
def Event.concludes : Event → Bool
  | .variablesAssigned _ _ | .stateCompleted _ | .stateTransitioned _ _ | .stateTerminating _
  | .stateTerminated _ => true
  | _ => false

/-- The answer to the command can hold the event. -/
def Command.mayTell : Command → Event → Bool
  | .createFlow _, .flowCreated _ _ | .createFlow _, .flowVersionCreated _ _ => true
  | .createExecution _, .executionCreated _ _ | .createExecution _, .threadCreated _ => true
  | .spawnThread _, .threadCreated _ => true
  | .completeExecution _, .executionCompleting _ | .completeExecution _, .executionCompleted _ => true
  | .terminateExecution _, .executionTerminating _
  | .terminateExecution _, .executionTerminated _ => true
  | .completeThread _, .threadCompleting _ | .completeThread _, .threadCompleted _ => true
  | .terminateThread _, .threadTerminating _ | .terminateThread _, .threadTerminated _ => true
  | .activateState _, .stateActivating _ | .activateState _, .stateActivated _ => true
  | .completeState _, .stateCompleting _ => true
  | .completeState _, ev | .terminateState _, ev => ev.concludes
  | .activateTask _, .taskActivated _ | .claimTasks _, .tasksClaimed _ _ => true
  | .completeTask _, .taskCompleted _ _ _ | .failTask _, .taskFailed _ _ => true
  | .cancelTask _, .taskCancelled _ => true
  | .continueComplete _, .threadCompleted _ | .continueComplete _, .executionCompleted _ => true
  | .continueComplete _, ev => ev.concludes
  | .continueTerminate _, .stateTerminated _ | .continueTerminate _, .threadTerminated _
  | .continueTerminate _, .executionTerminated _ => true
  | _, _ => false

section menu

variable {env : Env} {M : Machines} {p q : Projection} {c : Command} {ds : List Deed}
  {cs : List Command} {act : Activity} {d : State} {ending : Ending}

theorem Sweeps.menu {kinds} (sweeps : Sweeps p parent kinds cs) (there : c ∈ cs) :
    ∃ child ∈ p.getChildren parent, child.kind ∈ kinds ∧ c = cancelOf child := by
  obtain ⟨children, perm, kind, rfl⟩ := sweeps
  obtain ⟨child, mem, rfl⟩ := List.mem_map.mp there
  exact ⟨child, perm.mem_iff.mp mem, kind child mem, rfl⟩

theorem Picks.menu {kind} (picks : Picks p parent kind cs) (there : c ∈ cs) :
    ∃ child ∈ p.getChildren parent, child.kind = kind ∧ c = cancelOf child := by
  obtain ⟨children, perm, rfl⟩ := picks
  obtain ⟨child, mem, rfl⟩ := List.mem_map.mp there
  obtain ⟨mem, same⟩ := List.mem_filter.mp mem
  exact ⟨child, perm.mem_iff.mp mem, by simpa using same, rfl⟩

theorem threadTold_menu (told : q.threadTold thread onRunning = some cs)
    (running : ∀ c ∈ onRunning, c.tellsThread) (there : c ∈ cs) : c.tellsThread := by
  unfold Projection.threadTold at told
  split at told <;> cases told
  · exact running c there
  all_goals
    cases List.mem_singleton.mp there
    rfl

theorem threadTermination_menu (there : c ∈ q.threadTermination thread activity) :
    c.tellsThread := by
  unfold Projection.threadTermination at there
  split at there
  · cases there
  · cases List.mem_singleton.mp there
    rfl

theorem executionTold_menu {execution} (told : q.executionTold execution onRunning = some cs)
    (running : ∀ c ∈ onRunning, c.tells none) (there : c ∈ cs) : c.tells none := by
  unfold Projection.executionTold at told
  split at told <;> cases told
  · exact running c there
  · cases List.mem_singleton.mp there
    rfl

theorem parallelReaction_menu (there : c ∈ q.parallelReaction activity act) :
    c.tells (some .thread) := by
  unfold Projection.parallelReaction at there
  split at there
  · split at there
    · cases List.mem_singleton.mp there
      rfl
    · split at there
      · cases there
      · split at there
        all_goals
          cases List.mem_singleton.mp there
          rfl
  · cases there

theorem mapReaction_menu {s} (reacts : q.mapReaction env s activity act child = some cs)
    (there : c ∈ cs) : c.tells (some .thread) := by
  unfold Projection.mapReaction at reacts
  split at reacts
  · dsimp only at reacts
    split at reacts
    · cases reacts
      cases there
    · split at reacts
      · cases reacts
        cases List.mem_singleton.mp there
        rfl
      · split at reacts
        · cases reacts
          cases List.mem_singleton.mp there
          rfl
        · obtain ⟨remaining, -, rfl⟩ := Option.map_eq_some_iff.mp reacts
          obtain ⟨index, -, rfl⟩ := List.mem_map.mp there
          rfl
  · cases reacts
    cases there

theorem ActivityTold.menu {thread} (told : ActivityTold env M q activity act thread d child cs)
    (there : c ∈ cs) : c.tells (some child.kind) := by
  have reaction := told.reaction
  have kind := told.kind
  cases status : act.status with
  | running =>
    rw [status] at reaction
    rw [← kind]
    cases d with
    | task s =>
      obtain rfl := reaction
      cases List.mem_singleton.mp there
      rfl
    | parallel s =>
      obtain rfl := reaction
      exact parallelReaction_menu there
    | map s => exact mapReaction_menu reaction there
    | _ => exact reaction.elim
  | completing | terminating =>
    rw [status] at reaction
    obtain rfl := reaction
    cases List.mem_singleton.mp there
    cases child.kind <;> rfl
  | completed | terminated =>
    rw [status] at reaction
    obtain rfl := reaction
    cases there

theorem Command.tellsOwner_of_thread (tells : c.tells (some .thread)) : c.tellsOwner := by
  simp [Command.tellsOwner, tells]

theorem Command.tellsOwner_of_none (tells : c.tells none) : c.tellsOwner := by
  simp [Command.tellsOwner, tells]

theorem OwnerTold.execution {r child} (told : OwnerTold env M q (.execution r) child cs)
    (there : c ∈ cs) : c.tells none := by
  rcases told with told | told <;> refine executionTold_menu told (fun c there => ?_) there
  · cases List.mem_singleton.mp there
    rfl
  · unfold Projection.executionTermination at there
    split at there
    · cases there
    · cases List.mem_singleton.mp there
      rfl

theorem OwnerTold.menu {owner child} (told : OwnerTold env M q owner child cs) (there : c ∈ cs) :
    c.tellsOwner := by
  cases owner with
  | execution r => exact Command.tellsOwner_of_none (told.execution there)
  | activity r =>
    obtain ⟨act, thread, d, told⟩ := told.activity
    exact Command.tellsOwner_of_thread (told.menu there)

theorem Command.concludes_of_thread (tells : c.tellsThread) : c.concludes := by
  cases c <;> first | rfl | cases tells

theorem Ending.Emits.menu (emits : ending.Emits env act q ds) (there : .command c ∈ ds) :
    c.concludes := by
  cases emits with
  | fails =>
    cases List.mem_singleton.mp there
    rfl
  | moves | ends =>
    obtain rfl : c = _ := by simpa using there
    rfl
  | @succeeds _ _ cs _ told =>
    have there : c ∈ cs := by simpa using there
    refine Command.concludes_of_thread (threadTold_menu told (fun c there => ?_) there)
    cases List.mem_singleton.mp there
    rfl
  | @breaks _ _ _ cs _ _ told =>
    have there : c ∈ cs := by simpa using there
    exact Command.concludes_of_thread
      (threadTold_menu told (fun _ => threadTermination_menu) there)

theorem Command.winds_of_thread (tells : c.tellsThread) : c.winds := by
  cases c <;> first | rfl | cases tells

theorem Closes.menu (closes : Closes env act q ds) (there : .command c ∈ ds) : c.winds := by
  cases closes with
  | @intro _ cs _ told =>
    have there : c ∈ cs := by simpa using there
    exact Command.winds_of_thread (threadTold_menu told (fun _ => threadTermination_menu) there)

theorem Terminates.menu (terminates : Terminates env d act p q ds) (there : .command c ∈ ds) :
    c.winds := by
  have cancelled {kind : ObjectKind} {cs : List Command} (leaf : kind = .task ∨ kind = .thread)
      (picks : Picks p act.objectRef.raw kind cs) (there : c ∈ cs) : c.winds := by
    obtain ⟨child, -, rfl, rfl⟩ := picks.menu there
    rcases leaf with is | is <;> simp [cancelOf, is, Command.winds, Command.tellsThread]
  unfold Terminates at terminates
  cases d with
  | task s =>
    obtain ⟨cs, picks, ⟨-, closes⟩ | ⟨-, rfl⟩⟩ := terminates
    · exact closes.menu there
    · exact cancelled (.inl rfl) picks (by simpa using there)
  | parallel | map =>
    rcases terminates with ⟨-, closes⟩ | ⟨-, cs, picks, rfl⟩
    · exact closes.menu there
    · exact cancelled (.inr rfl) picks (by simpa using there)
  | _ => exact Closes.menu terminates there

theorem Launches.menu {vars states seq} (launches : Launches env d act vars states seq ds r)
    (there : .command c ∈ ds) : (Command.activateState a).mayAsk c := by
  unfold Launches at launches
  cases d with
  | task s =>
    obtain ⟨at_, uid, resolved, -, -, rfl⟩ := launches
    obtain rfl : c = _ := by simpa using there
    rfl
  | parallel s =>
    obtain ⟨-, rfl⟩ := launches
    split at there
    · cases List.mem_singleton.mp there
      rfl
    · obtain ⟨b, -, same⟩ := List.mem_map.mp there
      cases same
      rfl
  | map s =>
    obtain ⟨-, launched⟩ := launches
    split at launched
    · subst launched
      rcases List.mem_append.mp there with spawned | empty
      · obtain ⟨c', spawned, same⟩ := List.mem_map.mp spawned
        cases same
        obtain ⟨index, -, rfl⟩ := List.mem_map.mp spawned
        rfl
      · split at empty
        · cases List.mem_singleton.mp empty
          rfl
        · cases empty
    · subst launched
      cases there
  | _ =>
    obtain ⟨-, rfl⟩ := launches
    cases there

theorem afterLaunch_menu {v} (there : .command c ∈ afterLaunch d activity v r) :
    (Command.activateState a).mayAsk c := by
  cases r with
  | error e =>
    cases List.mem_singleton.mp there
    rfl
  | ok =>
    unfold afterLaunch at there
    dsimp only at there
    split at there
    · cases List.mem_singleton.mp there
      rfl
    · cases there

theorem swept_winds (kind : child.kind = .thread ∨ child.kind = .task) :
    (cancelOf child).winds := by
  rcases kind with is | is <;> simp [cancelOf, is, Command.winds, Command.tellsThread]

/-- Every command an answer leaves behind is one its command can ask for. -/
theorem Outcome.menu (outcome : Outcome env M p q c ds) {c'} (there : .command c' ∈ ds) :
    c.mayAsk c' := by
  cases outcome with
  | flowKnown | flowCreated | executionCompleted | executionTerminated | taskActivated
  | tasksClaimed | executionClosedCompleted | executionClosedTerminated => simp at there
  | executionCreated | threadSpawned | stateRefused =>
    obtain rfl : c' = _ := by simpa using there
    rfl
  | @executionSwept _ _ _ _ cs _ _ _ _ sweeps =>
    obtain ⟨child, -, kind, rfl⟩ := sweeps.menu (by simpa using there : c' ∈ cs)
    simp [cancelOf, List.mem_singleton.mp kind, Command.mayAsk]
  | @threadSwept _ _ _ _ cs _ _ _ sweeps =>
    obtain ⟨child, -, kind, rfl⟩ := sweeps.menu (by simpa using there : c' ∈ cs)
    simp [cancelOf, List.mem_singleton.mp kind, Command.mayAsk, Command.tellsOwner,
      Command.tells]
  | @threadCompleted _ _ _ _ _ _ cs _ _ _ _ _ told =>
    exact OwnerTold.menu (.inl told) (by simpa using there : c' ∈ cs)
  | @threadTerminated _ _ _ _ _ _ cs _ _ _ _ told =>
    exact OwnerTold.menu (.inr told) (by simpa using there : c' ∈ cs)
  | stateEntered _ _ _ _ _ _ launches =>
    simp only [List.cons_append, List.mem_cons, reduceCtorEq, false_or, List.mem_append] at there
    rcases there with launched | later
    · exact launches.menu launched
    · exact afterLaunch_menu later
  | stateCompleted _ _ _ _ _ _ concludes emits =>
    obtain ⟨states, assign, r, assigns⟩ := concludes.assigns
    simp only [List.cons_append, List.mem_cons, reduceCtorEq, false_or, List.mem_append,
      assigns.command] at there
    exact emits.menu there
  | stateCaught _ _ _ _ _ _ projects cancels =>
    obtain ⟨r, assigns⟩ := projects.assigns
    simp only [List.mem_append, List.mem_cons, List.mem_map, Deed.command.injEq,
      assigns.command, reduceCtorEq, List.not_mem_nil, false_or, or_false,
      exists_eq_right] at there
    rcases there with cancelled | rfl
    · obtain ⟨child, -, kind, rfl⟩ := cancels.menu cancelled
      simp [Command.mayAsk, swept_winds (.inr kind)]
    · rfl
  | catchFailed _ _ _ _ _ _ projects =>
    obtain ⟨r, assigns⟩ := projects.assigns
    obtain rfl : c' = _ := by simpa [assigns.command] using there
    rfl
  | stateTerminated _ _ _ _ _ _ terminates =>
    have winds := terminates.menu (by simpa using there)
    simp [Command.mayAsk, winds]
  | @taskCompleted _ _ _ _ _ _ _ cs _ _ told => exact told.menu (by simpa using there : c' ∈ cs)
  | @taskCancelled _ _ _ _ _ _ _ cs _ _ told => exact told.menu (by simpa using there : c' ∈ cs)
  | taskFailed =>
    simp only [List.mem_cons, reduceCtorEq, false_or] at there
    split at there
    · cases List.mem_singleton.mp there
      rfl
    · cases there
  | @executionTimedOut _ _ exec _ _ reaction =>
    cases List.mem_singleton.mp there
    cases status : exec.status <;> rw [status] at reaction
    case completed | terminated => exact reaction.elim
    all_goals
      obtain rfl := reaction
      rfl
  | @activityTimedOut _ _ act _ _ reaction =>
    cases List.mem_singleton.mp there
    cases status : act.status <;> rw [status] at reaction
    case completed | terminated => exact reaction.elim
    case running =>
      obtain ⟨thread, d, -, -, reaction⟩ := reaction
      cases d with
      | wait =>
        obtain rfl := reaction
        rfl
      | task =>
        obtain ⟨-, rfl⟩ := reaction
        rfl
      | _ => exact reaction.elim
    all_goals
      obtain rfl := reaction
      rfl
  | @activitySwept _ _ _ cs _ _ phase _ sweeps =>
    obtain ⟨child, -, kind, rfl⟩ := sweeps.menu (by simpa using there : c' ∈ cs)
    have winds := swept_winds (by simpa using kind)
    rcases phase with ⟨rfl, -⟩ | ⟨rfl, -⟩ <;> simp [Command.mayAsk, winds]
  | @threadSweptAgain _ _ _ cs _ _ phase _ sweeps =>
    obtain ⟨child, -, kind, rfl⟩ := sweeps.menu (by simpa using there : c' ∈ cs)
    have kind := List.mem_singleton.mp kind
    rcases phase with ⟨rfl, -⟩ | ⟨rfl, -⟩ <;>
      simp [cancelOf, kind, Command.mayAsk, Command.concludes, Command.tellsOwner, Command.tells]
  | @executionSweptAgain _ _ _ cs _ _ _ _ sweeps =>
    obtain ⟨child, -, kind, rfl⟩ := sweeps.menu (by simpa using there : c' ∈ cs)
    have winds := swept_winds (.inl (List.mem_singleton.mp kind))
    simp [Command.mayAsk, winds]
  | activityConcluded _ _ _ _ _ _ _ concludes emits =>
    obtain ⟨states, assign, r, assigns⟩ := concludes.assigns
    simp only [List.mem_append, assigns.command, false_or] at there
    have ends := emits.menu there
    simp [Command.mayAsk, ends]
  | @threadClosedCompleted _ _ _ _ cs _ _ _ _ _ told =>
    have there : c' ∈ cs := by simpa using there
    rcases told with ⟨-, told⟩ | ⟨-, rfl⟩
    · have tells := OwnerTold.menu (.inl told) there
      simp [Command.mayAsk, tells]
    · cases there
  | @threadClosedTerminated _ _ _ _ _ cs _ _ _ _ _ told =>
    have there : c' ∈ cs := by simpa using there
    rcases told with ⟨-, told⟩ | ⟨-, rfl⟩
    · have tells := OwnerTold.menu (.inr told) there
      simp [Command.mayAsk, tells]
    · cases there
  | activityClosedTerminated _ _ _ _ _ _ _ terminates =>
    have winds := terminates.menu there
    simp [Command.mayAsk, winds]

theorem Ending.Emits.event_menu (emits : ending.Emits env act q ds) (there : .event ev ∈ ds) :
    ev.concludes := by
  cases emits with
  | fails => simp at there
  | moves | breaks =>
    rcases (by simpa using there : ev = _ ∨ ev = _) with rfl | rfl <;> rfl
  | ends | succeeds =>
    obtain rfl : ev = _ := by simpa using there
    rfl

theorem Terminates.event_menu (terminates : Terminates env d act p q ds) (there : .event ev ∈ ds) :
    ∃ a, ev = .stateTerminated a := by
  have closing {ds : List Deed} (closes : Closes env act q ds) (there : .event ev ∈ ds) :
      ∃ a, ev = .stateTerminated a := by
    cases closes with
    | intro => exact ⟨_, by simpa using there⟩
  unfold Terminates at terminates
  cases d with
  | task s =>
    obtain ⟨cs, -, ⟨-, closes⟩ | ⟨-, rfl⟩⟩ := terminates
    · exact closing closes there
    · simp at there
  | parallel | map =>
    rcases terminates with ⟨-, closes⟩ | ⟨-, cs, -, rfl⟩
    · exact closing closes there
    · simp at there
  | _ => exact closing terminates there

/-- Every event of an answer is one its command can lead to. -/
theorem Outcome.event_menu (outcome : Outcome env M p q c ds) (there : .event ev ∈ ds) :
    c.mayTell ev := by
  cases outcome with
  | flowKnown | executionTimedOut | activityTimedOut | activitySwept | threadSweptAgain
  | executionSweptAgain => simp at there
  | flowCreated | executionCreated | executionCompleted | executionTerminated =>
    rcases (by simpa using there : ev = _ ∨ ev = _) with rfl | rfl <;> rfl
  | threadSpawned | stateRefused | taskActivated | tasksClaimed | executionClosedCompleted
  | executionClosedTerminated =>
    obtain rfl : ev = _ := by simpa using there
    rfl
  | threadCompleted | threadTerminated =>
    rcases (by simpa using there : ev = _ ∨ ev = _) with rfl | rfl <;> rfl
  | executionSwept | threadSwept | taskCompleted | taskCancelled | threadClosedCompleted
  | threadClosedTerminated =>
    obtain rfl : ev = _ := by simpa using there
    rfl
  | @stateEntered _ _ d _ _ _ _ act _ _ v _ r _ _ _ _ _ _ launches =>
    have quiet : .event ev ∉ afterLaunch d act.objectRef v r := afterLaunch_command
    rcases (by simpa [launches.command, quiet] using there : ev = _ ∨ ev = _) with rfl | rfl <;> rfl
  | stateCompleted _ _ _ _ _ _ concludes emits =>
    obtain ⟨states, assign, r, assigns⟩ := concludes.assigns
    rcases List.mem_cons.mp there with first | there
    · cases first
      rfl
    have told : ev.concludes := by
      rcases List.mem_append.mp there with assigned | ended
      · obtain ⟨vars, same⟩ := assigns.event assigned
        cases same
        rfl
      · exact emits.event_menu ended
    cases ev <;> first | rfl | cases told
  | stateCaught _ _ _ _ _ _ projects =>
    obtain ⟨r, assigns⟩ := projects.assigns
    simp only [List.mem_append, List.mem_cons, Deed.event.injEq, List.mem_map, reduceCtorEq,
      and_false, exists_false, List.not_mem_nil, or_false] at there
    rcases there with assigned | rfl | rfl
    · obtain ⟨vars, same⟩ := assigns.event assigned
      cases same
      rfl
    · rfl
    · rfl
  | catchFailed _ _ _ _ _ _ projects =>
    obtain ⟨r, assigns⟩ := projects.assigns
    rcases List.mem_append.mp there with assigned | failed
    · obtain ⟨vars, same⟩ := assigns.event assigned
      cases same
      rfl
    · simp at failed
  | stateTerminated _ _ _ _ _ _ terminates =>
    rcases List.mem_cons.mp there with first | there
    · cases first
      rfl
    · obtain ⟨a, rfl⟩ := terminates.event_menu there
      rfl
  | taskFailed =>
    rcases List.mem_cons.mp there with first | there
    · cases first
      rfl
    · split at there <;> simp at there
  | activityConcluded _ _ _ _ _ _ _ concludes emits =>
    obtain ⟨states, assign, r, assigns⟩ := concludes.assigns
    have told : ev.concludes := by
      rcases List.mem_append.mp there with assigned | ended
      · obtain ⟨vars, same⟩ := assigns.event assigned
        cases same
        rfl
      · exact emits.event_menu ended
    cases ev <;> first | rfl | cases told
  | activityClosedTerminated _ _ _ _ _ _ _ terminates =>
    obtain ⟨a, rfl⟩ := terminates.event_menu there
    rfl

end menu

end Spica
