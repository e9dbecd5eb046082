import Spica.Within

/-! # Follow-ups stay within the tree

The commands an answer leaves behind are sent to the object the answered one was sent to, to what
it owns or, once it has settled, to its owner, so they stay within its tree. Those that give birth
name an owner that is there. At most one of them asks for a task, under a name that was minted for
it.
-/

namespace Spica

open Projection

variable {c' : Command} {parent child : RawObjectRef} {s : MapState} {vars : Variables}
    {states v : Json} {seq next cause : Nat} {r : Except ExecutionError Unit} {es : List Entry}

section follow

variable {env : Env} {M : Machines} {p q : Projection} {c : Command} {k : ObjectKind × ObjectName}
  {ds : List Deed} {cs onRunning : List Command} {act : Activity} {d : State} {ending : Ending}
  {κ : Census} {thread : ObjectRef .thread} {execution : ObjectRef .execution}
  {activity : ObjectRef .activity} {R : ObjectKind × ObjectName → Prop} {F : Prop}

/-- The event takes its object away from the owner. -/
def Event.parts : Event → Bool
  | .stateCompleted _ | .stateTerminated _ | .threadCompleted _ | .threadTerminated _
  | .taskCompleted _ _ _ | .taskCancelled _ => true
  | .taskFailed t _ => t.status != .pending
  | _ => false

/-- Where the answer to a command of the object `k` may go: to the object itself, to what it owns,
    and to its owner if the answer takes it away from there. -/
structure Reaches (κ : Census) (k : ObjectKind × ObjectName) (ds : List Deed)
    (R : ObjectKind × ObjectName → Prop) : Prop where
  self : R k
  below : ∀ j, Kin.Owns RawObjectRef.key κ k j → R j
  above : ∀ j, Kin.Owns RawObjectRef.key κ j k → (∃ e, .event e ∈ ds ∧ e.parts = true) → R j

/-- A follow-up to an object it may be sent to; the request for a task is told apart. -/
structure Command.Goes (κ : Census) (R : ObjectKind × ObjectName → Prop) (c : Command) : Prop where
  target : ∃ j, c.target = some j ∧ R j
  founded : ∀ next, c.Founded κ next
  other : c.activates = none

/-- The same, of a command that may have been sent without an owner unless `F`. -/
structure Command.Stays (κ : Census) (R : ObjectKind × ObjectName → Prop) (F : Prop) (c : Command) :
    Prop where
  target : ∃ j, c.target = some j ∧ R j
  founded : F → ∀ next, c.Founded κ next
  other : c.activates = none

theorem Command.Goes.stays (goes : c.Goes κ R) : c.Stays κ R F :=
  ⟨goes.target, fun _ => goes.founded, goes.other⟩

/-- All of these are relatives. -/
theorem Projection.Family.reaches_kindred (family : q.Family) :
    Reaches q.kin k ds (q.kin.Kindred k) where
  self := .refl
  below := by
    rintro j ⟨m, i, found, owner, rfl⟩
    exact family.owned_kindred .refl found owner
  above := by
    rintro j ⟨m, i, found, owner, rfl⟩ -
    exact family.owner_kindred found owner

theorem Reaches.mono {ds'} (reaches : Reaches κ k ds R)
    (part : ∀ e, .event e ∈ ds' → .event e ∈ ds) : Reaches κ k ds' R where
  self := reaches.self
  below := reaches.below
  above j owns := by
    rintro ⟨e, there, parts⟩
    exact reaches.above j owns ⟨e, part e there, parts⟩

theorem command_mem_cons : .command c ∈ .command c' :: ds ↔ c = c' ∨ .command c ∈ ds := by simp

theorem command_mem_event {e} : .command c ∈ .event e :: ds ↔ .command c ∈ ds := by simp

theorem command_mem_commands : Deed.command c ∈ cs.map Deed.command ↔ c ∈ cs := by simp

/-- Most commands only have to be sent to the right object. -/
theorem Command.Goes.to {j} (near : R j) (target : c.target = some j) (old : c.bears = false) :
    c.Goes κ R := by
  refine ⟨⟨j, target, near⟩, fun next => ?_, ?_⟩
  all_goals cases c <;> first | exact trivial | rfl | cases old

/-- What an edge leads to is owned. -/
theorem Projection.Family.child_owned (family : p.Family) (grows : Kin.Grows p.kin κ)
    (edge : child ∈ p.getChildren parent) : Kin.Owns RawObjectRef.key κ parent.key child.key := by
  obtain ⟨m, found, -, owner⟩ := family.edges _ _ (mem_getChildren.mp edge)
  exact ⟨m, parent, grows _ _ found, owner, rfl⟩

theorem cancelOf_goes (near : R child.key)
    (kind : child.kind = .thread ∨ child.kind = .activity ∨ child.kind = .task) :
    (cancelOf child).Goes κ R := by
  obtain ⟨_, name, uid⟩ := child
  rcases kind with rfl | rfl | rfl <;> exact .to near rfl rfl

theorem Sweeps.goes {kinds} (family : p.Family) (grows : Kin.Grows p.kin κ)
    (sweeps : Sweeps p parent kinds cs)
    (owned : ∀ kind ∈ kinds, kind = .thread ∨ kind = .activity ∨ kind = .task)
    (reaches : Reaches κ parent.key ds R) : ∀ c ∈ cs, c.Goes κ R := by
  obtain ⟨children, perm, kind, rfl⟩ := sweeps
  intro c there
  obtain ⟨child, mem, rfl⟩ := List.mem_map.mp there
  have near := reaches.below _ (family.child_owned grows (perm.mem_iff.mp mem))
  exact cancelOf_goes near (owned _ (kind child mem))

theorem Picks.goes {kind} (family : p.Family) (grows : Kin.Grows p.kin κ)
    (picks : Picks p parent kind cs) (owned : kind = .thread ∨ kind = .activity ∨ kind = .task)
    (reaches : Reaches κ parent.key ds R) : ∀ c ∈ cs, c.Goes κ R := by
  obtain ⟨children, perm, rfl⟩ := picks
  intro c there
  obtain ⟨child, mem, rfl⟩ := List.mem_map.mp there
  obtain ⟨mem, same⟩ := List.mem_filter.mp mem
  have same : child.kind = kind := by simpa using same
  have near := reaches.below _ (family.child_owned grows (perm.mem_iff.mp mem))
  exact cancelOf_goes near (same ▸ owned)

theorem threadTold_goes (near : R thread.raw.key)
    (told : q.threadTold thread onRunning = some cs) (running : ∀ c ∈ onRunning, c.Goes κ R) :
    ∀ c ∈ cs, c.Goes κ R := by
  unfold Projection.threadTold at told
  split at told <;> cases told
  · exact running
  all_goals
    intro c there
    cases List.mem_singleton.mp there
    exact .to near rfl rfl

theorem threadCompletion_goes (near : R thread.raw.key) :
    ∀ c ∈ q.threadCompletion thread activity, c.Goes κ R := by
  intro c there
  cases List.mem_singleton.mp there
  exact .to near rfl rfl

theorem threadTermination_goes (near : R thread.raw.key) :
    ∀ c ∈ q.threadTermination thread activity, c.Goes κ R := by
  intro c there
  unfold Projection.threadTermination at there
  split at there
  · cases there
  · cases List.mem_singleton.mp there
    exact .to near rfl rfl

theorem executionTold_goes (near : R execution.raw.key)
    (told : q.executionTold execution onRunning = some cs)
    (running : ∀ c ∈ onRunning, c.Goes κ R) : ∀ c ∈ cs, c.Goes κ R := by
  unfold Projection.executionTold at told
  split at told <;> cases told
  · exact running
  · intro c there
    cases List.mem_singleton.mp there
    exact .to near rfl rfl

theorem executionCompletion_goes (near : R execution.raw.key) :
    ∀ c ∈ q.executionCompletion execution thread, c.Goes κ R := by
  intro c there
  cases List.mem_singleton.mp there
  exact .to near rfl rfl

theorem executionTermination_goes (near : R execution.raw.key) :
    ∀ c ∈ q.executionTermination execution thread, c.Goes κ R := by
  intro c there
  unfold Projection.executionTermination at there
  split at there
  · cases there
  · cases List.mem_singleton.mp there
    exact .to near rfl rfl

theorem itemSpawns_goes {items indices} (near : R activity.raw.key)
    (belongs : κ.Belongs activity.raw act.execution) :
    ∀ c ∈ itemSpawns s act activity items indices, c.Goes κ R := by
  intro c there
  obtain ⟨index, -, rfl⟩ := List.mem_map.mp there
  exact ⟨⟨_, rfl, near⟩, fun _ => belongs, rfl⟩

theorem parallelReaction_goes (near : R activity.raw.key)
    (self : act.objectRef = activity) : ∀ c ∈ q.parallelReaction activity act, c.Goes κ R := by
  intro c there
  subst self
  unfold Projection.parallelReaction at there
  split at there
  · split at there
    · cases List.mem_singleton.mp there
      exact .to near rfl rfl
    · split at there
      · cases there
      · split at there
        all_goals
          cases List.mem_singleton.mp there
          exact .to near rfl rfl
  · cases there

theorem mapReaction_goes (near : R activity.raw.key)
    (belongs : κ.Belongs activity.raw act.execution) (self : act.objectRef = activity)
    (reacts : q.mapReaction env s activity act child = some cs) : ∀ c ∈ cs, c.Goes κ R := by
  subst self
  unfold Projection.mapReaction at reacts
  have one (c : Command) (goes : c.Goes κ R) : ∀ c' ∈ [c], c'.Goes κ R := by
    intro c' there
    cases List.mem_singleton.mp there
    exact goes
  split at reacts
  · dsimp only at reacts
    split at reacts
    · cases reacts
      intro c there
      cases there
    · split at reacts
      · cases reacts
        exact one _ (.to near rfl rfl)
      · split at reacts
        · cases reacts
          exact one _ (.to near rfl rfl)
        · obtain ⟨remaining, -, rfl⟩ := Option.map_eq_some_iff.mp reacts
          exact itemSpawns_goes near belongs
  · cases reacts
    intro c there
    cases there

/-- An activity that is told of a child sends commands to itself, or spawns threads of its own. -/
theorem ActivityTold.goes {thread} (told : ActivityTold env M q activity act thread d child cs)
    (near : R activity.raw.key) (self : act.objectRef = activity) : ∀ c ∈ cs, c.Goes q.kin R := by
  have belongs : q.kin.Belongs activity.raw act.execution :=
    ⟨_, kin_activity told.found, congrArg ObjectRef.raw self, rfl⟩
  have one (c : Command) (goes : c.Goes q.kin R) : ∀ c' ∈ [c], c'.Goes q.kin R := by
    intro c' there
    cases List.mem_singleton.mp there
    exact goes
  have reaction := told.reaction
  cases status : act.status with
  | running =>
    rw [status] at reaction
    cases d with
    | task s =>
      obtain rfl := reaction
      exact one _ (.to near rfl rfl)
    | parallel s =>
      obtain rfl := reaction
      exact parallelReaction_goes near self
    | map s => exact mapReaction_goes near belongs self reaction
    | _ => exact reaction.elim
  | completing | terminating =>
    rw [status] at reaction
    obtain rfl := reaction
    exact one _ (.to near rfl rfl)
  | completed | terminated =>
    rw [status] at reaction
    obtain rfl := reaction
    intro c there
    cases there

/-- The owner a row names, as the row it is. -/
theorem Projection.Family.owner_activity (family : q.Family) {m} (found : q.kin k = some m)
    (owner : m.owner = some activity.raw) (there : q.getActivity activity = some act) :
    act.objectRef = activity := by
  obtain ⟨n, there', id, -⟩ := family.sound.owned found owner
  cases (kin_activity there).symm.trans there'
  exact ObjectRef.raw_injective id

/-- The owner of a thread is told, whichever way the thread has ended. -/
theorem OwnerTold.goes {row : Thread} {child} (family : q.Family) (found : q.kin k = some row.kin)
    (told : OwnerTold env M q row.metadata.owner child cs) (near : R row.metadata.owner.raw.key) :
    ∀ c ∈ cs, c.Goes q.kin R := by
  have owned : row.kin.owner = some row.metadata.owner.raw := rfl
  cases owner : row.metadata.owner with
  | execution r =>
    rw [owner] at told near
    rcases told with told | told
    · exact executionTold_goes near told (executionCompletion_goes near)
    · exact executionTold_goes near told (executionTermination_goes near)
  | activity r =>
    rw [owner] at told near owned
    obtain ⟨act, thread, d, told⟩ := told.activity
    exact told.goes near (family.owner_activity found owned told.found)

/-- A state that ends sends its thread on. -/
theorem Ending.Emits.goes (family : q.Family) (found : q.kin k = some act.kin)
    (emits : ending.Emits env act q ds) (there : .command c ∈ ds) (reaches : Reaches q.kin k ds R) :
    c.Goes q.kin R := by
  have self : act.objectRef.raw.key = k := family.sound.filed found
  have above := reaches.above act.metadata.owner.raw.key ⟨_, _, found, rfl, rfl⟩
  cases emits with
  | fails =>
    cases List.mem_singleton.mp there
    exact .to reaches.self (congrArg some self) rfl
  | @moves _ _ completed =>
    have near := above ⟨.stateCompleted completed, by simp, rfl⟩
    obtain rfl : c = _ := by simpa using there
    exact ⟨⟨_, rfl, near⟩, fun _ => family.owner_belongs found rfl rfl, rfl⟩
  | @ends _ completed =>
    have near := above ⟨.stateCompleted completed, by simp, rfl⟩
    obtain rfl : c = _ := by simpa using there
    exact .to near rfl rfl
  | @succeeds _ completed _ _ told =>
    have near := above ⟨.stateCompleted completed, by simp, rfl⟩
    simp only [command_mem_event, command_mem_commands] at there
    exact threadTold_goes near told (threadCompletion_goes near) c there
  | @breaks _ _ terminated _ _ _ told =>
    have near := above ⟨.stateTerminated terminated, by simp, rfl⟩
    simp only [command_mem_event, command_mem_commands] at there
    exact threadTold_goes near told (threadTermination_goes near) c there

theorem Closes.goes (found : q.kin k = some act.kin) (closes : Closes env act q ds)
    (there : .command c ∈ ds) (reaches : Reaches q.kin k ds R) : c.Goes q.kin R := by
  cases closes with
  | @intro terminated _ _ told =>
    have near := reaches.above act.metadata.owner.raw.key ⟨_, _, found, rfl, rfl⟩
      ⟨.stateTerminated terminated, by simp, rfl⟩
    simp only [command_mem_event, command_mem_commands] at there
    exact threadTold_goes near told (threadTermination_goes near) c there

theorem Terminates.goes (family : p.Family) (family' : q.Family) (grows : Kin.Grows p.kin q.kin)
    (found : q.kin k = some act.kin) (terminates : Terminates env d act p q ds)
    (there : .command c ∈ ds) (reaches : Reaches q.kin k ds R) : c.Goes q.kin R := by
  have self : act.objectRef.raw.key = k := family'.sound.filed found
  unfold Terminates at terminates
  cases d with
  | task s =>
    obtain ⟨cs, picks, ⟨-, closes⟩ | ⟨-, rfl⟩⟩ := terminates
    · exact closes.goes found there reaches
    · subst self
      exact picks.goes family grows (by simp) reaches c (command_mem_commands.mp there)
  | parallel | map =>
    rcases terminates with ⟨-, closes⟩ | ⟨-, cs, picks, rfl⟩
    · exact closes.goes found there reaches
    · subst self
      exact picks.goes family grows (by simp) reaches c (command_mem_commands.mp there)
  | _ => exact Closes.goes found terminates there reaches

/-- A task state asks for its task; the others stay within their tree. -/
theorem Launches.goes (launches : Launches env d act vars states seq ds r)
    (found : κ act.objectRef.raw.key = some act.kin) (near : R act.objectRef.raw.key) :
    (∀ c, .command c ∈ ds → c.Goes κ R) ∨ ∃ t : ActivateTask,
      ds = [.take, .command (.activateTask t)] ∧ t.owner = act.objectRef ∧
        t.execution = act.execution ∧ t.task.name = act.execution.name.base.generatedFromKey seq := by
  have belongs : κ.Belongs act.objectRef.raw act.execution := ⟨_, found, rfl, rfl⟩
  unfold Launches at launches
  cases d with
  | task s =>
    obtain ⟨at_, uid, resolved, -, -, rfl⟩ := launches
    exact .inr ⟨_, rfl, rfl, rfl, rfl⟩
  | parallel s =>
    obtain ⟨-, rfl⟩ := launches
    refine .inl fun c there => ?_
    split at there
    · cases List.mem_singleton.mp there
      exact .to near rfl rfl
    · obtain ⟨branch, -, same⟩ := List.mem_map.mp there
      cases same
      exact ⟨⟨_, rfl, near⟩, fun _ => belongs, rfl⟩
  | map s =>
    obtain ⟨-, launches⟩ := launches
    refine .inl fun c there => ?_
    split at launches
    · subst launches
      rcases List.mem_append.mp there with spawned | done
      · exact itemSpawns_goes near belongs c (command_mem_commands.mp spawned)
      · split at done
        · cases List.mem_singleton.mp done
          exact .to near rfl rfl
        · cases done
    · subst launches
      cases there
  | _ =>
    obtain ⟨-, rfl⟩ := launches
    refine .inl fun c there => ?_
    cases there

theorem afterLaunch_goes (near : R activity.raw.key)
    (there : .command c ∈ afterLaunch d activity v r) : c.Goes κ R := by
  cases r with
  | error e =>
    cases List.mem_singleton.mp there
    exact .to near rfl rfl
  | ok =>
    dsimp only [afterLaunch] at there
    split at there
    · cases List.mem_singleton.mp there
      exact .to near rfl rfl
    · cases there

/-- The request for a task: its activity is there, and its name has just been minted. -/
structure ActivateTask.Asked (κ : Census) (R : ObjectKind × ObjectName → Prop) (seq next : Nat)
    (t : ActivateTask) : Prop where
  near : R t.owner.raw.key
  founded : (Command.activateTask t).Founded κ next
  minted : ∃ b : PlainName, t.task.name = b.generatedFromKey seq

/-- All follow-ups stay within reach, and at most one of them asks for a task. -/
def FollowUps (κ : Census) (R : ObjectKind × ObjectName → Prop) (F : Prop) (seq next : Nat)
    (cs : List Command) : Prop :=
  (∀ c ∈ cs, c.Stays κ R F) ∨
    ∃ t rest, cs = .activateTask t :: rest ∧ t.Asked κ R seq next ∧ ∀ c ∈ rest, c.Stays κ R F

theorem FollowUps.target (follow : FollowUps κ R F seq next cs) :
    ∀ c ∈ cs, ∃ j, c.target = some j ∧ R j := by
  intro c there
  rcases follow with stays | ⟨t, rest, rfl, asked, stays⟩
  · exact (stays c there).target
  · rcases List.mem_cons.mp there with rfl | later
    · exact ⟨_, rfl, asked.near⟩
    · exact (stays c later).target

theorem deedCommands_append (ds ds' : List Deed) :
    deedCommands (ds ++ ds') = deedCommands ds ++ deedCommands ds' := List.filterMap_append ..

/-- What follows on entering a state. -/
theorem entered_follow {c uid at_ at_' at_'' prepared activated}
    (isNew : act = enteredActivity d c uid seq at_)
    (input : Yields env ((handlerFor d).processInput act vars (startStates act) at_')
      (.ok (v, prepared))) (isActivated : activated = { prepared with
      input := some v, metadata := prepared.metadata.withUpdateAt at_'' })
    (launches : Launches env d activated vars states (seq + 1) ds r)
    (found : κ act.objectRef.raw.key = some act.kin) (near : R act.objectRef.raw.key)
    (counter : seq + 1 + takes ds ≤ next) :
    FollowUps κ R F (seq + 1) next (deedCommands (ds ++ afterLaunch d act.objectRef v r)) := by
  obtain ⟨state, rfl⟩ := processInput_keeps input
  have same : activated.objectRef = act.objectRef := by rw [isActivated]; rfl
  have kin : activated.kin = act.kin := by rw [isActivated]; rfl
  have after (c) (there : c ∈ deedCommands (afterLaunch d act.objectRef v r)) : c.Stays κ R F :=
    (afterLaunch_goes near (mem_deedCommands.mp there)).stays
  rw [deedCommands_append]
  rcases launches.goes (R := R) (by rw [same, kin]; exact found) (by rw [same]; exact near) with
    goes | ⟨t, rfl, owner, execution, name⟩
  · refine .inl fun c there => ?_
    rcases List.mem_append.mp there with launched | later
    · exact (goes c (mem_deedCommands.mp launched)).stays
    · exact after c later
  · refine .inr ⟨t, _, rfl, ⟨?_, ⟨?_, ?_, ?_⟩, ?_⟩, after⟩
    · rw [owner, same]
      exact near
    · rw [owner, execution, same]
      refine ⟨_, found, rfl, ?_⟩
      rw [← kin]
      rfl
    · rw [name]
      exact ⟨_, rfl, counter⟩
    · have entered : act.metadata.name = c.execution.name.base.generatedFromKey seq := by
        rw [isNew]
        cases d <;> rfl
      have key : act.objectRef.raw.key = (.activity, c.execution.name.base.generatedFromKey seq) :=
        congrArg (Prod.mk _) entered
      have key' : t.task.raw.key = (.task, activated.execution.name.base.generatedFromKey (seq + 1)) :=
        congrArg (Prod.mk _) name
      rw [owner, same, key, key']
      exact Nat.lt_succ_self _
    · exact ⟨_, name⟩

/-- The answers to commands that give no birth leave commands to objects within reach. -/
theorem Outcome.goes (family : p.Family) (family' : q.Family) (grows : Kin.Grows p.kin q.kin)
    (outcome : Outcome env M p q c ds) (target : c.target = some k) (old : c.bears = false)
    (there : .command c' ∈ ds) (reaches : Reaches q.kin k ds R) : c'.Goes q.kin R := by
  cases outcome with
  | flowKnown | flowCreated | tasksClaimed => cases target
  | executionCreated | threadSpawned | stateRefused | stateEntered | taskActivated => cases old
  | executionCompleted | executionTerminated | executionClosedCompleted
  | executionClosedTerminated => simp at there
  | @executionSwept c exec _ _ _ found _ _ _ sweeps =>
    have self : exec.objectRef.raw.key = (.execution, c.name) :=
      family.sound.filed (kin_execution found)
    cases target
    simp only [command_mem_event, command_mem_commands] at there
    rw [← self] at reaches
    exact sweeps.goes family grows (by simp) reaches c' there
  | threadSwept found _ _ sweeps =>
    have self := family.sound.filed (kin_thread found)
    cases target
    simp only [command_mem_event, command_mem_commands] at there
    rw [← self] at reaches
    exact sweeps.goes family grows (by simp) reaches c' there
  | @threadCompleted _ _ _ completed _ _ _ found _ _ _ _ told =>
    have here := grows _ _ (kin_thread found)
    cases target
    have near := reaches.above _ ⟨_, _, here, rfl, rfl⟩ ⟨.threadCompleted completed, by simp, rfl⟩
    simp only [command_mem_event, command_mem_commands] at there
    exact OwnerTold.goes family' here (.inl told) near c' there
  | @threadTerminated _ _ _ terminated _ _ _ found _ _ _ told =>
    have here := grows _ _ (kin_thread found)
    cases target
    have near := reaches.above _ ⟨_, _, here, rfl, rfl⟩ ⟨.threadTerminated terminated, by simp, rfl⟩
    simp only [command_mem_event, command_mem_commands] at there
    exact OwnerTold.goes family' here (.inr told) near c' there
  | @stateCompleted _ act completing _ _ _ _ _ _ found _ _ _ opens _ concludes emits =>
    have kin : completing.kin = act.kin := (Activity.markCompleting_ok opens).2.1.kin
    have here := grows _ _ (kin_activity found)
    cases target
    obtain ⟨states, assign, r, assigns⟩ := concludes.assigns
    rw [← kin] at here
    rcases List.mem_append.mp (command_mem_event.mp there) with assigned | ended
    · exact absurd assigned assigns.command
    · exact emits.goes family' here ended (reaches.mono fun e within => by simp [within])
  | @stateCaught _ _ _ _ _ _ _ _ _ _ caught found _ _ _ _ _ projects cancels =>
    have self := family.sound.filed (kin_activity found)
    have here := grows _ _ (kin_activity found)
    cases target
    have near := reaches.above _ ⟨_, _, here, rfl, rfl⟩ ⟨.stateCompleted caught, by simp, rfl⟩
    obtain ⟨r, assigns⟩ := projects.assigns
    simp only [List.mem_append, command_mem_commands, command_mem_event, command_mem_cons,
      List.not_mem_nil, or_false] at there
    rcases there with (assigned | cancelled) | rfl
    · exact absurd assigned assigns.command
    · rw [← self] at reaches
      exact cancels.goes family grows (by simp) reaches c' cancelled
    · exact ⟨⟨_, rfl, near⟩, fun _ => family'.owner_belongs here rfl rfl, rfl⟩
  | catchFailed found _ _ _ _ _ projects =>
    have self := family.sound.filed (kin_activity found)
    cases target
    obtain ⟨r, assigns⟩ := projects.assigns
    rcases List.mem_append.mp there with assigned | failed
    · exact absurd assigned assigns.command
    · cases List.mem_singleton.mp failed
      exact .to reaches.self (congrArg some self) rfl
  | @stateTerminated _ act terminating _ _ _ _ found _ _ _ _ opens terminates =>
    have kin : terminating.kin = act.kin := (Activity.markTerminating_ok opens).2.1.kin
    have here := grows _ _ (kin_activity found)
    cases target
    rw [← kin] at here
    exact terminates.goes family family' grows here (command_mem_event.mp there)
      (reaches.mono fun e => List.mem_cons_of_mem _)
  | @taskCompleted c _ completed _ _ _ _ _ found _ told =>
    have here := grows _ _ (kin_task found)
    cases target
    have near := reaches.above _ ⟨_, _, here, rfl, rfl⟩
      ⟨.taskCompleted c.requestId completed c.output, by simp, rfl⟩
    simp only [command_mem_event, command_mem_commands] at there
    exact told.goes near (family'.owner_activity here rfl told.found) c' there
  | @taskCancelled _ _ cancelled _ _ _ _ _ found _ told =>
    have here := grows _ _ (kin_task found)
    cases target
    have near := reaches.above _ ⟨_, _, here, rfl, rfl⟩ ⟨.taskCancelled cancelled, by simp, rfl⟩
    simp only [command_mem_event, command_mem_commands] at there
    exact told.goes near (family'.owner_activity here rfl told.found) c' there
  | @taskFailed c _ failed _ _ found fails =>
    have here := grows _ _ (kin_task found)
    cases target
    rw [command_mem_event] at there
    split at there
    · next terminal =>
        have near := reaches.above _ ⟨_, _, here, rfl, rfl⟩ ⟨.taskFailed failed c.error, by simp,
          by simp [Event.parts, Task.handleFailure_terminal (terminal ▸ fails)]⟩
        cases List.mem_singleton.mp there
        exact .to near rfl rfl
    · cases there
  | @executionTimedOut r _ exec _ found reaction =>
    cases target
    cases List.mem_singleton.mp there
    cases status : exec.status <;> rw [status] at reaction
    case completed | terminated => exact reaction.elim
    all_goals
      obtain rfl := reaction
      exact .to reaches.self rfl rfl
  | @activityTimedOut r _ act _ found reaction =>
    cases target
    cases List.mem_singleton.mp there
    cases status : act.status <;> rw [status] at reaction
    case completed | terminated => exact reaction.elim
    case running =>
      obtain ⟨thread, d, -, -, reaction⟩ := reaction
      cases d with
      | wait =>
        obtain rfl := reaction
        exact .to reaches.self rfl rfl
      | task =>
        obtain ⟨-, rfl⟩ := reaction
        exact .to reaches.self rfl rfl
      | _ => exact reaction.elim
    all_goals
      obtain rfl := reaction
      exact .to reaches.self rfl rfl
  | @activitySwept r _ _ _ kind found phase _ sweeps =>
    have self := family.sound.filed (kin_activity found)
    rw [RawObjectRef.typed_raw kind] at self
    have target : r.key = k := by
      rcases phase with ⟨rfl, -⟩ | ⟨rfl, -⟩ <;> exact Option.some.inj target
    subst target
    rw [← self] at reaches
    exact sweeps.goes family grows (by simp) reaches c' (command_mem_commands.mp there)
  | @threadSweptAgain r _ _ _ kind found phase _ sweeps =>
    have self := family.sound.filed (kin_thread found)
    rw [RawObjectRef.typed_raw kind] at self
    have target : r.key = k := by
      rcases phase with ⟨rfl, -⟩ | ⟨rfl, -⟩ <;> exact Option.some.inj target
    subst target
    rw [← self] at reaches
    exact sweeps.goes family grows (by simp) reaches c' (command_mem_commands.mp there)
  | executionSweptAgain kind found _ _ sweeps =>
    have self := family.sound.filed (kin_execution found)
    rw [RawObjectRef.typed_raw kind] at self
    cases target
    rw [← self] at reaches
    exact sweeps.goes family grows (by simp) reaches c' (command_mem_commands.mp there)
  | activityConcluded kind found _ _ _ _ _ concludes emits =>
    have here := grows _ _ (kin_activity found)
    rw [RawObjectRef.typed_raw kind] at here
    cases target
    obtain ⟨states, assign, r, assigns⟩ := concludes.assigns
    rcases List.mem_append.mp there with assigned | ended
    · exact absurd assigned assigns.command
    · exact emits.goes family' here ended (reaches.mono fun e => List.mem_append_right _)
  | @threadClosedCompleted _ _ completed _ _ kind found _ _ _ told =>
    have here := grows _ _ (kin_thread found)
    rw [RawObjectRef.typed_raw kind] at here
    cases target
    have near := reaches.above _ ⟨_, _, here, rfl, rfl⟩ ⟨.threadCompleted completed, by simp, rfl⟩
    simp only [command_mem_event, command_mem_commands] at there
    rcases told with ⟨-, told⟩ | ⟨-, rfl⟩
    · exact OwnerTold.goes family' here (.inl told) near c' there
    · cases there
  | @threadClosedTerminated _ _ terminated _ _ _ kind found _ _ _ told =>
    have here := grows _ _ (kin_thread found)
    rw [RawObjectRef.typed_raw kind] at here
    cases target
    have near := reaches.above _ ⟨_, _, here, rfl, rfl⟩ ⟨.threadTerminated terminated, by simp, rfl⟩
    simp only [command_mem_event, command_mem_commands] at there
    rcases told with ⟨-, told⟩ | ⟨-, rfl⟩
    · exact OwnerTold.goes family' here (.inr told) near c' there
    · cases there
  | activityClosedTerminated kind found _ _ _ _ _ terminates =>
    have here := grows _ _ (kin_activity found)
    rw [RawObjectRef.typed_raw kind] at here
    cases target
    exact terminates.goes family family' grows here there reaches

/-- A new thread is sent its first state. -/
theorem newborn_stays (t : Thread) {x path input} (reaches : Reaches κ k ds R)
    (found : κ t.objectRef.raw.key = some t.kin) (owner : t.metadata.owner.raw.key = k)
    (same : F → t.execution.raw = x.raw) :
    (Command.activateState ⟨x, t.objectRef, path, input⟩).Stays κ R F :=
  ⟨⟨_, rfl, reaches.below _ ⟨_, _, found, rfl, owner⟩⟩, fun holds _ => ⟨_, found, rfl, same holds⟩, rfl⟩

/-- What any answer leaves behind stays within the reach of the object its command was sent to. -/
theorem Outcome.follow (family : p.Family) (fit : DeedsFit p.kin p.nextGeneratedSeq ds)
    (founded : F → c.Founded p.kin p.nextGeneratedSeq) (outcome : Outcome env M p q c ds)
    (writes : Writes cause p ds es q) (target : c.target = some k)
    (reaches : Reaches q.kin k ds R) :
    FollowUps q.kin R F (p.nextGeneratedSeq + 1) q.nextGeneratedSeq (deedCommands ds) := by
  obtain ⟨family', grows⟩ := writes.family family fit
  have only {c' : Command} (stays : c'.Stays q.kin R F) :
      FollowUps q.kin R F (p.nextGeneratedSeq + 1) q.nextGeneratedSeq [c'] := by
    refine .inl fun c'' there => ?_
    cases List.mem_singleton.mp there
    exact stays
  by_cases bears : c.bears = true
  · cases outcome with
    | @executionCreated _ _ _ _ _ _ _ root _ _ _ isRoot =>
      have found := writes.birth family fit (e := .threadCreated root) (by simp) rfl
      cases target
      exact only (newborn_stays root reaches found (by rw [isRoot]; rfl)
        fun _ => by rw [isRoot]; rfl)
    | @threadSpawned c act thread _ _ _ spawned there _ owner _ isSpawned =>
      have found := writes.birth family fit (e := .threadCreated spawned) (by simp) rfl
      -- the spawning activity and its thread are of one execution
      have same (holds : F) : c.execution.raw = thread.execution.raw := by
        obtain ⟨m, known, -, root⟩ := founded holds
        cases (kin_activity there).symm.trans known
        obtain ⟨n, above, -, equal, -⟩ := family.sound.owned known rfl
        cases (kin_thread owner).symm.trans above
        exact root.symm.trans equal.symm
      cases target
      exact only (newborn_stays spawned reaches found (by rw [isSpawned]; rfl)
        fun holds => by rw [isSpawned]; exact same holds)
    | @stateRefused c _ _ _ _ _ act _ _ _ _ isNew =>
      have found := writes.birth family fit (e := .stateActivating act) (by simp) rfl
      have owner : act.kin.owner = some c.owner.raw := by rw [isNew, enteredActivity_kin]
      cases target
      exact only (Command.Goes.to (reaches.below _ ⟨_, _, found, owner, rfl⟩) rfl rfl).stays
    | @stateEntered c _ _ _ _ _ _ act _ _ _ ds _ _ _ _ isNew input isActivated launches =>
      have found := writes.birth family fit (e := .stateActivating act) (by simp) rfl
      have owner : act.kin.owner = some c.owner.raw := by rw [isNew, enteredActivity_kin]
      have taken := writes.taken
      simp only [List.cons_append, takes, takes_append] at taken
      have counter : p.nextGeneratedSeq + 1 + takes ds ≤ q.nextGeneratedSeq := by omega
      cases target
      have follow := entered_follow (F := F) isNew input isActivated launches found
        (reaches.below _ ⟨_, _, found, owner, rfl⟩) counter
      exact follow
    | taskActivated =>
      refine .inl fun c' there => ?_
      cases there
    | activitySwept _ _ phase => rcases phase with ⟨rfl, -⟩ | ⟨rfl, -⟩ <;> cases bears
    | threadSweptAgain _ _ phase => rcases phase with ⟨rfl, -⟩ | ⟨rfl, -⟩ <;> cases bears
    | _ => cases bears
  · refine .inl fun c' there => ?_
    exact (outcome.goes family family' grows target (by simpa using bears)
      (mem_deedCommands.mp there) reaches).stays

/-- Whatever an answer leaves behind goes to an object within reach. -/
theorem Outcome.sent (family : p.Family) (fit : DeedsFit p.kin p.nextGeneratedSeq ds)
    (outcome : Outcome env M p q c ds) (writes : Writes cause p ds es q)
    (target : c.target = some k) (reaches : Reaches q.kin k ds R) (there : .command c' ∈ ds) :
    ∃ j, c'.target = some j ∧ R j :=
  (outcome.follow family fit False.elim writes target reaches).target _ (mem_deedCommands.mpr there)

/-- A command that is sent to no object leaves nothing behind. -/
theorem Outcome.silent (outcome : Outcome env M p q c ds) (target : c.target = none) :
    deedCommands ds = [] := by
  cases outcome with
  | flowKnown | flowCreated | tasksClaimed => rfl
  | activitySwept _ _ phase => rcases phase with ⟨rfl, -⟩ | ⟨rfl, -⟩ <;> cases target
  | threadSweptAgain _ _ phase => rcases phase with ⟨rfl, -⟩ | ⟨rfl, -⟩ <;> cases target
  | _ => cases target

end follow

end Spica
