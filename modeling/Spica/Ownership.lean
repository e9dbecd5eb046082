import Spica.Lawful

/-! # The ownership forest is kept

What a projection satisfies after any number of legal events: its forest is sound, only fan-out
activities own threads, and an activity fans out exactly when the state it is in does.
-/

namespace Spica

variable {t : Thread} {n : ObjectName} {row : Activity} {row' : Execution} {e : Event}

namespace Projection

variable {env : Env} {p p' : Projection}

structure Sound (env : Env) (p : Projection) : Prop where
  owned : p.Owned
  threads : ∀ {n t r}, p.threads.lookup n = some t → t.metadata.owner = .activity r →
    ∃ a, p.getActivity r = some a ∧ a.fansOut
  activities : ∀ {n a}, p.activities.lookup n = some a → ∃ t d,
    p.getThread a.metadata.owner = some t ∧ p.Defines env t a.statePath d ∧ d.fansOut = a.fansOut
  versions : ∀ {n v}, p.flowVersions.lookup n = some v → p.flows.lookup n.base ≠ none

theorem empty_sound (env : Env) : Projection.empty.Sound env where
  owned := by
    constructor
    · rintro ⟨kind, n⟩ m found
      cases kind <;> cases found
    · intro parent child
      refine ⟨by rintro ⟨⟩, ?_⟩
      rintro ⟨m, found, -⟩
      cases kind : child.kind <;> simp [RawObjectRef.key, kind, forest, node, empty] at found
    · rintro ⟨kind, n⟩ m parent - found
      cases kind <;> cases found
  threads := by rintro _ _ _ ⟨⟩
  activities := by rintro _ _ ⟨⟩
  versions := by rintro _ _ ⟨⟩

/-! ## The shape of the rows -/

/-- What a machine says about a state never changes. -/
theorem Defines.mono {t' path d} (evolves : p.Evolves env p')
    (execution : t'.execution = t.execution) (defines : p.Defines env t path d) :
    p'.Defines env t' path d := by
  obtain ⟨exec, ver, machine, found, version, parsed, at_⟩ := defines
  obtain ⟨exec', found', moved⟩ := evolves.executions.row found
  obtain ⟨ver', version', rfl⟩ := evolves.flowVersions.row version
  have same : exec'.flowVersion = exec.flowVersion := by
    rcases moved with rfl | ⟨same, -⟩
    · rfl
    · exact same.flowVersion
  refine ⟨exec', ver', machine, ?_, ?_, parsed, at_⟩
  · rw [execution]
    exact found'
  · rw [same]
    exact version'

theorem Evolves.flow (evolves : p.Evolves env p') {n} (there : p.flows.lookup n ≠ none) :
    p'.flows.lookup n ≠ none := by
  obtain ⟨f, found⟩ := Option.ne_none_iff_exists'.mp there
  obtain ⟨f', found', -⟩ := evolves.flows.row found
  simp [found']

theorem Sound.evolves (sound : p.Sound env) (evolves : p.Evolves env p') (owned : p'.Owned) :
    p'.Sound env where
  owned := owned
  threads {n t r} found owner := by
    obtain ⟨-, -, live⟩ | ⟨t₀, found₀, moved⟩ := evolves.threads.inv found
    · rw [owner] at live
      obtain ⟨a, there, -, -, fans⟩ := live
      obtain ⟨a', there', moved⟩ := evolves.activities.row there
      exact ⟨a', there', (Activity.Moves.same moved).fansOut.trans fans⟩
    · have same := (Thread.Moves.same moved).identity.2.2.2.2.2
      obtain ⟨a, there, fans⟩ := sound.threads found₀ (same.trans owner)
      obtain ⟨a', there', moved⟩ := evolves.activities.row there
      exact ⟨a', there', (Activity.Moves.same moved).fansOut.trans fans⟩
  activities {n a} found := by
    -- a new activity enters a state; an old one stays where it was
    obtain ⟨t, d, thread, defines, fans⟩ : ∃ t d, p.getThread a.metadata.owner = some t ∧
        p.Defines env t a.statePath d ∧ d.fansOut = a.fansOut := by
      obtain ⟨-, -, t, d, thread, -, -, rest⟩ | ⟨a₀, found₀, moved⟩ := evolves.activities.inv found
      · exact ⟨t, d, thread, rest⟩
      · have same := Activity.Moves.same moved
        obtain ⟨t, d, thread, defines, fans⟩ := sound.activities found₀
        refine ⟨t, d, ?_, ?_, fans.trans same.fansOut.symm⟩
        · rwa [← same.identity.2.2.2.2.2]
        · rwa [same.statePath]
    obtain ⟨t', thread', moved⟩ := evolves.threads.row thread
    exact ⟨t', d, thread', defines.mono evolves (Thread.Moves.same moved).execution, fans⟩
  versions {n v} found := by
    obtain ⟨-, flow⟩ | ⟨v₀, found₀, -⟩ := evolves.flowVersions.inv found
    · exact evolves.flow flow
    · exact evolves.flow (sound.versions found₀)

/-! ## Edges -/

/-- Which kinds of objects own which. -/
theorem Owned.edge_kinds (owned : p.Owned) {parent child} (edge : (parent, child) ∈ p.children) :
    child.kind = .thread ∧ (parent.kind = .execution ∨ parent.kind = .activity) ∨
      child.kind = .activity ∧ parent.kind = .thread ∨
      child.kind = .task ∧ parent.kind = .activity := by
  obtain ⟨n, found, -, owner, -⟩ := (Forest.Sound.mirrors owned parent child).mp edge
  cases kind : child.kind with
  | flow | flowVersion => simp [RawObjectRef.key, kind, forest, node] at found
  | execution =>
    simp only [RawObjectRef.key, kind, forest, node, Option.map_eq_some_iff] at found
    obtain ⟨e, -, rfl⟩ := found
    cases owner
  | thread =>
    simp only [RawObjectRef.key, kind, forest, node, Option.map_eq_some_iff] at found
    obtain ⟨t, -, rfl⟩ := found
    cases owner
    cases t.metadata.owner with
    | execution r => exact .inl ⟨rfl, .inl rfl⟩
    | activity r => exact .inl ⟨rfl, .inr rfl⟩
  | activity =>
    simp only [RawObjectRef.key, kind, forest, node, Option.map_eq_some_iff] at found
    obtain ⟨a, -, rfl⟩ := found
    cases owner
    exact .inr (.inl ⟨rfl, rfl⟩)
  | task =>
    simp only [RawObjectRef.key, kind, forest, node, Option.map_eq_some_iff] at found
    obtain ⟨t, -, rfl⟩ := found
    cases owner
    exact .inr (.inr ⟨rfl, rfl⟩)

theorem drained_of_none {r} (none : p.getChildren r = []) (child : RawObjectRef) :
    (r, child) ∈ p.children → ¬Held child.key := by
  intro edge
  rw [← mem_getChildren, none] at edge
  cases edge

/-- An activity that does not fan out owns tasks at most. -/
theorem Sound.drained (sound : p.Sound env) (found : p.activities.lookup n = some row)
    (drained : p.Drained row) (child : RawObjectRef) :
    (row.node.id, child) ∈ p.children → ¬Held child.key := by
  by_cases fans : row.fansOut
  · exact drained_of_none (drained fans) child
  rintro edge (isThread | isActivity)
  · obtain ⟨m, there, -, owner, -⟩ := (Forest.Sound.mirrors sound.owned _ child).mp edge
    have kind : child.kind = .thread := isThread
    simp only [RawObjectRef.key, kind, forest, node, Option.map_eq_some_iff] at there
    obtain ⟨t, there, rfl⟩ := there
    have owner : t.metadata.owner.raw = row.objectRef.raw := Option.some.inj owner
    cases named : t.metadata.owner with
    | execution r =>
      rw [named] at owner
      exact absurd (congrArg RawObjectRef.kind owner) (by rintro ⟨⟩)
    | activity r =>
      rw [named] at owner
      have same : r = row.objectRef := ObjectRef.raw_injective owner
      obtain ⟨a, got, itFans⟩ := sound.threads there named
      have got : p.activities.lookup row.metadata.name = some a := by
        rw [same] at got
        exact got
      rw [sound.owned.activity_name found, found] at got
      cases got
      exact fans itFans
  · have kind : child.kind = .activity := isActivity
    rcases sound.owned.edge_kinds edge with ⟨other, -⟩ | ⟨-, parent⟩ | ⟨other, -⟩
    · rw [kind] at other
      cases other
    · cases parent
    · rw [kind] at other
      cases other

/-- A task owns nothing. -/
theorem Owned.task_drained (owned : p.Owned) (t : Task) (child : RawObjectRef) :
    (t.node.id, child) ∈ p.children → ¬Held child.key := by
  intro edge
  rcases owned.edge_kinds edge with ⟨-, parent | parent⟩ | ⟨-, parent⟩ | ⟨-, parent⟩ <;> cases parent

/-! ## A row changes and stays live -/

theorem Owned.putExecution (owned : p.Owned) {row} (found : p.executions.lookup n = some row)
    (same : row.Same row') (live : row'.status.isTerminal = row.status.isTerminal) :
    (p.putExecution row').Owned := by
  have name : row'.metadata.name = n :=
    same.identity.2.2.1.symm.trans (owned.execution_name found)
  refine owned.kept (node_execution found) ?_ rfl
  rw [node_putExecution, same.node, live, name]
  rfl

theorem Owned.putThread (owned : p.Owned) {row row'} (found : p.threads.lookup n = some row)
    (same : row.Same row') (live : row'.status.isTerminal = row.status.isTerminal) :
    (p.putThread row').Owned := by
  have name : row'.metadata.name = n := same.identity.2.2.1.symm.trans (owned.thread_name found)
  refine owned.kept (node_thread found) ?_ rfl
  rw [node_putThread, same.node, live, name]
  rfl

theorem Owned.putActivity (owned : p.Owned) {row'} (found : p.activities.lookup n = some row)
    (same : row.Same row') (live : row'.status.isTerminal = row.status.isTerminal) :
    (p.putActivity row').Owned := by
  have name : row'.metadata.name = n := same.identity.2.2.1.symm.trans (owned.activity_name found)
  refine owned.kept (node_activity found) ?_ rfl
  rw [node_putActivity, same.node, live, name]
  rfl

theorem Owned.putTask (owned : p.Owned) {row row'} (found : p.tasks.lookup n = some row)
    (same : row.Same row') (live : row'.status.isTerminal = row.status.isTerminal) :
    (p.putTask row').Owned := by
  have name : row'.metadata.name = n := same.identity.2.2.1.symm.trans (owned.task_name found)
  refine owned.kept (node_task found) ?_ rfl
  rw [node_putTask, same.node, live, name]
  rfl

theorem Owned.onActivity (owned : p.Owned) (r : ObjectRef .activity) {f}
    (same : ∀ row : Activity, row.Same (f row)) (phase : ∀ row, (f row).status = row.status) :
    (p.onActivity r f).Owned := by
  unfold Projection.onActivity
  split
  · next row found => exact owned.putActivity found (same row) (by rw [phase])
  · exact owned

/-! ## A row settles -/

theorem Owned.settleExecution (owned : p.Owned) {row} (found : p.executions.lookup n = some row)
    (same : row.Same row') (terminal : row'.status.isTerminal)
    (none : p.getChildren row.objectRef.raw = []) : (p.putExecution row').Owned := by
  have name : row'.metadata.name = n :=
    same.identity.2.2.1.symm.trans (owned.execution_name found)
  refine owned.settled (node_execution found) ?_ ?_ (drained_of_none none)
  · rw [node_putExecution, same.node, terminal, name]
    rfl
  · intro parent child
    simp [Execution.node, Projection.putExecution]

theorem Owned.settleThread (owned : p.Owned) {row row'} (found : p.threads.lookup n = some row)
    (same : row.Same row') (terminal : row'.status.isTerminal)
    (none : p.getChildren row.objectRef.raw = []) :
    ((p.putThread row').removeChild row.metadata.owner.raw row.objectRef.raw).Owned := by
  have name : row'.metadata.name = n := same.identity.2.2.1.symm.trans (owned.thread_name found)
  refine owned.settled (node_thread found) ?_ ?_ (drained_of_none none)
  · show (p.putThread row').node = _
    rw [node_putThread, same.node, terminal, name]
    rfl
  · intro parent child
    rw [mem_removeChild]
    simp [Thread.node, Projection.putThread, eq_comm]

theorem Sound.settleActivity (sound : p.Sound env) {row'}
    (found : p.activities.lookup n = some row) (same : row.Same row')
    (terminal : row'.status.isTerminal) (drained : p.Drained row) :
    ((p.putActivity row').removeChild row.metadata.owner.raw row'.objectRef.raw).Owned := by
  have name : row'.metadata.name = n :=
    same.identity.2.2.1.symm.trans (sound.owned.activity_name found)
  refine sound.owned.settled (node_activity found) ?_ ?_ (sound.drained found drained)
  · show (p.putActivity row').node = _
    rw [node_putActivity, same.node, terminal, name]
    rfl
  · intro parent child
    have ref : row'.objectRef = row.objectRef := same.identity.objectRef .activity
    rw [mem_removeChild, ref]
    simp [Activity.node, Projection.putActivity, eq_comm]

theorem Owned.settleTask (owned : p.Owned) {row row'} (found : p.tasks.lookup n = some row)
    (same : row.Same row') (terminal : row'.status.isTerminal) :
    ((p.putTask row').removeChild row.metadata.owner.raw row.objectRef.raw).Owned := by
  have name : row'.metadata.name = n := same.identity.2.2.1.symm.trans (owned.task_name found)
  refine owned.settled (node_task found) ?_ ?_ (owned.task_drained row)
  · show (p.putTask row').node = _
    rw [node_putTask, same.node, terminal, name]
    rfl
  · intro parent child
    rw [mem_removeChild]
    simp [Task.node, Projection.putTask, eq_comm]

/-! ## A row is born -/

theorem Owned.bornThread (owned : p.Owned) (scopes : Table ObjectName Variables) (n : Nat)
    (fresh : p.getThread t.objectRef = none) (running : t.status = .running)
    (owner : p.LiveOwner t.metadata.owner) :
    ({ p.putThread t with scopes := scopes, nextGeneratedSeq := n }.addChild
      t.metadata.owner.raw t.objectRef.raw).Owned := by
  have fresh : p.threads.lookup t.metadata.name = none := fresh
  refine owned.born (k := (.thread, t.metadata.name)) (n := t.node) ?_ rfl ?_ ?_ ?_ ?_
  · simp [node, fresh]
  · simp [Thread.node, running, Status.isTerminal]
  · show (p.putThread t).node = _
    exact node_putThread t
  · intro parent child
    rw [mem_addChild]
    simp [Thread.node, Projection.putThread, eq_comm]
  · rintro - parent owned
    cases owned
    cases named : t.metadata.owner with
    | execution r =>
      rw [named] at owner
      obtain ⟨e, found, ref, live⟩ := owner
      exact ⟨e.node, node_execution found, congrArg ObjectRef.raw ref, by simp [Execution.node, live]⟩
    | activity r =>
      rw [named] at owner
      obtain ⟨a, found, ref, status, -⟩ := owner
      exact ⟨a.node, node_activity found, congrArg ObjectRef.raw ref,
        by simp [Activity.node, status, Status.isTerminal]⟩

theorem Owned.createThread (owned : p.Owned) (ts : Timestamp)
    (fresh : p.getThread t.objectRef = none) (running : t.status = .running)
    (owner : p.LiveOwner t.metadata.owner) : (p.createThread ts t).Owned := by
  obtain ⟨scopes, n, equal⟩ := createThread_eq (p := p) ts t
  have born := owned.bornThread scopes n fresh running owner
  rw [equal]
  unfold recordFanOut
  split
  · exact born
  · next r named =>
      rw [named] at owner
      obtain ⟨a, found, -, -, fans⟩ := owner
      split
      · next act there =>
          have same : p.getActivity r = some act := there
          rw [found] at same
          cases same
          split
          · next state recorded =>
              exact born.putActivity there ⟨ObjectMeta.sameIdentity_withUpdateAt _ _, rfl, rfl,
                recordChild_fansOut fans recorded⟩ rfl
          · exact born
      · exact born

theorem Owned.claimed (owned : p.Owned) {tasks} (claimed : Claimed p.tasks tasks) :
    { p with tasks := tasks }.Owned := by
  have nodes : { p with tasks := tasks }.node = p.node := by
    funext ⟨kind, n⟩
    cases kind <;> try rfl
    have cell := claimed.evolves n
    show (tasks.lookup n).map Task.node = (p.tasks.lookup n).map Task.node
    cases after : tasks.lookup n with
    | none =>
      cases before : p.tasks.lookup n with
      | none => rfl
      | some t => rw [before, after] at cell; cases cell
    | some t =>
      obtain ⟨-, none⟩ | ⟨t₀, before, claims⟩ := claimed.evolves.inv after
      · exact none.elim
      · rw [before]
        exact congrArg some (Task.Claims.node claims)
  have same : { p with tasks := tasks }.forest = p.forest := by
    simp only [forest, nodes]
  unfold Owned
  rwa [same]

theorem Owned.fileFlow (owned : p.Owned) (f : Flow) : (p.fileFlow f).Owned := by
  unfold Projection.fileFlow
  split
  · exact owned
  · exact owned

theorem Owned.createFlowVersion (owned : p.Owned) (ts : Timestamp) (v : FlowVersion) :
    (p.createFlowVersion ts v).Owned := by
  have filed : (p.putFlowVersion v).Owned := owned
  unfold Projection.createFlowVersion
  split
  · exact filed
  · exact filed.fileFlow _

theorem onActivity_removeChild (r : ObjectRef .activity) (f : Activity → Activity)
    (parent child : RawObjectRef) :
    (p.onActivity r f).removeChild parent child = (p.removeChild parent child).onActivity r f := by
  unfold Projection.onActivity
  have same : (p.removeChild parent child).getActivity r = p.getActivity r := rfl
  rw [same]
  cases p.getActivity r with
  | none => rfl
  | some row => rfl

end Projection

open Projection in
/-- Folding a legal event keeps the forest sound. -/
theorem Event.Legal.owned {env p} (sound : p.Sound env) (legal : e.Legal env p) (ts : Timestamp) :
    (e.apply ts p).Owned := by
  have owned := sound.owned
  have touched {ω : Type} (m : ObjectMeta ω) (at_ : Timestamp) :
      m.SameIdentity (m.withUpdateAt at_) := ObjectMeta.sameIdentity_withUpdateAt m at_
  cases e with
  | flowCreated _ f => exact owned.fileFlow f
  | flowVersionCreated _ v => exact owned.createFlowVersion ts v
  | executionCreated _ e =>
    obtain ⟨fresh, running⟩ := legal
    have fresh : p.executions.lookup e.metadata.name = none := fresh
    refine owned.born (k := (.execution, e.metadata.name)) (n := e.node) ?_ rfl ?_ ?_ ?_ ?_
    · simp [node, fresh]
    · simp [Execution.node, running, Status.isTerminal]
    · exact node_putExecution e
    · intro parent child
      simp [Event.apply, Execution.node, Projection.putExecution]
    · intro _ parent none
      cases none
  | executionCompleting e =>
    obtain ⟨row, found, status⟩ := legal
    rw [Event.apply, onExecution_some found]
    exact owned.putExecution found ⟨touched _ _, rfl⟩ (by rw [status]; rfl)
  | executionCompleted e =>
    obtain ⟨row, found, -, none⟩ := legal
    rw [Event.apply, onExecution_some found]
    exact owned.settleExecution found ⟨touched _ _, rfl⟩ rfl none
  | executionTerminating e =>
    obtain ⟨row, r, found, status, next⟩ := legal
    rw [Event.apply, onExecution_some found]
    exact owned.putExecution found ⟨touched _ _, rfl⟩ (by rw [status, next]; rfl)
  | executionTerminated e =>
    obtain ⟨row, r, found, -, next, none⟩ := legal
    rw [Event.apply, onExecution_some found]
    exact owned.settleExecution found ⟨touched _ _, rfl⟩ (by rw [next]; rfl) none
  | threadCreated t => exact owned.createThread ts legal.1 legal.2.1 legal.2.2
  | threadCompleting t =>
    obtain ⟨row, found, status⟩ := legal
    rw [Event.apply, onThread_some found]
    exact owned.putThread found ⟨touched _ _, rfl, rfl⟩ (by rw [status]; rfl)
  | threadCompleted t =>
    obtain ⟨row, found, ref, -, none⟩ := legal
    rw [Event.apply, settleThread_some found, ← ref]
    exact owned.settleThread found ⟨touched _ _, rfl, rfl⟩ rfl none
  | threadTerminating t =>
    obtain ⟨row, r, found, status, next⟩ := legal
    rw [Event.apply, onThread_some found]
    exact owned.putThread found ⟨touched _ _, rfl, rfl⟩ (by rw [status, next]; rfl)
  | threadTerminated t =>
    obtain ⟨row, r, found, ref, -, next, none⟩ := legal
    rw [Event.apply, settleThread_some found, ← ref]
    exact owned.settleThread found ⟨touched _ _, rfl, rfl⟩ (by rw [next]; rfl) none
  | stateActivating a =>
    obtain ⟨fresh, running, t, d, found, ref, alive, -⟩ := legal
    have fresh : p.activities.lookup a.metadata.name = none := fresh
    obtain ⟨m, bumped⟩ := bump_eq (p := p.putActivity a) a.metadata.name
    rw [Event.apply, bumped]
    refine owned.born (k := (.activity, a.metadata.name)) (n := a.node) ?_ rfl ?_ ?_ ?_ ?_
    · simp [node, fresh]
    · simp [Activity.node, running, Status.isTerminal]
    · exact node_putActivity (p := p) a
    · intro parent child
      rw [mem_addChild]
      simp [Activity.node, Projection.putActivity, eq_comm]
    · rintro - parent owner
      cases owner
      exact ⟨t.node, node_thread found, congrArg ObjectRef.raw ref,
        by simp [Thread.node, alive, Status.isTerminal]⟩
  | stateActivated a =>
    obtain ⟨row, found, same, status, next⟩ := legal
    rw [Event.apply, onActivity_some found]
    exact owned.putActivity found same (by rw [status, next])
  | stateCompleting a =>
    obtain ⟨row, found, same, status, next⟩ := legal
    rw [Event.apply, onActivity_some found]
    exact owned.putActivity found same (by rw [status, next]; rfl)
  | stateTerminating a =>
    obtain ⟨row, r, found, same, status, next⟩ := legal
    rw [Event.apply, onActivity_some found]
    refine owned.putActivity found same ?_
    rcases status with status | status
    · rw [status, next]; rfl
    · rw [status, next]; rfl
  | stateCompleted a =>
    obtain ⟨row, found, same, -, next, drained⟩ := legal
    rw [Event.apply, settleActivity_some found]
    exact sound.settleActivity found same (by rw [next]; rfl) drained
  | stateTerminated a =>
    obtain ⟨row, r, found, same, -, next, drained⟩ := legal
    rw [Event.apply, settleActivity_some found]
    exact sound.settleActivity found same (by rw [next]; rfl) drained
  | variablesAssigned scope vars => exact owned
  | stateTransitioned _ _ => exact owned
  | taskActivated t =>
    obtain ⟨fresh, pending⟩ := legal
    have fresh : p.tasks.lookup t.metadata.name = none := fresh
    obtain ⟨m, bumped⟩ := bump_eq (p := p.putTask t) t.metadata.name
    rw [Event.apply, bumped]
    refine owned.born (k := (.task, t.metadata.name)) (n := t.node) ?_ rfl ?_ ?_ ?_ ?_
    · simp [node, fresh]
    · simp [Task.node, pending, TaskStatus.isTerminal]
    · exact node_putTask (p := p) t
    · intro parent child
      rw [mem_addChild]
      simp [Task.node, Projection.putTask, eq_comm]
    · rintro (held | held) <;> cases held
  | tasksClaimed _ granted =>
    obtain ⟨tasks, claimed, equal⟩ := owned.claimTasks ts granted
    rw [Event.apply, equal]
    exact owned.claimed claimed
  | taskCompleted _ t output =>
    obtain ⟨row, found, ref, open_⟩ := legal
    rw [Event.apply, Projection.completeTask, found]
    dsimp only
    rw [onActivity_removeChild, ← ref]
    refine Owned.onActivity ?_ _ (fun _ => ⟨touched _ _, rfl, rfl, rfl⟩) fun _ => rfl
    exact owned.settleTask found ⟨touched _ _, rfl⟩ rfl
  | taskFailed t error =>
    obtain ⟨row, found, same, open_, next⟩ := legal
    have ref : t.objectRef = row.objectRef := same.identity.objectRef .task
    rw [Event.apply, Projection.failTask, found]
    dsimp only
    split
    · next pending =>
        refine Owned.onActivity ?_ _ (fun _ => ⟨touched _ _, rfl, rfl, rfl⟩) fun _ => rfl
        exact owned.putTask found same (by rw [pending, open_]; rfl)
    · next settled =>
        rw [ref]
        exact owned.settleTask found same (by rw [next.resolve_left settled]; rfl)
  | taskCancelled t =>
    obtain ⟨row, found, ref, open_⟩ := legal
    rw [Event.apply, Projection.cancelTask, found, ← ref]
    exact owned.settleTask found ⟨touched _ _, rfl⟩ rfl

/-- Folding a legal event keeps everything. -/
theorem Event.Legal.sound {env p} (sound : p.Sound env) (legal : e.Legal env p) (ts : Timestamp) :
    (e.apply ts p).Sound env :=
  sound.evolves (legal.evolves sound.owned ts) (legal.owned sound ts)

end Spica
