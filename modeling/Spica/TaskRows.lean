import Spica.Lineage
import Spica.Outcome.Values

/-! # Task rows and the events about them

What the log says of a task and what its row holds. While no storage failure is swallowed and the
clock of a dispatch does not go back, every event about a task is folded whole, but for one: the row
of a completed task keeps the worker and the lease that the event has released.
-/

namespace Spica

open Log Projection

variable {shown : Option String → String} {workerId : String} {r : ActivateTask}

/-! ## Answers in time -/

/-- A claim is stamped no earlier than it was decided. -/
def ClaimsInTime (es : List Entry) : Prop :=
  ∀ e ∈ es, ∀ req tasks, e.payload = .event (.tasksClaimed req tasks) →
    ∀ t ∈ tasks, t.metadata.updatedAt.millis ≤ e.timestamp.millis

/-- The answers of a leader whose clock does not go back during a dispatch. -/
def TimedAnswer (env : Env) : Answering := fun n c p es q =>
  Answer env (fun _ _ => True) n c p es q ∧ ClaimsInTime es

/-- The clock does not go back while a command is dispatched. -/
def Action.Ticks : Action → Prop
  | .dispatch d => ∀ i, Monotone fun n => ((d.attempts i).clock n).millis
  | _ => True

/-- No storage failure is swallowed, and the clock of a dispatch does not go back. -/
def World.Timely (env : Env) (w : World) (a : Action) : Prop := w.Spared env a ∧ a.Ticks

section timed

variable {env : Env} {cause : Nat} {c : Command} {rows : Projection} {machines machines' : MachineCache}
  {produced : Produced} {d : Decision}

/-- A claim reads the clock, and the entry is stamped with the next reading. -/
theorem claimTasks_stamps {p a}
    (ran : dispatchOnce env cause (.claimTasks p) rows machines a = (.ok produced, machines')) :
    ∃ (due : Timestamp) (tasks : List Task), produced.entries =
      [⟨some cause, a.clock 1, .event (.tasksClaimed p.requestId
        (tasks.map fun t => t.claim p.workerId due (a.clock 0)))⟩] := by
  obtain ⟨w, -, returned, -, rfl, -⟩ := dispatchOnce_inv ran
  unfold dispatchCommand TaskElement.claim at returned
  rw [Prog.run_bind] at returned
  obtain ⟨at_, w₁, read, rest⟩ := Eff.bind_ok_iff.mp returned
  rw [now, Prog.run_perform] at read
  cases read
  split at rest
  · cases rest
  next due _ =>
  rw [Prog.run_bind] at rest
  obtain ⟨tasks, w₂, read, rest⟩ := Eff.bind_ok_iff.mp rest
  rw [activatableTasks, Prog.run_perform] at read
  have untouched := congrArg Prod.snd read
  cases untouched
  rw [appendEvent, Prog.run_perform] at rest
  obtain ⟨r, txn, -, -, rfl⟩ := Handler.appendEvent_ok rest
  exact ⟨due, tasks, rfl⟩

theorem Answer.event_menu {M n p q es e ev} (answer : Answer env M n c p es q) (there : e ∈ es)
    (isEvent : e.event? = some ev) : c.mayTell ev := by
  cases answer with
  | outcome outcome writes => exact outcome.event_menu (writes.event_mem there isEvent)
  | refused =>
    cases List.mem_singleton.mp there
    cases isEvent

theorem processCommand_timed (spared : d.Spared env cause c rows machines)
    (ticks : (Action.dispatch d).Ticks)
    (ran : processCommand env cause c rows machines d = (some produced, machines')) :
    TimedAnswer env cause c rows produced.entries produced.rows := by
  have answer := processCommand_spared spared ran
  refine ⟨answer, fun e there req tasks claims t member => ?_⟩
  have isClaim : ∃ p, c = .claimTasks p := by
    have isEvent : e.event? = some (.tasksClaimed req tasks) := by simp [Entry.event?, claims]
    have told := answer.event_menu there isEvent
    cases c <;> first | exact ⟨_, rfl⟩ | cases told
  obtain ⟨p, rfl⟩ := isClaim
  rcases processCommand_inv ran with ⟨i, before, after, once⟩ | ⟨ts, r, rfl⟩
  · obtain ⟨due, granted, entries⟩ := claimTasks_stamps once
    rw [entries] at there
    cases List.mem_singleton.mp there
    cases claims
    obtain ⟨row, -, rfl⟩ := List.mem_map.mp member
    exact ticks i (Nat.zero_le 1)
  · cases List.mem_singleton.mp there
    cases claims

theorem TimedAnswer.advancing (env : Env) : (TimedAnswer env).Advancing where
  answers := fun answer => (Answer.sound env _).answers answer.1
  advances := fun answer => answer.1.advances

theorem timed_answers : World.AnswersBy env (World.Timely env) (TimedAnswer env) :=
  fun _ timely here entry decided =>
    processCommand_timed (timely.1 _ _ _ _ _ here entry) timely.2 decided

end timed

/-! ## What is told of a task -/

/-- The values of tasks an event carries. -/
def Event.tasks : Event → List Task
  | .taskActivated t | .taskCompleted _ t _ | .taskFailed t _ | .taskCancelled t => [t]
  | .tasksClaimed _ tasks => tasks
  | _ => []

def Event.isTask : Event → Bool
  | .taskActivated _ | .tasksClaimed _ _ | .taskCompleted _ _ _ | .taskFailed _ _
  | .taskCancelled _ => true
  | _ => false

def Event.completesTask : Event → Bool
  | .taskCompleted _ _ _ => true
  | _ => false

/-- The event that answers a command about tasks, given the rows it is decided from. -/
inductive TaskTold (env : Env) (p : Projection) : Command → Event → Prop
  | activated {c at_} :
      TaskTold env p (.activateTask c) (.taskActivated (TaskElement.newTask c at_))
  | claimed {c at_ due tasks} (lease : at_.checkedAdd c.leaseSeconds = some due)
      (granted : ∃ all : List Task, all.Perm (p.claimable c.resource at_) ∧
        tasks = all.take c.maxTasks) :
      TaskTold env p (.claimTasks c)
        (.tasksClaimed c.requestId (tasks.map fun t => t.claim c.workerId due at_))
  | completed {c row completed at_} (found : p.getTask c.task = some row)
      (closes : row.markCompleted env.showWorker c.workerId at_ = .ok completed) :
      TaskTold env p (.completeTask c) (.taskCompleted c.requestId completed c.output)
  | failed {c row failed at_ outcome} (found : p.getTask c.task = some row)
      (fails : row.handleFailure env.showWorker env.backoff env.debug c.workerId c.error at_ =
        .ok (failed, outcome)) : TaskTold env p (.failTask c) (.taskFailed failed c.error)
  | cancelled {task row cancelled at_} (found : p.getTask task = some row)
      (closes : row.markCancelled at_ = .ok cancelled) :
      TaskTold env p (.cancelTask task) (.taskCancelled cancelled)

section told

variable {env : Env} {M : Machines} {cause : Nat} {p q : Projection} {c : Command} {ds : List Deed}
  {es : List Entry} {ev : Event} {ts : Timestamp} {t row : Task}

/-- An event about tasks is the first deed of its answer, and the only event. -/
theorem Outcome.task (outcome : Outcome env M p q c ds) :
    (∃ (ev : Event) (cs : List Command), TaskTold env p c ev ∧ ds = .event ev :: cs.map .command ∧
      ∀ c' ∈ cs, c'.activates = none) ∨ ∀ ev, .event ev ∈ ds → ev.isTask = false := by
  have silent {ev : Event} {cs : List Command} (same : ds = .event ev :: cs.map .command) :
      ∀ c' ∈ cs, c'.activates = none := by
    subst same
    rcases outcome.announces with none | ⟨_, _, split⟩
    · exact fun c' there => none c' (List.mem_cons_of_mem _ (List.mem_map_of_mem there))
    · cases split
  have menu {ev : Event} (there : .event ev ∈ ds) := outcome.event_menu there
  cases outcome with
  | taskActivated => exact .inl ⟨_, [], .activated, rfl, by simp⟩
  | tasksClaimed lease granted => exact .inl ⟨_, [], .claimed lease granted, rfl, by simp⟩
  | taskCompleted found closes => exact .inl ⟨_, _, .completed found closes, rfl, silent rfl⟩
  | taskCancelled found closes => exact .inl ⟨_, _, .cancelled found closes, rfl, silent rfl⟩
  | @taskFailed c row _ _ outcome found fails =>
    refine .inl ⟨_, if outcome = .terminal then
      [.terminateState ⟨row.metadata.owner, .failed c.error⟩] else [], .failed found fails, ?_, ?_⟩
    · split <;> rfl
    · split <;> simp [Command.activates]
  | activitySwept | threadSweptAgain | executionSweptAgain => exact .inr (by simp)
  | _ =>
    refine .inr fun ev there => ?_
    have told := menu there
    cases ev <;> first | rfl | cases told

theorem Writes.event_commands {cs : List Command}
    (writes : Writes cause p (.event ev :: cs.map .command) es q) :
    ∃ ts fs, es = ⟨some cause, ts, .event ev⟩ :: fs ∧ (∀ e ∈ fs, e.event? = none) ∧
      ev.Folds p ∧ q = ev.apply ts p := by
  have quiet {p : Projection} {es : List Entry} {cs : List Command}
      (writes : Writes cause p (cs.map .command) es q) : (∀ e ∈ es, e.event? = none) ∧ q = p := by
    induction cs generalizing es with
    | nil =>
      cases writes
      exact ⟨by simp, rfl⟩
    | cons c cs ih =>
      cases writes with
      | command ts writes =>
        obtain ⟨silent, same⟩ := ih writes
        refine ⟨fun e there => ?_, same⟩
        rcases List.mem_cons.mp there with rfl | later
        · rfl
        · exact silent e later
  cases writes with
  | event ts folds writes =>
    obtain ⟨silent, same⟩ := quiet writes
    exact ⟨ts, _, rfl, silent, folds, same⟩

/-! ### The marks -/

theorem Task.markCompleted_eq {at_} (ok : row.markCompleted shown workerId at_ = .ok t) :
    row.status = .running ∧ row.workerId = some workerId ∧ row.Same t ∧ t = { row with
      status := .completed, workerId := none, leaseExpiresAt := none
      metadata := row.metadata.withUpdateAt at_ } := by
  unfold Task.markCompleted at ok
  split at ok
  · cases ok
  · next running =>
      split at ok
      · cases ok
      · next held =>
          cases ok
          refine ⟨?_, ?_, ⟨row.metadata.sameIdentity_withUpdateAt at_, rfl⟩, rfl⟩
          · cases status : row.status <;> simp [status, TaskStatus.isRunning] at running ⊢
          · simp only [Bool.or_eq_true, bne_iff_ne, not_or, not_not] at held
            exact held.2

theorem Task.markCancelled_eq {at_} (ok : row.markCancelled at_ = .ok t) :
    row.status.isTerminal = false ∧ row.Same t ∧
      t = { row with status := .cancelled, metadata := row.metadata.withUpdateAt at_ } := by
  unfold Task.markCancelled at ok
  split at ok
  · cases ok
  · next live =>
      cases ok
      exact ⟨by simpa using live, ⟨row.metadata.sameIdentity_withUpdateAt at_, rfl⟩, rfl⟩

/-- A failure frees the task; only one that is taken up again counts. -/
theorem Task.handleFailure_eq {backoff checked error at_ outcome}
    (ok : row.handleFailure shown backoff checked workerId error at_ = .ok (t, outcome)) :
    row.status.isTerminal = false ∧ row.Same t ∧ t.workerId = none ∧ t.leaseExpiresAt = none ∧
      (t.status = .pending ∨
        t.status = .failed ∧ t.retryState.attempts = row.retryState.attempts) := by
  obtain ⟨live, same, -⟩ := TaskElement.handleFailure_ok ok
  refine ⟨live, same, ?_⟩
  cases (Task.handleFailure_inv ok).2.2 with
  | unmatched | spent => exact ⟨rfl, rfl, .inr ⟨rfl, rfl⟩⟩
  | retried => exact ⟨rfl, rfl, .inl rfl⟩

end told

/-! ## How it is folded -/

section folded

variable {env : Env} {cause : Nat} {p q : Projection} {c : Command} {ds : List Deed} {es : List Entry}
  {ev : Event} {at_ ts : Timestamp} {t row : Task} {n : ObjectName} {resource : String}

theorem Projection.lookup_putTask (p : Projection) (t : Task) :
    (p.putTask t).tasks.lookup n = if n = t.metadata.name then some t else p.tasks.lookup n := by
  split
  · next same =>
      rw [same]
      exact AList.lookup_insert _
  · next other => exact AList.lookup_insert_ne other

theorem Projection.onActivity_tasks (p : Projection) (r : ObjectRef .activity)
    (f : Activity → Activity) : (p.onActivity r f).tasks = p.tasks := by
  unfold Projection.onActivity
  split <;> rfl

theorem Event.touches_task (touches : ev.Touches p (.task n)) :
    ∃ t ∈ ev.tasks, t.metadata.name = n := by
  cases ev with
  | tasksClaimed _ tasks =>
    obtain ⟨t, there, same⟩ := touches
    cases same
    exact ⟨t, there, rfl⟩
  | taskActivated t | taskCompleted _ t _ | taskFailed t _ | taskCancelled t =>
    refine ⟨t, List.mem_singleton_self t, ?_⟩
    have named : n = t.metadata.name := by simpa [Event.Touches] using touches
    exact named.symm
  | _ => simp [Event.Touches] at touches

theorem Event.tasks_of_other (other : ev.isTask = false) : ev.tasks = [] := by
  cases ev <;> first | rfl | cases other

/-- A task no value is brought for keeps its row. -/
theorem Event.spares_task (filed : p.Filed) (other : ∀ t ∈ ev.tasks, t.metadata.name ≠ n) :
    (ev.apply ts p).tasks.lookup n = p.tasks.lookup n := by
  have untouched : ¬ev.Touches p (.task n) := fun touches => by
    obtain ⟨t, there, named⟩ := ev.touches_task touches
    exact other t there named
  exact ev.frame filed untouched

theorem Writes.spares_tasks (writes : Writes cause p ds es q) (filed : p.Filed)
    (other : ∀ ev, .event ev ∈ ds → ev.isTask = false) : q.tasks.lookup n = p.tasks.lookup n := by
  induction writes with
  | nil => rfl
  | take _ ih => exact ih { filed with } fun ev there => other ev (List.mem_cons_of_mem _ there)
  | @event p q ds es ev ts _ _ ih =>
    have rest := ih (ev.apply_filed filed ts) fun ev there =>
      other ev (List.mem_cons_of_mem _ there)
    refine rest.trans (ev.spares_task filed ?_)
    simp [ev.tasks_of_other (other ev List.mem_cons_self)]
  | command _ _ ih | reject _ _ ih =>
    exact ih filed fun ev there => other ev (List.mem_cons_of_mem _ there)

/-! ### A grant -/

theorem Task.isClaimableAt_mono (claimable : t.isClaimableAt at_ = true)
    (le : at_.millis ≤ ts.millis) : t.isClaimableAt ts = true := by
  unfold Task.isClaimableAt at claimable ⊢
  cases status : t.status with
  | pending =>
    rw [status] at claimable
    cases gate : t.retryState.nextAvailableAt with
    | none => rfl
    | some due =>
      simp only [gate, Option.any_some, Bool.not_eq_true', decide_eq_false_iff_not] at claimable ⊢
      omega
  | running =>
    rw [status] at claimable
    cases lease : t.leaseExpiresAt with
    | none => simp [lease] at claimable
    | some due =>
      simp only [lease, Option.any_some, decide_eq_true_eq] at claimable ⊢
      omega
  | completed | failed | cancelled => simp [status] at claimable

theorem Projection.mem_claimable (filed : p.Filed) (member : t ∈ p.claimable resource at_) :
    p.tasks.lookup t.metadata.name = some t ∧ t.isClaimableAt at_ = true := by
  obtain ⟨there, passes⟩ := List.mem_filter.mp member
  obtain ⟨⟨n, t'⟩, entry, rfl⟩ := List.mem_map.mp there
  have found : p.tasks.lookup n = some t' := AList.mem_lookup_iff.mpr entry
  have named : t'.metadata.name = n := filed.tasks n t' found
  refine ⟨?_, (Bool.and_eq_true_iff.mp passes).2⟩
  show p.tasks.lookup t'.metadata.name = some t'
  rw [named, found]

theorem Projection.claimable_nodup
    (filed : ∀ n t, p.tasks.lookup n = some t → t.metadata.name = n) :
    ((p.claimable resource at_).map fun t => t.metadata.name).Nodup := by
  have names : (p.tasks.entries.map Sigma.snd).map (fun t => t.metadata.name) = p.tasks.keys := by
    rw [AList.keys, List.keys, List.map_map]
    refine List.map_congr_left fun e there => ?_
    exact filed e.1 e.2 (AList.mem_lookup_iff.mpr there)
  have all := p.tasks.keys_nodup
  rw [← names] at all
  exact all.sublist (List.filter_sublist.map _)

/-- What is granted are rows of the store that are claimable, each once. -/
theorem Projection.granted_rows {tasks limit} (filed : p.Filed)
    (granted : ∃ all : List Task, all.Perm (p.claimable resource at_) ∧ tasks = all.take limit) :
    (∀ t ∈ tasks, p.tasks.lookup t.metadata.name = some t ∧ t.isClaimableAt at_ = true) ∧
      (tasks.map fun t => t.metadata.name).Nodup := by
  obtain ⟨all, perm, rfl⟩ := granted
  have part := List.take_sublist limit all
  refine ⟨fun t there => mem_claimable filed (perm.mem_iff.mp (part.subset there)), ?_⟩
  exact ((perm.map _).nodup_iff.mpr (claimable_nodup filed.tasks)).sublist (part.map _)

/-- Every task of a grant takes the value it is granted with. -/
theorem Projection.lookup_claimTasks {tasks : List Task} {due} (filed : p.Filed)
    (rows : ∀ t ∈ tasks, p.tasks.lookup t.metadata.name = some t)
    (claimable : ∀ t ∈ tasks, t.isClaimableAt ts = true)
    (nodup : (tasks.map fun t => t.metadata.name).Nodup) (member : t ∈ tasks) :
    ((tasks.map fun t => t.claim workerId due at_).foldl (claimTask ts) p).tasks.lookup
      t.metadata.name = some (t.claim workerId due at_) := by
  induction tasks generalizing p with
  | nil => cases member
  | cons first tasks ih =>
    rw [List.map_cons, List.nodup_cons] at nodup
    obtain ⟨once, nodup⟩ := nodup
    have here : p.getTask (first.claim workerId due at_).objectRef = some first :=
      rows first List.mem_cons_self
    have step : p.claimTask ts (first.claim workerId due at_) =
        p.putTask (first.claim workerId due at_) := by
      simp only [claimTask, here, claimable first List.mem_cons_self, if_true]
      rfl
    have filed' : (p.putTask (first.claim workerId due at_)).Filed := filed.putTask _
    have apart (t) (there : t ∈ tasks) : t.metadata.name ≠ first.metadata.name := fun same =>
      once (List.mem_map.mpr ⟨t, there, same⟩)
    rw [List.map_cons, List.foldl_cons, step]
    rcases List.mem_cons.mp member with rfl | later
    · -- the rest of the grant is about other tasks
      have others : ∀ v ∈ tasks.map (fun t => t.claim workerId due at_),
          Place.task t.metadata.name ≠ .task v.metadata.name := by
        intro v there same
        obtain ⟨u, inside, rfl⟩ := List.mem_map.mp there
        exact apart u inside (Place.task.inj same).symm
      exact Eq.trans (alike_claimTasks filed' others) ((lookup_putTask ..).trans (if_pos rfl))
    · refine ih filed' (fun u there => ?_) (fun u there => claimable u (List.mem_cons_of_mem _ there))
        nodup later
      rw [lookup_putTask]
      refine (if_neg (apart u there)).trans (rows u (List.mem_cons_of_mem _ there))

/-- A grant the fold comes to in time is folded whole. -/
def Event.InTime (ts : Timestamp) : Event → Prop
  | .tasksClaimed _ tasks => ∀ t ∈ tasks, t.metadata.updatedAt.millis ≤ ts.millis
  | _ => True

/-- The row of a completed task: the value of the event, with the lease of the row it replaces. -/
theorem TaskTold.completes {req output} (told : TaskTold env p c (.taskCompleted req t output))
    (ts : Timestamp) (filed : p.Filed) :
    ∃ row workerId, p.tasks.lookup t.metadata.name = some row ∧ row.status = .running ∧
      row.workerId = some workerId ∧ t.workerId = none ∧ t.status = .completed ∧
      (p.completeTask ts t output).tasks.lookup t.metadata.name =
        some { t with workerId := some workerId, leaseExpiresAt := row.leaseExpiresAt } := by
  cases told with
  | @completed c row _ at_ found closes =>
    obtain ⟨running, held, same, value⟩ := Task.markCompleted_eq closes
    have again : p.getTask t.objectRef = some row := filed.taskAgain found same.kin
    refine ⟨row, c.workerId, again, running, held, by rw [value], by rw [value], ?_⟩
    have named : t.metadata.name = row.metadata.name := by rw [value]; rfl
    simp only [completeTask, again]
    refine Eq.trans (congrArg (AList.lookup _) (onActivity_tasks _ _ _)) ?_
    refine (lookup_putTask ..).trans ((if_pos named).trans ?_)
    rw [← held, value]
    rfl

theorem Projection.Filed.lookup_failTask (filed : p.Filed) {r} (found : p.getTask r = some row)
    (same : row.Same t) (ts : Timestamp) :
    (p.failTask ts t).tasks.lookup t.metadata.name = some t := by
  have here : p.getTask t.objectRef = some row := filed.taskAgain found same.kin
  simp only [failTask, here]
  split
  · rw [onActivity_tasks]
    exact AList.lookup_insert _
  · exact AList.lookup_insert _

/-- Every other event about tasks is folded whole. -/
theorem TaskTold.stores (told : TaskTold env p c ev) (filed : p.Filed) (inTime : ev.InTime ts)
    (member : t ∈ ev.tasks) (whole : ev.completesTask = false) :
    (ev.apply ts p).tasks.lookup t.metadata.name = some t := by
  cases told with
  | activated =>
    cases List.mem_singleton.mp member
    exact AList.lookup_insert _
  | @claimed c at_ due tasks lease granted =>
    obtain ⟨rows, nodup⟩ := granted_rows filed granted
    obtain ⟨row, there, rfl⟩ := List.mem_map.mp member
    refine lookup_claimTasks (t := row) filed (fun t there => (rows t there).1)
      (fun t there => ?_) nodup there
    exact Task.isClaimableAt_mono (rows t there).2 (inTime _ (List.mem_map_of_mem there))
  | completed => cases whole
  | @failed c row v at_ outcome found fails =>
    cases List.mem_singleton.mp member
    obtain ⟨-, same, -⟩ := Task.handleFailure_eq fails
    exact filed.lookup_failTask found same ts
  | @cancelled task row _ at_ found closes =>
    cases List.mem_singleton.mp member
    obtain ⟨-, same, rfl⟩ := Task.markCancelled_eq closes
    have here := filed.taskAgain found same.kin
    simp only [Event.apply, cancelTask, here]
    exact AList.lookup_insert _

end folded

/-! ## Tasks and their activities -/

/-- The name was made right after the owner's. -/
def ObjectName.Heir (owner task : ObjectName) : Prop :=
  ∃ (b : PlainName) (k : Nat), owner = b.generatedFromKey k ∧ task = b.generatedFromKey (k + 1)

/-- Who holds a task, as far as its phase tells. -/
def Task.Leased (t : Task) : Prop :=
  match t.status with
  | .pending | .failed => t.workerId = none ∧ t.leaseExpiresAt = none
  | .running | .completed => t.workerId ≠ none ∧ t.leaseExpiresAt ≠ none
  | .cancelled => True

/-- A task is named after its activity, whose row counts the retries of the task. -/
structure Projection.Manned (p : Projection) : Prop where
  heir : ∀ n t, p.tasks.lookup n = some t → t.metadata.owner.name.Heir n
  counted : ∀ n t, p.tasks.lookup n = some t →
    ∃ act, p.activities.lookup t.metadata.owner.name = some act ∧
      act.retryCount = t.retryState.attempts
  leased : ∀ n t, p.tasks.lookup n = some t → t.Leased

/-- The activity that asks for a task has not been retried. -/
structure ActivateTask.Owed (p : Projection) (c : ActivateTask) : Prop where
  heir : c.owner.name.Heir c.task.name
  unretried : ∃ act, p.activities.lookup c.owner.name = some act ∧ act.retryCount = 0

section manned

variable {env : Env} {M : Machines} {cause : Nat} {p q : Projection} {c : Command} {ds : List Deed}
  {es : List Entry} {ev : Event} {ts : Timestamp} {t row : Task} {m n owner : ObjectName} {a : Activity}

theorem ObjectName.Heir.task_eq (one : owner.Heir n) (other : owner.Heir m) : n = m := by
  obtain ⟨b, k, rfl, rfl⟩ := one
  obtain ⟨b', k', same, rfl⟩ := other
  cases same
  rfl

theorem Activity.Kept.retryCount {a a' : Activity} (kept : a.Kept a') :
    a'.retryCount = a.retryCount := by
  rw [Activity.retryCount, Activity.retryCount, kept.retryState]

/-- Where the value of an event comes from: a request, or the row of a task that is not over. -/
theorem TaskTold.source (told : TaskTold env p c ev) (filed : p.Filed) (member : t ∈ ev.tasks) :
    (∃ r at_, c = .activateTask r ∧ t = TaskElement.newTask r at_ ∧ ev.retries = false) ∨
      ∃ row, p.tasks.lookup t.metadata.name = some row ∧ row.status.isTerminal = false ∧
        row.Same t ∧ (ev.retries = false → t.retryState.attempts = row.retryState.attempts) := by
  cases told with
  | @activated r at_ =>
    cases List.mem_singleton.mp member
    exact .inl ⟨r, at_, rfl, rfl, rfl⟩
  | @claimed c at_ due tasks lease granted =>
    obtain ⟨rows, -⟩ := granted_rows filed granted
    obtain ⟨row, there, rfl⟩ := List.mem_map.mp member
    obtain ⟨found, claimable⟩ := rows row there
    refine .inr ⟨row, found, ?_, ⟨row.metadata.sameIdentity_withUpdateAt at_, rfl⟩, fun _ => rfl⟩
    unfold Task.isClaimableAt at claimable
    cases status : row.status <;> simp [status, TaskStatus.isTerminal] at claimable ⊢
  | @completed c row _ at_ found closes =>
    cases List.mem_singleton.mp member
    obtain ⟨running, -, same, value⟩ := Task.markCompleted_eq closes
    refine .inr ⟨row, filed.taskAgain found same.kin, by rw [running]; rfl, same, fun _ => ?_⟩
    rw [value]
  | @failed c row v at_ outcome found fails =>
    cases List.mem_singleton.mp member
    obtain ⟨live, same, -, -, next⟩ := Task.handleFailure_eq fails
    refine .inr ⟨row, filed.taskAgain found same.kin, live, same, fun settled => ?_⟩
    rcases next with pending | ⟨-, counted⟩
    · simp [Event.retries, pending] at settled
    · exact counted
  | @cancelled task row _ at_ found closes =>
    cases List.mem_singleton.mp member
    obtain ⟨live, same, value⟩ := Task.markCancelled_eq closes
    refine .inr ⟨row, filed.taskAgain found same.kin, live, same, fun _ => ?_⟩
    rw [value]

/-- What a row is after an event about tasks: untouched, or of the value the event carries. -/
theorem TaskTold.after (told : TaskTold env p c ev) (filed : p.Filed)
    (leased : ∀ n t, p.tasks.lookup n = some t → t.Leased) (inTime : ev.InTime ts)
    (found : (ev.apply ts p).tasks.lookup n = some t) :
    p.tasks.lookup n = some t ∧ (∀ v ∈ ev.tasks, v.metadata.name ≠ n) ∨
      ∃ v ∈ ev.tasks, v.metadata.name = n ∧ t.metadata.owner = v.metadata.owner ∧
        t.retryState.attempts = v.retryState.attempts ∧ t.Leased := by
  by_cases named : ∃ v ∈ ev.tasks, v.metadata.name = n
  · obtain ⟨v, member, rfl⟩ := named
    refine .inr ⟨v, member, rfl, ?_⟩
    cases whole : ev.completesTask with
    | true =>
      cases told with
      | @completed c row v' at_ here closes =>
        cases List.mem_singleton.mp member
        obtain ⟨row, worker, was, running, -, -, completed, stored⟩ :=
          (TaskTold.completed here closes).completes ts filed
        cases stored.symm.trans found
        have lease := leased _ _ was
        rw [Task.Leased, running] at lease
        refine ⟨rfl, rfl, ?_⟩
        simp only [Task.Leased, completed]
        exact ⟨by simp, lease.2⟩
      | _ => cases whole
    | false =>
      cases (told.stores filed inTime member whole).symm.trans found
      refine ⟨rfl, rfl, ?_⟩
      cases told with
      | activated =>
        cases List.mem_singleton.mp member
        exact ⟨rfl, rfl⟩
      | claimed =>
        obtain ⟨row, -, rfl⟩ := List.mem_map.mp member
        exact ⟨by simp [Task.claim], by simp [Task.claim]⟩
      | completed => cases whole
      | failed _ fails =>
        cases List.mem_singleton.mp member
        obtain ⟨-, -, unheld, unleased, pending | ⟨ended, -⟩⟩ := Task.handleFailure_eq fails
        · rw [Task.Leased, pending]
          exact ⟨unheld, unleased⟩
        · rw [Task.Leased, ended]
          exact ⟨unheld, unleased⟩
      | cancelled _ closes =>
        cases List.mem_singleton.mp member
        obtain ⟨-, -, rfl⟩ := Task.markCancelled_eq closes
        exact trivial
  · have other : ∀ v ∈ ev.tasks, v.metadata.name ≠ n := fun v member same =>
      named ⟨v, member, same⟩
    exact .inl ⟨(ev.spares_task filed other).symm.trans found, other⟩

/-- Only a retried task counts in the row of its activity. -/
theorem TaskTold.counts (told : TaskTold env p c ev) (ts : Timestamp) (filed : p.Filed)
    (found : p.activities.lookup m = some a) :
    ∃ a', (ev.apply ts p).activities.lookup m = some a' ∧
      (a'.retryCount = a.retryCount ∧
          (ev.retries = true → ∀ v ∈ ev.tasks, v.metadata.owner.name ≠ m) ∨
        ev.retries = true ∧ ∀ v ∈ ev.tasks, v.metadata.owner.name = m ∧
          a'.retryCount = v.retryState.attempts) := by
  have valueless : ev.activity? = none := by cases told <;> rfl
  cases retries : ev.retries with
  | false =>
    obtain ⟨a', there, kept⟩ := ev.keeps_activity ts filed retries
      (by simp [valueless]) found (.refl a)
    exact ⟨a', there, .inl ⟨kept.retryCount, by simp⟩⟩
  | true =>
    cases told with
    | @failed c row v at_ outcome here fails =>
      have pending : v.status = .pending := by simpa [Event.retries] using retries
      obtain ⟨-, same, -⟩ := Task.handleFailure_eq fails
      have again : p.getTask v.objectRef = some row := filed.taskAgain here same.kin
      have owner : v.metadata.owner = row.metadata.owner := same.identity.2.2.2.2.2.symm
      have named : ∀ b, (p.putTask v).getActivity row.metadata.owner = some b →
          b.metadata.name = row.metadata.owner.name := fun b there => filed.activities _ b there
      simp only [Event.apply, failTask, again, pending, if_true]
      by_cases same : m = row.metadata.owner.name
      · refine ⟨_, (lookup_onActivity ?_).trans ((if_pos same).trans
          (congrArg (Option.map _) found)), .inr ⟨trivial, fun v' member => ?_⟩⟩
        · exact named
        cases List.mem_singleton.mp member
        exact ⟨by rw [owner, same], rfl⟩
      · refine ⟨a, (lookup_onActivity ?_).trans ((if_neg same).trans found),
          .inl ⟨rfl, fun _ v' member => ?_⟩⟩
        · exact named
        cases List.mem_singleton.mp member
        rw [owner]
        exact Ne.symm same
    | _ => cases retries

theorem Event.tasks_of_retries (retries : ev.retries = true) : ∃ v, ev.tasks = [v] := by
  cases ev <;> first | exact ⟨_, rfl⟩ | cases retries

/-- A retried task has a row, and no other task has its activity. -/
theorem TaskTold.retried (told : TaskTold env p c ev) (filed : p.Filed) (manned : p.Manned)
    (retries : ev.retries = true) {v} (member : v ∈ ev.tasks) :
    (∃ row, p.tasks.lookup v.metadata.name = some row) ∧
      v.metadata.owner.name.Heir v.metadata.name := by
  rcases told.source filed member with ⟨_, _, _, _, other⟩ | ⟨row, found, _, same, _⟩
  · rw [retries] at other
    cases other
  · have owner : row.metadata.owner = v.metadata.owner := same.identity.2.2.2.2.2
    exact ⟨⟨row, found⟩, owner ▸ manned.heir _ row found⟩

theorem Projection.Manned.told (manned : p.Manned) (filed : p.Filed) (told : TaskTold env p c ev)
    (inTime : ev.InTime ts) (owed : ∀ r, c = .activateTask r → r.Owed p) :
    (ev.apply ts p).Manned := by
  have after {n t} (found : (ev.apply ts p).tasks.lookup n = some t) :=
    told.after filed manned.leased inTime found
  constructor
  · intro n t found
    rcases after found with ⟨old, -⟩ | ⟨v, member, rfl, owner, -⟩
    · exact manned.heir n t old
    rw [owner]
    rcases told.source filed member with ⟨r, at_, rfl, rfl, -⟩ | ⟨row, was, -, same, -⟩
    · exact (owed r rfl).heir
    · have owner : row.metadata.owner = v.metadata.owner := same.identity.2.2.2.2.2
      exact owner ▸ manned.heir _ row was
  · intro n t found
    rcases after found with ⟨old, other⟩ | ⟨v, member, rfl, owner, attempts, -⟩
    · obtain ⟨act, here, count⟩ := manned.counted n t old
      obtain ⟨act', here', ⟨same, -⟩ | ⟨retries, all⟩⟩ := told.counts ts filed here
      · exact ⟨act', here', same.trans count⟩
      · -- the retried task would be this one
        obtain ⟨v, only⟩ := ev.tasks_of_retries retries
        have member : v ∈ ev.tasks := by simp [only]
        have heir := (told.retried filed manned retries member).2
        rw [(all v member).1] at heir
        exact absurd (heir.task_eq (manned.heir n t old)) (other v member)
    rw [owner, attempts]
    rcases told.source filed member with ⟨r, at_, rfl, rfl, once⟩ | ⟨row, was, -, same, settled⟩
    · obtain ⟨act, here, count⟩ := (owed r rfl).unretried
      obtain ⟨act', here', ⟨same, -⟩ | ⟨retries, -⟩⟩ := told.counts ts filed here
      · exact ⟨act', here', same.trans count⟩
      · rw [once] at retries
        cases retries
    · have owner : row.metadata.owner = v.metadata.owner := same.identity.2.2.2.2.2
      obtain ⟨act, here, count⟩ := manned.counted _ row was
      rw [owner] at here
      obtain ⟨act', here', ⟨same, apart⟩ | ⟨-, all⟩⟩ := told.counts ts filed here
      · refine ⟨act', here', ?_⟩
        cases retries : ev.retries with
        | false => rw [same, count, settled retries]
        | true => exact absurd rfl (apart retries v member)
      · exact ⟨act', here', (all v member).2⟩
  · intro n t found
    rcases after found with ⟨old, -⟩ | ⟨v, -, -, -, -, leased⟩
    · exact manned.leased n t old
    · exact leased

theorem Event.retries_of_other (other : ev.isTask = false) : ev.retries = false := by
  cases ev <;> first | rfl | cases other

theorem Projection.Manned.other (manned : p.Manned) (family : p.Family)
    (outcome : Outcome env M p q c ds) (writes : Writes cause p ds es q)
    (other : ∀ ev, .event ev ∈ ds → ev.isTask = false) : q.Manned := by
  have same {n} : q.tasks.lookup n = p.tasks.lookup n := writes.spares_tasks family.filed other
  refine ⟨fun n t found => manned.heir n t (same ▸ found), fun n t found => ?_,
    fun n t found => manned.leased n t (same ▸ found)⟩
  obtain ⟨act, here, count⟩ := manned.counted n t (same ▸ found)
  obtain ⟨act', here', kept⟩ := outcome.keeps_activity writes family
    (fun ev there => ev.retries_of_other (other ev there)) here
  exact ⟨act', here', kept.retryCount.trans count⟩

/-- A task is asked for when a Task state is entered, right after the birth of its activity. -/
structure Requested (p : Projection) (r : ActivateTask) (act activated : Activity) : Prop where
  owner : r.owner = act.objectRef
  newborn : ∃ s c uid at_, act = enteredActivity (.task s) c uid p.nextGeneratedSeq at_
  named : r.owner.name.Heir r.task.name
  entered : ∃ v at_, activated = { act with
    input := some v, metadata := act.metadata.withUpdateAt at_ }

theorem Outcome.requests (outcome : Outcome env M p q c ds)
    (there : .command (.activateTask r) ∈ ds) :
    ∃ act activated ds', Requested p r act activated ∧
      ds = .take :: .event (.stateActivating act) :: .event (.stateActivated activated) :: ds' ∧
      ∀ ev, .event ev ∉ ds' := by
  have asked := outcome.menu there
  cases outcome with
  | stateRefused => simp at there
  | @stateEntered c thread d uid at_ at_' at_'' act prepared activated v ds r' found running defines
      isNew input isActivated launches =>
      refine ⟨act, activated, ds ++ afterLaunch d act.objectRef v r', ?_, rfl, fun ev within => ?_⟩
      · have launched : .command (.activateTask r) ∈ ds := by
          simp only [List.cons_append, List.mem_cons, List.mem_append, reduceCtorEq, false_or] at there
          rcases there with launched | after
          · exact launched
          · unfold afterLaunch at after
            split at after
            · simp at after
            · split at after <;> simp at after
        unfold Launches at launches
        cases d with
        | task s =>
          obtain ⟨_, _, _, _, _, rfl⟩ := launches
          simp only [List.mem_cons, reduceCtorEq, Deed.command.injEq, Command.activateTask.injEq,
            List.not_mem_nil, false_or, or_false] at launched
          obtain rfl := taskProcessInput_keeps input
          subst launched isActivated
          refine ⟨rfl, ⟨s, c, uid, at_, isNew⟩, ?_, v, at_'', rfl⟩
          subst isNew
          exact ⟨c.execution.name.base, p.nextGeneratedSeq, rfl, rfl⟩
        | parallel s =>
          obtain ⟨-, rfl⟩ := launches
          split at launched <;> simp at launched
        | map s =>
          obtain ⟨-, launches⟩ := launches
          split at launches
          · subst launches
            simp only [itemSpawns, List.map_map, List.mem_append, List.mem_map, Function.comp,
              Deed.command.injEq, reduceCtorEq, and_false, exists_false, false_or] at launched
            split at launched <;> simp at launched
          · simp [launches] at launched
        | _ =>
          obtain ⟨-, rfl⟩ := launches
          cases launched
      · rcases List.mem_append.mp within with launched | later
        · exact launches.command launched
        · exact afterLaunch_command later
  | activitySwept _ _ phase | threadSweptAgain _ _ phase =>
    rcases phase with ⟨rfl, -⟩ | ⟨rfl, -⟩ <;> cases asked
  | _ => cases asked

/-- A request for a task comes with the birth of its activity, under the next name. -/
theorem Outcome.owes (outcome : Outcome env M p q c ds) (writes : Writes cause p ds es q)
    (family : p.Family) (there : .command (.activateTask r) ∈ ds) : r.Owed q := by
  obtain ⟨act, activated, ds', requested, rfl, quiet⟩ := outcome.requests there
  have retries (ev : Event) (within : .event ev ∈ Deed.take :: .event (.stateActivating act) ::
      .event (.stateActivated activated) :: ds') : ev.retries = false := by
    rcases (by simpa [quiet] using within : ev = _ ∨ ev = _) with rfl | rfl <;> rfl
  have born : .event (.stateActivating act) ∈ Deed.take :: .event (.stateActivating act) ::
      .event (.stateActivated activated) :: ds' := by simp
  obtain ⟨a', here, kept⟩ := outcome.bears_activity writes family retries born
  obtain ⟨s, c', uid, at_, isNew⟩ := requested.newborn
  have unretried : act.retryCount = 0 := by
    rw [isNew]
    rfl
  refine ⟨requested.named, a', ?_, kept.retryCount.trans unretried⟩
  rw [requested.owner]
  exact here

end manned

end Spica
