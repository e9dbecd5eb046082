import Spica.Lifecycle

/-! # The lives of objects

Three results about whole runs in which assertions are evaluated and no storage failure is
swallowed: lifecycles only move forward, what is over stays as it is as long as no task reports to
an activity that is over, and ownership edges mirror liveness.
-/

namespace Spica

open Log Scenario

variable {env : Env} {punctual : Prop} {p q : Projection}
variable {n : ObjectName} {parent child r : RawObjectRef}

/-! ## Storage moves along lawful courses -/

namespace World

variable {w w' : World} {a : Action}

/-- The conditions on the steps of a lawful run. -/
def Orderly (env : Env) (punctual : Prop) (w : World) (a : Action) : Prop :=
  w.Spared env a ∧ (punctual → w.Punctual a)

theorem Lawful.reach (debug : env.debug = true)
    (run : Run.Reach (World.step env) (Orderly env punctual) init w) : w.Lawful env punctual :=
  run.keeps (fun _ _ _ lawful good moved => lawful.step debug good.1 good.2 moved) init_lawful

theorem Lawful.advances (lawful : w.Lawful env punctual) (lawful' : w'.Lawful env punctual)
    (moved : World.step env w a = some w') :
    ∃ es, Course env punctual w.storage.rows es w'.storage.rows := by
  obtain ⟨es, grown⟩ := log_grows moved
  have before : FoldsTo w'.log w.storage.lastProcessedPosition w.storage.rows := by
    rw [grown]
    exact (FoldsTo.append lawful.faithful.placed.boundary.le).mpr lawful.faithful.committed
  obtain ⟨r, course⟩ := lawful'.course
  exact course.between before lawful'.faithful.committed
    (committed_mono lawful.faithful.placed moved)

/-- From one state of a run to a later one, storage takes a lawful course. -/
theorem course_of_run (debug : env.debug = true)
    (run : Run.Reach (World.step env) (Orderly env punctual) init w)
    (later : Run.Reach (World.step env) (Orderly env punctual) w w') :
    ∃ es, Course env punctual w.storage.rows es w'.storage.rows := by
  have lawful := Lawful.reach debug run
  induction later with
  | refl => exact ⟨[], .nil rfl⟩
  | tail before move ih =>
    obtain ⟨es, course⟩ := ih
    obtain ⟨a, good, moved⟩ := id move
    have lawful₁ := Lawful.reach debug (run.trans before)
    obtain ⟨es', step⟩ := lawful₁.advances (lawful₁.step debug good.1 good.2 moved) moved
    exact ⟨es ++ es', course.append step⟩

end World

/-! ## Lifecycles -/

/-- What becomes of the rows of a projection. -/
structure Projection.Lives (p q : Projection) : Prop where
  steps : Relation.ReflTransGen Projection.Forward p q
  executions : ∀ n e, p.executions.lookup n = some e →
    ∃ e', q.executions.lookup n = some e' ∧ e.Same e' ∧
      (e.status.isTerminal = true → e'.status = e.status)
  threads : ∀ n t, p.threads.lookup n = some t →
    ∃ t', q.threads.lookup n = some t' ∧ t.Same t' ∧
      (t.status.isTerminal = true → t'.status = t.status)
  activities : ∀ n a, p.activities.lookup n = some a →
    ∃ a', q.activities.lookup n = some a' ∧ a.Same a' ∧
      (a.status.isTerminal = true → a'.status = a.status)
  tasks : ∀ n t, p.tasks.lookup n = some t →
    ∃ t', q.tasks.lookup n = some t' ∧ t.Same t' ∧
      (t.status.isTerminal = true → t'.status = t.status)

theorem Projection.Lives.of_steps (steps : Relation.ReflTransGen Projection.Forward p q) :
    p.Lives q where
  steps := steps
  executions _ _ found :=
    Projection.forward_row (·.executions) (·.status) Status.isTerminal
      (fun _ _ forward => forward.executions) .refl (fun _ _ _ same moves => same.trans moves.same)
      (fun _ _ moves ended => by rw [moves.ended ended]) steps found
  threads _ _ found :=
    Projection.forward_row (·.threads) (·.status) Status.isTerminal
      (fun _ _ forward => forward.threads) .refl (fun _ _ _ same moves => same.trans moves.same)
      (fun _ _ moves ended => by rw [moves.ended ended]) steps found
  activities _ _ found :=
    Projection.forward_row (·.activities) (·.status) Status.isTerminal
      (fun _ _ forward => forward.activities) .refl (fun _ _ _ same moves => same.trans moves.same)
      (fun _ _ moves ended => moves.settled ended) steps found
  tasks _ _ found :=
    Projection.forward_row (·.tasks) (·.status) TaskStatus.isTerminal
      (fun _ _ forward => forward.tasks) .refl (fun _ _ _ same moves => same.trans moves.same)
      (fun _ _ moves ended => by rw [moves.ended ended]) steps found

namespace World

variable {w w' : World}

/-- Lifecycles only move forward, from any committed state of a run to any later one and from any
    position of the log to any later one. -/
theorem lifecycles_move_forward (debug : env.debug = true)
    (run : Run.Reach (World.step env) (World.Spared env) init w)
    (later : Run.Reach (World.step env) (World.Spared env) w w') :
    w.storage.rows.Lives w'.storage.rows ∧
      ∀ m n p q, m ≤ n → FoldsTo w'.log m p → FoldsTo w'.log n q → p.Lives q := by
  have orderly : ∀ (w : World) (a : Action), w.Spared env a → w.Orderly env False a :=
    fun _ _ spared => ⟨spared, False.elim⟩
  have run := run.weaken orderly
  have later := later.weaken orderly
  constructor
  · obtain ⟨es, course⟩ := course_of_run debug run later
    exact .of_steps (course.forward (Lawful.reach debug run).sound)
  · intro m n p q order left right
    have lawful := Lawful.reach debug (run.trans later)
    obtain ⟨r, course⟩ := lawful.course
    obtain ⟨es, between⟩ := course.between left right order
    exact .of_steps (between.forward (lawful.sound_at left))

/-- An execution run to its end. -/
theorem lifecycles_move_forward_pass :
    ((after true (single pass) oneExecution).storage.rows.executions.lookup (.plain exec)).any
        (·.status = .completed) = true ∧
      init.storage.rows.Lives (after true (single pass) oneExecution).storage.rows :=
  ⟨by decide +kernel, (lifecycles_move_forward rfl .refl
    (Run.Reach.weaken (reach_after fun _ => oneExecution_calm) fun _ _ ff => ff.spared)).1⟩

end World

/-- An execution that runs again after it completed has left the end of its life. -/
theorem Projection.not_lives (before : (p.executions.lookup n).any (·.status = .completed) = true)
    (after : (q.executions.lookup n).any (·.status = .running) = true) : ¬p.Lives q := by
  intro lives
  obtain ⟨e, found, completed⟩ := (Option.any_eq_true _ _).mp before
  obtain ⟨e', found', running⟩ := (Option.any_eq_true _ _).mp after
  obtain ⟨e'', there, -, stays⟩ := lives.executions n e found
  rw [found'] at there
  cases there
  simp only [decide_eq_true_eq] at completed running
  rw [completed, running] at stays
  cases stays rfl

/-- The execution is over and its name is used again. -/
def nameUsedAgain : List Action := oneExecution ++ appends [createExecution exec]

/-- The existence read fails and is taken for an unused name: the execution starts over. -/
theorem fault_restarts_execution :
    ∃ w w', Run.Reach (World.step (host true (single pass))) (fun _ a => a.FaultFree) .init w ∧
      Run.Reach (World.step (host true (single pass))) (fun _ _ => True) w w' ∧
      ¬w.storage.rows.Lives w'.storage.rows :=
  ⟨after true (single pass) nameUsedAgain,
    Run.script (World.step (host true (single pass))) (after true (single pass) nameUsedAgain)
      [.dispatch firstCallFails, .commit],
    reach_after fun _ => oneExecution_calm.append (appends_calm _),
    Run.reach_script fun _ _ _ => trivial,
    Projection.not_lives (n := .plain exec) (by decide +kernel) (by decide +kernel)⟩

/-! ## Terminal rows -/

namespace World

variable {w w' : World}

/-- As long as no task reports to an activity that is over, every row that is over stays as it is,
    from any committed state of a run to any later one and from any position of the log to any
    later one. -/
theorem terminal_rows_frozen (debug : env.debug = true)
    (run : Run.Reach (World.step env) (fun w a => w.Spared env a ∧ w.Punctual a) init w)
    (later : Run.Reach (World.step env) (fun w a => w.Spared env a ∧ w.Punctual a) w w') :
    w.storage.rows.Frozen w'.storage.rows ∧
      ∀ m n p q, m ≤ n → FoldsTo w'.log m p → FoldsTo w'.log n q → p.Frozen q := by
  have orderly : ∀ (w : World) (a : Action), w.Spared env a ∧ w.Punctual a → w.Orderly env True a :=
    fun _ _ good => ⟨good.1, fun _ => good.2⟩
  have run := run.weaken orderly
  have later := later.weaken orderly
  constructor
  · obtain ⟨es, course⟩ := course_of_run debug run later
    exact course.frozen (Lawful.reach debug run).sound trivial
  · intro m n p q order left right
    have lawful := Lawful.reach debug (run.trans later)
    obtain ⟨r, course⟩ := lawful.course
    obtain ⟨es, between⟩ := course.between left right order
    exact between.frozen (lawful.sound_at left) trivial

/-- The check of a step that decides whether it is punctual. -/
def isPunctual (w : World) : Action → Bool
  | .dispatch _ =>
    match w.proc with
    | .running next _ =>
      match entryAt w.log next with
      | some ⟨_, _, .command c⟩ => decide (¬c.Late w.storage.rows)
      | _ => true
    | _ => true
  | _ => true

theorem punctual_of_isPunctual {a} (good : w.isPunctual a = true) : w.Punctual a := by
  cases a with
  | dispatch d =>
    intro next leader cause ts c here entry
    simpa [isPunctual, here, entry] using good
  | _ => trivial

/-- A task completed by its worker in time. -/
def reported : List Action := oneClaim ++ appends [report] ++ leads 20

/-- Its timeout, fired afterwards. -/
def firedLate : List Action := appends [timeout] ++ leads 3

theorem reported_calm : Calm reported := (oneClaim_calm.append (appends_calm _)).append (leads_calm _)

theorem firedLate_calm : Calm firedLate := (appends_calm _).append (leads_calm _)

/-- A calm script whose steps pass the check is a run the theorem is about. -/
theorem reach_punctual {env actions} (calm : Calm actions)
    (passes : Run.checked (World.step env) isPunctual w actions = true) :
    Run.Reach (World.step env) (fun w a => w.Spared env a ∧ w.Punctual a) w
      (Run.script (World.step env) w actions) :=
  Run.reach_checked isPunctual
    (fun _ a member good => ⟨(calm a member).spared, punctual_of_isPunctual good⟩) passes

def reportedWorld : World := after true catching reported

theorem reportedWorld_reach : Run.Reach (World.step (host true catching))
    (fun w a => w.Spared (host true catching) a ∧ w.Punctual a) init reportedWorld :=
  reach_punctual reported_calm (by decide +kernel)

theorem terminal_rows_frozen_reported :
    (reportedWorld.storage.rows.activities.lookup firstActivity.name).any
        (fun a => a.status.isTerminal && a.rawOutput = some (.bool true)) = true ∧
      reportedWorld.storage.rows.Frozen
        (Run.script (World.step (host true catching)) reportedWorld firedLate).storage.rows :=
  ⟨by decide +kernel, (terminal_rows_frozen rfl reportedWorld_reach
    (reach_punctual firedLate_calm (by decide +kernel))).1⟩

end World

/-- An activity that was over has another output now. -/
theorem Projection.not_frozen {x y} (differ : x ≠ y) (before : (p.activities.lookup n).any
      (fun a => a.status.isTerminal && decide (a.rawOutput = x)) = true)
    (after : (q.activities.lookup n).any (fun a => decide (a.rawOutput = y)) = true) :
    ¬p.Frozen q := by
  intro frozen
  obtain ⟨a, found, done⟩ := (Option.any_eq_true _ _).mp before
  obtain ⟨a', found', output'⟩ := (Option.any_eq_true _ _).mp after
  simp only [Bool.and_eq_true, decide_eq_true_eq] at done output'
  have there := frozen.activities n a found done.1
  rw [found'] at there
  cases there
  exact differ (done.2.symm.trans output')

/-- The timeout is dispatched, then the worker reports; the failure the timeout asks for is caught
    before the report is read. -/
def caughtFirst : List Action := oneClaim ++ appends [timeout] ++ leads 1 ++ appends [report] ++ leads 1

theorem caughtFirst_calm : Calm caughtFirst :=
  (((oneClaim_calm.append (appends_calm _)).append (leads_calm _)).append (appends_calm _)).append
    (leads_calm _)

/-- The report is recorded on the activity that completed without it. -/
theorem late_report_changes_activity :
    ∃ w w', Run.Reach (World.step (host true catching)) (fun _ a => a.FaultFree) .init w ∧
      Run.Reach (World.step (host true catching)) (fun _ a => a.FaultFree) w w' ∧
      ¬w.storage.rows.Frozen w'.storage.rows :=
  ⟨after true catching caughtFirst,
    Run.script (World.step (host true catching)) (after true catching caughtFirst) (leads 1),
    reach_after fun _ => caughtFirst_calm, Run.reach_script fun _ => leads_calm 1,
    Projection.not_frozen (n := firstActivity.name) (x := some .null) (y := some (.bool true))
      (by decide) (by decide +kernel) (by decide +kernel)⟩

/-! ## Ownership -/

namespace Projection

/-- The recorded owner of a thread or an activity. -/
inductive Holds (p : Projection) : RawObjectRef → RawObjectRef → Prop
  | thread {t} (found : p.threads.lookup t.metadata.name = some t) :
      Holds p t.metadata.owner.raw t.objectRef.raw
  | activity {a} (found : p.activities.lookup a.metadata.name = some a) :
      Holds p a.metadata.owner.raw a.objectRef.raw

/-- A row that is there, not over, and its recorded owner. -/
inductive HoldsLive (p : Projection) : RawObjectRef → RawObjectRef → Prop
  | thread {t} (found : p.threads.lookup t.metadata.name = some t)
      (live : t.status.isTerminal = false) : HoldsLive p t.metadata.owner.raw t.objectRef.raw
  | activity {a} (found : p.activities.lookup a.metadata.name = some a)
      (live : a.status.isTerminal = false) : HoldsLive p a.metadata.owner.raw a.objectRef.raw
  | task {t} (found : p.tasks.lookup t.metadata.name = some t)
      (live : t.status.isTerminal = false) : HoldsLive p t.metadata.owner.raw t.objectRef.raw

/-- An execution, a thread or an activity that is over. -/
inductive Ended (p : Projection) : RawObjectRef → Prop
  | execution {e} (found : p.executions.lookup e.metadata.name = some e)
      (ended : e.status.isTerminal = true) : Ended p e.objectRef.raw
  | thread {t} (found : p.threads.lookup t.metadata.name = some t)
      (ended : t.status.isTerminal = true) : Ended p t.objectRef.raw
  | activity {a} (found : p.activities.lookup a.metadata.name = some a)
      (ended : a.status.isTerminal = true) : Ended p a.objectRef.raw

theorem HoldsLive.of_node {n} (found : p.node child.key = some n) (id : n.id = child)
    (owner : n.owner = some parent) (live : n.live = true) : p.HoldsLive parent child := by
  obtain ⟨kind, name, uid⟩ := child
  cases kind with
  | execution =>
    obtain ⟨e, -, rfl⟩ := Option.map_eq_some_iff.mp found
    cases owner
  | thread =>
    obtain ⟨t, there, rfl⟩ := Option.map_eq_some_iff.mp found
    rw [← id, ← Option.some.inj owner]
    cases id
    exact .thread there (by simpa [Thread.node] using live)
  | activity =>
    obtain ⟨a, there, rfl⟩ := Option.map_eq_some_iff.mp found
    rw [← id, ← Option.some.inj owner]
    cases id
    exact .activity there (by simpa [Activity.node] using live)
  | task =>
    obtain ⟨t, there, rfl⟩ := Option.map_eq_some_iff.mp found
    rw [← id, ← Option.some.inj owner]
    cases id
    exact .task there (by simpa [Task.node] using live)
  | flow | flowVersion => cases found

theorem HoldsLive.node (holds : p.HoldsLive parent child) :
    ∃ n, p.node child.key = some n ∧ n.id = child ∧ n.owner = some parent ∧ n.live = true := by
  cases holds with
  | @thread t found live => exact ⟨t.node, node_thread found, rfl, rfl, by simp [Thread.node, live]⟩
  | @activity a found live =>
    exact ⟨a.node, node_activity found, rfl, rfl, by simp [Activity.node, live]⟩
  | @task t found live => exact ⟨t.node, node_task found, rfl, rfl, by simp [Task.node, live]⟩

theorem Ended.node (ended : p.Ended r) : ∃ n, p.node r.key = some n ∧ n.live = false := by
  cases ended with
  | @execution e found done => exact ⟨e.node, node_execution found, by simp [Execution.node, done]⟩
  | @thread t found done => exact ⟨t.node, node_thread found, by simp [Thread.node, done]⟩
  | @activity a found done => exact ⟨a.node, node_activity found, by simp [Activity.node, done]⟩

theorem Holds.node (holds : p.Holds parent child) :
    Held child.key ∧ ∃ n, p.node child.key = some n ∧ n.id = child ∧ n.owner = some parent := by
  cases holds with
  | @thread t found => exact ⟨.inl rfl, t.node, node_thread found, rfl, rfl⟩
  | @activity a found => exact ⟨.inr rfl, a.node, node_activity found, rfl, rfl⟩

theorem Holds.ended (holds : p.Holds parent child)
    (done : ∀ n, p.node child.key = some n → n.live = false) : p.Ended child := by
  cases holds with
  | @thread t found => exact .thread found (by simpa [Thread.node] using done _ (node_thread found))
  | @activity a found =>
    exact .activity found (by simpa [Activity.node] using done _ (node_activity found))

/-- What lies below an object is what lies below its node in the forest. -/
theorem below_of_holds {r'} (below : Relation.TransGen p.Holds r r') :
    Forest.Below RawObjectRef.key Held p.forest r r' := by
  induction below with
  | single holds =>
    obtain ⟨held, n, found, id, owner⟩ := holds.node
    exact .child held found id owner
  | tail _ holds ih =>
    obtain ⟨held, n, found, id, owner⟩ := holds.node
    exact .deeper ih held found id owner

/-- Ownership edges mirror liveness. -/
structure Mirrored (p : Projection) : Prop where
  edges : ∀ parent child, (parent, child) ∈ p.children ↔ p.HoldsLive parent child
  oneOwner : ∀ parent parent' child, (parent, child) ∈ p.children →
    (parent', child) ∈ p.children → parent' = parent
  settled : ∀ r r', Relation.TransGen p.Holds r r' → p.Ended r → p.Ended r'

theorem Owned.mirrored (owned : p.Owned) : p.Mirrored where
  edges parent child := by
    refine Iff.trans (Forest.Sound.mirrors owned parent child) ⟨?_, HoldsLive.node⟩
    rintro ⟨n, found, id, owner, live⟩
    exact .of_node found id owner live
  oneOwner parent parent' child edge edge' := Forest.Sound.unique_owner owned edge' edge
  settled r r' below ended := by
    obtain ⟨n, found, done⟩ := ended.node
    have settled := Forest.Sound.below_settled owned (below_of_holds below) (fun m there _ => by
      have there : p.node r.key = some m := there
      rw [found] at there
      cases there
      exact done)
    obtain ⟨mid, -, last⟩ := Relation.TransGen.tail'_iff.mp below
    refine last.ended fun n there => ?_
    obtain ⟨-, m, there', id, -⟩ := last.node
    rw [there'] at there
    cases there
    exact settled _ there' id

end Projection

namespace World

variable {w : World}

/-- In every committed state of a run without storage faults, restarts included. -/
theorem ownership_mirrors_liveness (debug : env.debug = true) (run : Runs env init w) :
    w.storage.rows.Mirrored :=
  (Lawful.reach debug (run.spared.weaken fun _ _ spared => ⟨spared, False.elim⟩)).sound.owned.mirrored

/-- A Task in flight: its edge and those of its owners are there. -/
theorem ownership_mirrors_liveness_claim :
    (after true catching oneClaim).storage.rows.children.length = 3 ∧
      (after true catching oneClaim).storage.rows.Mirrored :=
  ⟨by decide +kernel, ownership_mirrors_liveness rfl (reach_after fun _ => oneClaim_calm)⟩

end World

end Spica
