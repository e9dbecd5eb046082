import Spica.Fold

/-! # Replaying a log

Folding the events of a log through the appliers, in log order and each with its entry's own
timestamp. What a replay computes does not depend on the counter of generated names, which the
live path advances on its own: `Replays.content` moves a replay to any projection that differs
in the counter only.
-/

namespace Spica

/-- Fold the events of the entries. `none` when a fold fails. -/
def replay (b : Backend) (p : Projection) : List Entry → Option Projection
  | [] => some p
  | e :: es =>
    match e.event? with
    | none => replay b p es
    | some ev =>
      match (dispatchEvent e.timestamp ev).run Txn.interpret b ⟨p, 0⟩ with
      | (.ok (), txn) => replay b txn.rows es
      | (.error _, _) => none

/-- Without faults, replaying the entries over `p` gives `q`. -/
def Replays (p : Projection) (es : List Entry) (q : Projection) : Prop :=
  ∀ b : Backend, b.FaultFree → replay b p es = some q

variable {p p' q r : Projection} {e : Entry} {es fs : List Entry} {ev : Event} {ts : Timestamp}

namespace Replays

protected theorem nil : Replays p [] p := fun _ _ => rfl

theorem event (isEvent : e.event? = some ev) (folds : ev.Folds p)
    (rest : Replays (ev.apply e.timestamp p) es q) : Replays p (e :: es) q := by
  intro b ff
  obtain ⟨m, ran⟩ := dispatchEvent_computes e.timestamp folds b ff 0
  simp only [replay, isEvent, ran]
  exact rest b ff

theorem skip (noEvent : e.event? = none) (rest : Replays p es q) : Replays p (e :: es) q := by
  intro b ff
  simp only [replay, noEvent]
  exact rest b ff

/-- A backend that never fails and enumerates in no particular order. -/
def quietBackend : Backend := ⟨fun _ => none, fun _ => .asIs _, fun _ => .asIs _⟩

theorem quietBackend_faultFree : quietBackend.FaultFree := fun _ => rfl

/-- Inversion: an event folds and the rest replays over its effect. -/
theorem event_inv (isEvent : e.event? = some ev) (all : Replays p (e :: es) q) :
    ev.Folds p ∧ Replays (ev.apply e.timestamp p) es q := by
  have folds : ev.Folds p := by
    by_contra stuck
    obtain ⟨msg, s, ran⟩ := dispatchEvent_panics e.timestamp stuck quietBackend
      quietBackend_faultFree 0
    have := all quietBackend quietBackend_faultFree
    simp [replay, isEvent, ran] at this
  refine ⟨folds, fun b ff => ?_⟩
  obtain ⟨m, ran⟩ := dispatchEvent_computes e.timestamp folds b ff 0
  have := all b ff
  simpa only [replay, isEvent, ran] using this

theorem skip_inv (noEvent : e.event? = none) (all : Replays p (e :: es) q) : Replays p es q := by
  intro b ff
  have := all b ff
  simpa only [replay, noEvent] using this

theorem append (first : Replays p es q) (rest : Replays q fs r) : Replays p (es ++ fs) r := by
  induction es generalizing p with
  | nil =>
    have same := first quietBackend quietBackend_faultFree
    cases same
    exact rest
  | cons e es ih =>
    cases isEvent : e.event? with
    | none => exact .skip isEvent (ih (skip_inv isEvent first))
    | some ev =>
      obtain ⟨folds, first⟩ := event_inv isEvent first
      exact .event isEvent folds (ih first)

/-- A replay of a log goes through every prefix of it. -/
theorem split (all : Replays p (es ++ fs) r) : ∃ q, Replays p es q ∧ Replays q fs r := by
  induction es generalizing p with
  | nil => exact ⟨p, .nil, all⟩
  | cons e es ih =>
    cases isEvent : e.event? with
    | none =>
      obtain ⟨q, first, rest⟩ := ih (skip_inv isEvent all)
      exact ⟨q, .skip isEvent first, rest⟩
    | some ev =>
      obtain ⟨folds, all⟩ := event_inv isEvent all
      obtain ⟨q, first, rest⟩ := ih all
      exact ⟨q, .event isEvent folds first, rest⟩

/-- Entries without events change nothing. -/
theorem quiet (noEvents : ∀ e ∈ es, e.event? = none) : Replays p es p := by
  induction es with
  | nil => exact .nil
  | cons e es ih =>
    exact .skip (noEvents e (by simp)) (ih fun e member => noEvents e (by simp [member]))

/-- A replay has one result. -/
theorem unique (one : Replays p es q) (other : Replays p es r) : q = r := by
  have same := one quietBackend quietBackend_faultFree
  rw [other quietBackend quietBackend_faultFree] at same
  exact (Option.some.inj same).symm

end Replays

/-! ## The counter does not matter -/

namespace Projection

/-- Two projections differ in the counter only. -/
theorem content_eq_iff : p.content = q.content ↔ ∃ n, q = p.putNextGeneratedSeq n := by
  constructor
  · intro same
    refine ⟨q.nextGeneratedSeq, ?_⟩
    cases p
    cases q
    simp only [content, mk.injEq] at same
    simp only [putNextGeneratedSeq, mk.injEq, and_true]
    exact ⟨same.1.symm, same.2.1.symm, same.2.2.1.symm, same.2.2.2.1.symm, same.2.2.2.2.1.symm,
      same.2.2.2.2.2.1.symm, same.2.2.2.2.2.2.1.symm, same.2.2.2.2.2.2.2.1.symm⟩
  · rintro ⟨n, rfl⟩
    rfl

section counter

variable {n : Nat}

/-! Every effect commutes with setting the counter, except a bump, which sets it anew. -/

@[simp] theorem seq_getExecution (r : ObjectRef .execution) :
    (p.putNextGeneratedSeq n).getExecution r = p.getExecution r := rfl

@[simp] theorem seq_getThread (r : ObjectRef .thread) :
    (p.putNextGeneratedSeq n).getThread r = p.getThread r := rfl

@[simp] theorem seq_getVariables (r : ObjectRef .thread) :
    (p.putNextGeneratedSeq n).getVariables r = p.getVariables r := rfl

@[simp] theorem seq_getActivity (r : ObjectRef .activity) :
    (p.putNextGeneratedSeq n).getActivity r = p.getActivity r := rfl

@[simp] theorem seq_getTask (r : ObjectRef .task) :
    (p.putNextGeneratedSeq n).getTask r = p.getTask r := rfl

@[simp] theorem seq_putExecution (e : Execution) :
    (p.putNextGeneratedSeq n).putExecution e = (p.putExecution e).putNextGeneratedSeq n := rfl

@[simp] theorem seq_putThread (t : Thread) :
    (p.putNextGeneratedSeq n).putThread t = (p.putThread t).putNextGeneratedSeq n := rfl

@[simp] theorem seq_putVariables (r : ObjectRef .thread) (vars : Variables) :
    (p.putNextGeneratedSeq n).putVariables r vars =
      (p.putVariables r vars).putNextGeneratedSeq n := rfl

@[simp] theorem seq_putActivity (a : Activity) :
    (p.putNextGeneratedSeq n).putActivity a = (p.putActivity a).putNextGeneratedSeq n := rfl

@[simp] theorem seq_putTask (t : Task) :
    (p.putNextGeneratedSeq n).putTask t = (p.putTask t).putNextGeneratedSeq n := rfl

@[simp] theorem seq_putFlowVersion (v : FlowVersion) :
    (p.putNextGeneratedSeq n).putFlowVersion v =
      (p.putFlowVersion v).putNextGeneratedSeq n := rfl

@[simp] theorem seq_addChild (parent child : RawObjectRef) :
    (p.putNextGeneratedSeq n).addChild parent child =
      (p.addChild parent child).putNextGeneratedSeq n := rfl

@[simp] theorem seq_removeChild (parent child : RawObjectRef) :
    (p.putNextGeneratedSeq n).removeChild parent child =
      (p.removeChild parent child).putNextGeneratedSeq n := rfl

@[simp] theorem seq_flowOf (name : FlowName) (v : FlowVersion) :
    (p.putNextGeneratedSeq n).flowOf name v = p.flowOf name v := rfl

@[simp] theorem seq_fileFlow (f : Flow) :
    (p.putNextGeneratedSeq n).fileFlow f = (p.fileFlow f).putNextGeneratedSeq n := by
  unfold fileFlow
  cases f.metadata.name.asPlain <;> rfl

@[simp] theorem seq_onExecution (r : ObjectRef .execution) (f : Execution → Execution) :
    (p.putNextGeneratedSeq n).onExecution r f = (p.onExecution r f).putNextGeneratedSeq n := by
  unfold onExecution
  rw [seq_getExecution]
  cases p.getExecution r <;> rfl

@[simp] theorem seq_onThread (r : ObjectRef .thread) (f : Thread → Thread) :
    (p.putNextGeneratedSeq n).onThread r f = (p.onThread r f).putNextGeneratedSeq n := by
  unfold onThread
  rw [seq_getThread]
  cases p.getThread r <;> rfl

@[simp] theorem seq_onActivity (r : ObjectRef .activity) (f : Activity → Activity) :
    (p.putNextGeneratedSeq n).onActivity r f = (p.onActivity r f).putNextGeneratedSeq n := by
  unfold onActivity
  rw [seq_getActivity]
  cases p.getActivity r <;> rfl

@[simp] theorem seq_settleThread (r : ObjectRef .thread) (f : Thread → Thread) :
    (p.putNextGeneratedSeq n).settleThread r f = (p.settleThread r f).putNextGeneratedSeq n := by
  unfold settleThread
  rw [seq_getThread]
  cases p.getThread r <;> rfl

@[simp] theorem seq_settleActivity (a : Activity) :
    (p.putNextGeneratedSeq n).settleActivity a = (p.settleActivity a).putNextGeneratedSeq n := by
  unfold settleActivity
  rw [seq_getActivity]
  cases p.getActivity a.objectRef <;> rfl

@[simp] theorem seq_claimTask (t : Task) :
    (p.putNextGeneratedSeq n).claimTask ts t = (p.claimTask ts t).putNextGeneratedSeq n := by
  unfold claimTask
  rw [seq_getTask]
  cases p.getTask t.objectRef with
  | none => rfl
  | some row =>
    dsimp only
    split <;> rfl

theorem seq_claimTasks (tasks : List Task) :
    tasks.foldl (claimTask ts) (p.putNextGeneratedSeq n) =
      (tasks.foldl (claimTask ts) p).putNextGeneratedSeq n := by
  induction tasks generalizing p with
  | nil => rfl
  | cons t tasks ih => simp only [List.foldl_cons, seq_claimTask, ih]

@[simp] theorem seq_completeTask (t : Task) (output : Json) :
    (p.putNextGeneratedSeq n).completeTask ts t output =
      (p.completeTask ts t output).putNextGeneratedSeq n := by
  unfold completeTask
  rw [seq_getTask]
  cases p.getTask t.objectRef with
  | none => rfl
  | some row => simp

@[simp] theorem seq_failTask (t : Task) :
    (p.putNextGeneratedSeq n).failTask ts t = (p.failTask ts t).putNextGeneratedSeq n := by
  unfold failTask
  rw [seq_getTask]
  cases p.getTask t.objectRef with
  | none => rfl
  | some row =>
    dsimp only
    split <;> simp

@[simp] theorem seq_cancelTask (t : Task) :
    (p.putNextGeneratedSeq n).cancelTask t = (p.cancelTask t).putNextGeneratedSeq n := by
  unfold cancelTask
  rw [seq_getTask]
  cases p.getTask t.objectRef <;> rfl

@[simp] theorem seq_inheritScope (t : Thread) :
    (p.putNextGeneratedSeq n).inheritScope t = (p.inheritScope t).putNextGeneratedSeq n := by
  unfold inheritScope
  cases t.metadata.owner with
  | execution r => rfl
  | activity r =>
    simp only [seq_getActivity]
    cases p.getActivity r <;> rfl

@[simp] theorem seq_recordFanOut (t : Thread) :
    (p.putNextGeneratedSeq n).recordFanOut ts t = (p.recordFanOut ts t).putNextGeneratedSeq n := by
  unfold recordFanOut
  cases t.metadata.owner with
  | execution r => rfl
  | activity r =>
    simp only [seq_getActivity]
    cases p.getActivity r with
    | none => rfl
    | some act =>
      dsimp only
      cases Applier.recordChild act.activityState t.index t.objectRef <;> rfl

@[simp] theorem seq_createFlowVersion (v : FlowVersion) :
    (p.putNextGeneratedSeq n).createFlowVersion ts v =
      (p.createFlowVersion ts v).putNextGeneratedSeq n := by
  unfold createFlowVersion
  cases v.flowName <;> simp

theorem seq_bump (name : ObjectName) :
    (p.putNextGeneratedSeq n).bump name = (p.bump name).putNextGeneratedSeq (raised n name) := rfl

end counter

end Projection

/-- What an event makes of the counter. -/
def Event.raised (ev : Event) (n : Nat) : Nat :=
  match ev.bornName with
  | some name => Projection.raised n name
  | none => n

/-- An event has the same effect whatever the counter is. -/
theorem Event.apply_seq (ev : Event) (p : Projection) (n : Nat) :
    ev.apply ts (p.putNextGeneratedSeq n) = (ev.apply ts p).putNextGeneratedSeq (ev.raised n) := by
  cases ev with
  | stateActivating a => simp [Event.apply, Projection.seq_bump, Event.raised, Event.bornName]
  | taskActivated t => simp [Event.apply, Projection.seq_bump, Event.raised, Event.bornName]
  | threadCreated t =>
    simp [Event.apply, Projection.createThread, Projection.seq_bump, Event.raised, Event.bornName]
  | stateTransitioned => rfl
  | tasksClaimed _ tasks => exact Projection.seq_claimTasks tasks
  | _ => simp [Event.apply, Event.raised, Event.bornName]

/-- The counter an event leaves. -/
theorem Event.apply_counter (ev : Event) (p : Projection) (ts : Timestamp) :
    (ev.apply ts p).nextGeneratedSeq = ev.raised p.nextGeneratedSeq :=
  congrArg Projection.nextGeneratedSeq (ev.apply_seq p p.nextGeneratedSeq)

theorem Event.apply_content (same : p.content = p'.content) :
    (ev.apply ts p).content = (ev.apply ts p').content := by
  obtain ⟨n, rfl⟩ := Projection.content_eq_iff.mp same
  exact Projection.content_eq_iff.mpr ⟨_, ev.apply_seq p n⟩

theorem Event.folds_content (same : p.content = p'.content) : ev.Folds p ↔ ev.Folds p' := by
  obtain ⟨n, rfl⟩ := Projection.content_eq_iff.mp same
  cases ev <;> rfl

/-- A replay can be started from any projection with the same content. -/
theorem Replays.content (same : p.content = p'.content) (all : Replays p es q) :
    ∃ q', Replays p' es q' ∧ q.content = q'.content := by
  induction es generalizing p p' with
  | nil =>
    cases all Replays.quietBackend Replays.quietBackend_faultFree
    exact ⟨p', .nil, same⟩
  | cons e es ih =>
    cases isEvent : e.event? with
    | none =>
      obtain ⟨q', rest, same⟩ := ih same (Replays.skip_inv isEvent all)
      exact ⟨q', .skip isEvent rest, same⟩
    | some ev =>
      obtain ⟨folds, rest⟩ := Replays.event_inv isEvent all
      obtain ⟨q', rest, same'⟩ := ih (Event.apply_content same) rest
      exact ⟨q', .event isEvent ((Event.folds_content same).mp folds) rest, same'⟩

end Spica
