import Spica.Lib.Forest
import Spica.Fold

/-! # How rows change

The lifecycle relations of the four kinds of objects, what no change of a row may touch, and the
ownership forest of a projection.
-/

namespace Spica

variable {s s' : Status} {ω : Type} {e e' : Execution} {a a' : Activity} {r : ObjectRef .thread}
    {parent child x y : RawObjectRef}

/-! ## Lifecycles -/

/-- One step in the life of an execution or a thread. -/
inductive Status.Step : Status → Status → Prop
  | completing : Step .running .completing
  | completed : Step .completing .completed
  | terminating (r : TerminationReason) : Step .running (.terminating r)
  | terminated (r : TerminationReason) : Step (.terminating r) (.terminated r)

/-- One step in the life of an activity: a completion may fail, and a caught failure completes an
    activity that still runs. -/
inductive Status.ActivityStep : Status → Status → Prop
  | shared {s s' : Status} : s.Step s' → ActivityStep s s'
  | failed (r : TerminationReason) : ActivityStep .completing (.terminating r)
  | caught : ActivityStep .running .completed

/-- A task goes to and fro between Pending and Running and settles once. -/
def TaskStatus.Step (s s' : TaskStatus) : Prop :=
  s.isTerminal = false ∧ (s'.isTerminal ∨ s' = .pending ∨ s' = .running)

theorem Status.Step.not_terminal (step : s.Step s') : s.isTerminal = false := by
  cases step <;> rfl

theorem Status.ActivityStep.not_terminal (step : s.ActivityStep s') : s.isTerminal = false := by
  cases step with
  | shared step => exact step.not_terminal
  | failed | caught => rfl

/-! ## What stays -/

theorem ObjectMeta.SameIdentity.refl (m : ObjectMeta ω) : m.SameIdentity m :=
  ⟨rfl, rfl, rfl, rfl, rfl, rfl⟩

@[simp] theorem ObjectMeta.sameIdentity_withUpdateAt (m : ObjectMeta ω) (at_ : Timestamp) :
    m.SameIdentity (m.withUpdateAt at_) := ⟨rfl, rfl, rfl, rfl, rfl, rfl⟩

theorem ObjectMeta.SameIdentity.objectRef {m n : ObjectMeta ω} (same : m.SameIdentity n)
    (k : ObjectKind) : n.objectRef k = m.objectRef k := by
  obtain ⟨-, -, name, uid, -, -⟩ := same
  simp [ObjectMeta.objectRef, name, uid]

/-- What an execution keeps for life. -/
structure Execution.Same (e e' : Execution) : Prop where
  identity : e.metadata.SameIdentity e'.metadata
  flowVersion : e'.flowVersion = e.flowVersion

structure Thread.Same (t t' : Thread) : Prop where
  identity : t.metadata.SameIdentity t'.metadata
  execution : t'.execution = t.execution
  statePath : t'.statePath = t.statePath

/-- The activity records threads of its own: it belongs to a Parallel or a Map state. -/
def Activity.fansOut (a : Activity) : Bool :=
  match a.activityState with
  | some (.parallel _) | some (.map _) => true
  | some (.wait _) | none => false

structure Activity.Same (a a' : Activity) : Prop where
  identity : a.metadata.SameIdentity a'.metadata
  execution : a'.execution = a.execution
  statePath : a'.statePath = a.statePath
  fansOut : a'.fansOut = a.fansOut

structure Task.Same (t t' : Task) : Prop where
  identity : t.metadata.SameIdentity t'.metadata
  execution : t'.execution = t.execution

/-- One change of an execution's row. -/
def Execution.Moves (e e' : Execution) : Prop := e' = e ∨ e.Same e' ∧ e.status.Step e'.status

def Thread.Moves (t t' : Thread) : Prop := t' = t ∨ t.Same t' ∧ t.status.Step t'.status

/-- An activity's row also changes within a phase: its input is resolved, a thread is recorded or a
    task reports. -/
def Activity.Moves (a a' : Activity) : Prop :=
  a' = a ∨ a.Same a' ∧ (a'.status = a.status ∨ a.status.ActivityStep a'.status)

def Task.Moves (t t' : Task) : Prop := t' = t ∨ t.Same t' ∧ t.status.Step t'.status

theorem ObjectMeta.SameIdentity.trans {l m n : ObjectMeta ω} (first : l.SameIdentity m)
    (second : m.SameIdentity n) : l.SameIdentity n := by
  obtain ⟨tenant, ns, name, uid, createdAt, owner⟩ := first
  obtain ⟨tenant', ns', name', uid', createdAt', owner'⟩ := second
  exact ⟨tenant.trans tenant', ns.trans ns', name.trans name', uid.trans uid',
    createdAt.trans createdAt', owner.trans owner'⟩

/-! What a row keeps through one move it keeps through any number. -/

theorem Execution.Same.refl (e : Execution) : e.Same e := ⟨.refl _, rfl⟩

theorem Thread.Same.refl (t : Thread) : t.Same t := ⟨.refl _, rfl, rfl⟩

theorem Activity.Same.refl (a : Activity) : a.Same a := ⟨.refl _, rfl, rfl, rfl⟩

theorem Task.Same.refl (t : Task) : t.Same t := ⟨.refl _, rfl⟩

theorem Execution.Same.trans {d f : Execution} (first : d.Same e) (second : e.Same f) : d.Same f :=
  ⟨first.identity.trans second.identity, second.flowVersion.trans first.flowVersion⟩

theorem Thread.Same.trans {s t u : Thread} (first : s.Same t) (second : t.Same u) : s.Same u :=
  ⟨first.identity.trans second.identity, second.execution.trans first.execution,
    second.statePath.trans first.statePath⟩

theorem Activity.Same.trans {b c : Activity} (first : a.Same b) (second : b.Same c) : a.Same c :=
  ⟨first.identity.trans second.identity, second.execution.trans first.execution,
    second.statePath.trans first.statePath, second.fansOut.trans first.fansOut⟩

theorem Task.Same.trans {s t u : Task} (first : s.Same t) (second : t.Same u) : s.Same u :=
  ⟨first.identity.trans second.identity, second.execution.trans first.execution⟩

theorem Execution.Moves.same (moves : e.Moves e') : e.Same e' := by
  rcases moves with rfl | ⟨same, -⟩
  · exact .refl _
  · exact same

theorem Thread.Moves.same {t t' : Thread} (moves : t.Moves t') : t.Same t' := by
  rcases moves with rfl | ⟨same, -⟩
  · exact .refl _
  · exact same

theorem Activity.Moves.same (moves : a.Moves a') : a.Same a' := by
  rcases moves with rfl | ⟨same, -⟩
  · exact .refl _
  · exact same

theorem Task.Moves.same {t t' : Task} (moves : t.Moves t') : t.Same t' := by
  rcases moves with rfl | ⟨same, -⟩
  · exact .refl _
  · exact same

/-- An activity whose life is over keeps its status. -/
theorem Activity.Moves.settled (moves : a.Moves a') (ended : a.status.isTerminal = true) :
    a'.status = a.status := by
  rcases moves with rfl | ⟨-, stays | step⟩
  · rfl
  · exact stays
  · rw [step.not_terminal] at ended
    cases ended

/-! Executions, threads and tasks change by a step of their lifecycle only. -/

theorem Execution.Moves.ended (moves : e.Moves e') (ended : e.status.isTerminal = true) :
    e' = e := by
  rcases moves with same | ⟨-, step⟩
  · exact same
  · rw [step.not_terminal] at ended
    cases ended

theorem Thread.Moves.ended {t t' : Thread} (moves : t.Moves t')
    (ended : t.status.isTerminal = true) : t' = t := by
  rcases moves with same | ⟨-, step⟩
  · exact same
  · rw [step.not_terminal] at ended
    cases ended

theorem Task.Moves.ended {t t' : Task} (moves : t.Moves t')
    (ended : t.status.isTerminal = true) : t' = t := by
  rcases moves with same | ⟨-, step⟩
  · exact same
  · rw [step.1] at ended
    cases ended

theorem Task.claimable_not_terminal {t : Task} {at_} (claimable : t.isClaimableAt at_) :
    t.status.isTerminal = false := by
  unfold Task.isClaimableAt at claimable
  cases status : t.status with
  | pending | running => rfl
  | completed | failed | cancelled => rw [status] at claimable; cases claimable

/-- Any number of claims of one task. -/
def Task.Claims (t t' : Task) : Prop :=
  t' = t ∨ t.Same t' ∧ t.status.isTerminal = false ∧ t'.status = .running

theorem Task.Claims.claimed {t row : Task} (claims : t.Claims row) (granted : Task)
    (open_ : row.status.isTerminal = false) : t.Claims (Applier.claimedRow row granted) := by
  have same : row.Same (Applier.claimedRow row granted) :=
    ⟨ObjectMeta.sameIdentity_withUpdateAt _ _, rfl⟩
  rcases claims with rfl | ⟨before, was, -⟩
  · exact .inr ⟨same, open_, rfl⟩
  · exact .inr ⟨⟨before.identity, same.execution.trans before.execution⟩, was, rfl⟩

/-- They make one move of it. -/
theorem Task.Claims.moves {t t' : Task} (claims : t.Claims t') : t.Moves t' := by
  rcases claims with rfl | ⟨same, open_, running⟩
  · exact .inl rfl
  · exact .inr ⟨same, open_, .inr (.inr running)⟩

/-! ## Tables -/

/-- What may become of one cell of a table. -/
inductive Cell {ν : Type} (moves : ν → ν → Prop) (starts : ν → Prop) : Option ν → Option ν → Prop
  | absent : Cell moves starts none none
  | born {v} : starts v → Cell moves starts none (some v)
  | kept {v v'} : moves v v' → Cell moves starts (some v) (some v')

theorem Cell.mono {ν : Type} {moves moves' : ν → ν → Prop} {starts starts' c c'}
    (cell : Cell moves starts c c') (moved : ∀ v v', moves v v' → moves' v v')
    (started : ∀ v, starts v → starts' v) : Cell moves' starts' c c' := by
  cases cell with
  | absent => exact .absent
  | born starts => exact .born (started _ starts)
  | kept moves => exact .kept (moved _ _ moves)

/-- No row disappears, every row that changes moves, and every new row starts. -/
def Table.Evolves {κ ν : Type} [DecidableEq κ] (moves : ν → ν → Prop) (starts : κ → ν → Prop)
    (t t' : Table κ ν) : Prop :=
  ∀ k, Cell moves (starts k) (t.lookup k) (t'.lookup k)

namespace Table.Evolves

variable {κ ν : Type} [DecidableEq κ] {moves moves' : ν → ν → Prop} {starts starts' : κ → ν → Prop}
  {t t' : Table κ ν} {k : κ} {v v' : ν}

theorem refl (stays : ∀ v, moves v v) : Evolves moves starts t t := by
  intro k
  cases t.lookup k with
  | none => exact .absent
  | some v => exact .kept (stays v)

theorem insert (stays : ∀ v, moves v v) (cell : Cell moves (starts k) (t.lookup k) (some v)) :
    Evolves moves starts t (t.insert k v) := by
  intro k'
  by_cases same : k' = k
  · subst same
    rwa [AList.lookup_insert]
  · rw [AList.lookup_insert_ne same]
    exact refl stays k'

theorem mono (evolves : Evolves moves starts t t') (moved : ∀ v v', moves v v' → moves' v v')
    (started : ∀ k v, starts k v → starts' k v) : Evolves moves' starts' t t' :=
  fun k => (evolves k).mono moved (started k)

theorem row (evolves : Evolves moves starts t t') (found : t.lookup k = some v) :
    ∃ v', t'.lookup k = some v' ∧ moves v v' := by
  have cell := evolves k
  rw [found] at cell
  cases after : t'.lookup k with
  | none => rw [after] at cell; cases cell
  | some v' =>
    rw [after] at cell
    cases cell with
    | kept moves => exact ⟨v', rfl, moves⟩

/-- A row is new, or comes from one that was there. -/
theorem inv (evolves : Evolves moves starts t t') (found : t'.lookup k = some v) :
    t.lookup k = none ∧ starts k v ∨ ∃ v₀, t.lookup k = some v₀ ∧ moves v₀ v := by
  have cell := evolves k
  rw [found] at cell
  cases before : t.lookup k with
  | none =>
    rw [before] at cell
    cases cell with
    | born starts => exact .inl ⟨rfl, starts⟩
  | some v₀ =>
    rw [before] at cell
    cases cell with
    | kept moves => exact .inr ⟨v₀, rfl, moves⟩

/-- A row that cannot move stays. -/
theorem stays (evolves : Evolves moves starts t t') (found : t.lookup k = some v)
    (ended : ∀ v', moves v v' → v' = v) : t'.lookup k = some v := by
  obtain ⟨v', found', moved⟩ := evolves.row found
  rw [found', ended v' moved]

end Table.Evolves

/-! ## The ownership forest -/

/-- What storage files a reference under. -/
def RawObjectRef.key (r : RawObjectRef) : ObjectKind × ObjectName := (r.kind, r.name)

/-- Threads and activities are held by their owner; a task may outlive a caught activity. -/
def Held (k : ObjectKind × ObjectName) : Prop := k.1 = .thread ∨ k.1 = .activity

def Execution.node (e : Execution) : Forest.Node RawObjectRef :=
  ⟨e.objectRef.raw, none, !e.status.isTerminal⟩

def Thread.node (t : Thread) : Forest.Node RawObjectRef :=
  ⟨t.objectRef.raw, some t.metadata.owner.raw, !t.status.isTerminal⟩

def Activity.node (a : Activity) : Forest.Node RawObjectRef :=
  ⟨a.objectRef.raw, some a.metadata.owner.raw, !a.status.isTerminal⟩

def Task.node (t : Task) : Forest.Node RawObjectRef :=
  ⟨t.objectRef.raw, some t.metadata.owner.raw, !t.status.isTerminal⟩

namespace Projection

/-! The updates of a row that is there. -/

theorem onExecution_some {p : Projection} {r row} (found : p.getExecution r = some row)
    (f : Execution → Execution) :
    p.onExecution r f = p.putExecution (f row) := by rw [onExecution, found]

theorem onThread_some {p : Projection} {row} (found : p.getThread r = some row)
    (f : Thread → Thread) : p.onThread r f = p.putThread (f row) := by rw [onThread, found]

theorem onActivity_some {p : Projection} {r row} (found : p.getActivity r = some row)
    (f : Activity → Activity) :
    p.onActivity r f = p.putActivity (f row) := by rw [onActivity, found]

theorem settleThread_some {p : Projection} {row} (found : p.getThread r = some row)
    (f : Thread → Thread) :
    p.settleThread r f = (p.putThread (f row)).removeChild row.metadata.owner.raw r.raw := by
  rw [settleThread, found]

theorem settleActivity_some {p : Projection} {row} (found : p.getActivity a.objectRef = some row) :
    p.settleActivity a = (p.putActivity a).removeChild row.metadata.owner.raw a.objectRef.raw := by
  rw [settleActivity, found]

/-- One view of the rows of all four kinds. -/
def view {α : Type} (onExecution : Execution → α) (onThread : Thread → α) (onActivity : Activity → α)
    (onTask : Task → α) (p : Projection) : ObjectKind × ObjectName → Option α
  | (.execution, n) => (p.executions.lookup n).map onExecution
  | (.thread, n) => (p.threads.lookup n).map onThread
  | (.activity, n) => (p.activities.lookup n).map onActivity
  | (.task, n) => (p.tasks.lookup n).map onTask
  | (.flow, _) | (.flowVersion, _) => none

section view

variable {α : Type} {fe : Execution → α} {ft : Thread → α} {fa : Activity → α} {fk : Task → α}
  {p : Projection}

theorem view_putExecution (e : Execution) : (p.putExecution e).view fe ft fa fk =
    Function.update (p.view fe ft fa fk) (.execution, e.metadata.name) (some (fe e)) := by
  funext ⟨kind, n⟩
  by_cases same : (kind, n) = (.execution, e.metadata.name)
  · cases same
    simp [view, putExecution]
  · rw [Function.update_of_ne same]
    cases kind <;> try rfl
    have other : n ≠ e.metadata.name := fun h => same (h ▸ rfl)
    simp [view, putExecution, AList.lookup_insert_ne other]

theorem view_putThread (t : Thread) : (p.putThread t).view fe ft fa fk =
    Function.update (p.view fe ft fa fk) (.thread, t.metadata.name) (some (ft t)) := by
  funext ⟨kind, n⟩
  by_cases same : (kind, n) = (.thread, t.metadata.name)
  · cases same
    simp [view, putThread]
  · rw [Function.update_of_ne same]
    cases kind <;> try rfl
    have other : n ≠ t.metadata.name := fun h => same (h ▸ rfl)
    simp [view, putThread, AList.lookup_insert_ne other]

theorem view_putActivity (a : Activity) : (p.putActivity a).view fe ft fa fk =
    Function.update (p.view fe ft fa fk) (.activity, a.metadata.name) (some (fa a)) := by
  funext ⟨kind, n⟩
  by_cases same : (kind, n) = (.activity, a.metadata.name)
  · cases same
    simp [view, putActivity]
  · rw [Function.update_of_ne same]
    cases kind <;> try rfl
    have other : n ≠ a.metadata.name := fun h => same (h ▸ rfl)
    simp [view, putActivity, AList.lookup_insert_ne other]

theorem view_putTask (t : Task) : (p.putTask t).view fe ft fa fk =
    Function.update (p.view fe ft fa fk) (.task, t.metadata.name) (some (fk t)) := by
  funext ⟨kind, n⟩
  by_cases same : (kind, n) = (.task, t.metadata.name)
  · cases same
    simp [view, putTask]
  · rw [Function.update_of_ne same]
    cases kind <;> try rfl
    have other : n ≠ t.metadata.name := fun h => same (h ▸ rfl)
    simp [view, putTask, AList.lookup_insert_ne other]

end view

def node (p : Projection) : ObjectKind × ObjectName → Option (Forest.Node RawObjectRef)
  | (.execution, n) => (p.executions.lookup n).map Execution.node
  | (.thread, n) => (p.threads.lookup n).map Thread.node
  | (.activity, n) => (p.activities.lookup n).map Activity.node
  | (.task, n) => (p.tasks.lookup n).map Task.node
  | (.flow, _) | (.flowVersion, _) => none

def forest (p : Projection) : Forest (ObjectKind × ObjectName) RawObjectRef where
  node := p.node
  edge parent child := (parent, child) ∈ p.children

variable {p p' : Projection}

theorem node_execution {n} (found : p.executions.lookup n = some e) :
    p.node (.execution, n) = some e.node := by simp [node, found]

theorem node_thread {n t} (found : p.threads.lookup n = some t) :
    p.node (.thread, n) = some t.node := by simp [node, found]

theorem node_activity {n} (found : p.activities.lookup n = some a) :
    p.node (.activity, n) = some a.node := by simp [node, found]

theorem node_task {n t} (found : p.tasks.lookup n = some t) :
    p.node (.task, n) = some t.node := by simp [node, found]

theorem node_eq_view (p : Projection) :
    p.node = p.view Execution.node Thread.node Activity.node Task.node := by
  funext ⟨kind, n⟩
  cases kind <;> rfl

theorem node_putExecution (e : Execution) : (p.putExecution e).node =
    Function.update p.node (.execution, e.metadata.name) (some e.node) := by
  rw [node_eq_view, node_eq_view, view_putExecution]

theorem node_putThread (t : Thread) : (p.putThread t).node =
    Function.update p.node (.thread, t.metadata.name) (some t.node) := by
  rw [node_eq_view, node_eq_view, view_putThread]

theorem node_putActivity (a : Activity) : (p.putActivity a).node =
    Function.update p.node (.activity, a.metadata.name) (some a.node) := by
  rw [node_eq_view, node_eq_view, view_putActivity]

theorem node_putTask (t : Task) : (p.putTask t).node =
    Function.update p.node (.task, t.metadata.name) (some t.node) := by
  rw [node_eq_view, node_eq_view, view_putTask]

/-! Rows are filed under their own names. -/

def Owned (p : Projection) : Prop := p.forest.Sound RawObjectRef.key Held

theorem Owned.execution_name (owned : p.Owned) {n} (found : p.executions.lookup n = some e) :
    e.metadata.name = n := by
  have filed := owned.filed (k := (.execution, n)) (n := e.node) (by simp [forest, node, found])
  exact congrArg Prod.snd filed

theorem Owned.thread_name (owned : p.Owned) {n t} (found : p.threads.lookup n = some t) :
    t.metadata.name = n := by
  have filed := owned.filed (k := (.thread, n)) (n := t.node) (by simp [forest, node, found])
  exact congrArg Prod.snd filed

theorem Owned.activity_name (owned : p.Owned) {n} (found : p.activities.lookup n = some a) :
    a.metadata.name = n := by
  have filed := owned.filed (k := (.activity, n)) (n := a.node) (by simp [forest, node, found])
  exact congrArg Prod.snd filed

theorem Owned.task_name (owned : p.Owned) {n t} (found : p.tasks.lookup n = some t) :
    t.metadata.name = n := by
  have filed := owned.filed (k := (.task, n)) (n := t.node) (by simp [forest, node, found])
  exact congrArg Prod.snd filed

/-! ### What a change of the tables does to the forest -/

variable {k : ObjectKind × ObjectName} {n : Forest.Node RawObjectRef}

/-- A row is put over one that stands in the forest as it does. -/
theorem Owned.kept (owned : p.Owned) (found : p.node k = some n)
    (nodes : p'.node = Function.update p.node k (some n)) (children : p'.children = p.children) :
    p'.Owned := by
  have same : p'.forest = p.forest := by
    rw [← found, Function.update_eq_self] at nodes
    simp only [forest, nodes, children]
  unfold Owned
  rwa [same]

theorem Owned.settled (owned : p.Owned) (found : p.node k = some n)
    (nodes : p'.node = Function.update p.node k (some { n with live := false }))
    (children : ∀ parent child, (parent, child) ∈ p'.children ↔
      (parent, child) ∈ p.children ∧ ¬(n.owner = some parent ∧ child = n.id))
    (drained : ∀ child, (n.id, child) ∈ p.children → ¬Held child.key) : p'.Owned := by
  have same : p'.forest = p.forest.settled k n := by
    simp only [forest, nodes, children, Forest.settled]
  unfold Owned
  rw [same]
  exact Forest.Sound.settled owned found drained

theorem Owned.born (owned : p.Owned) (fresh : p.node k = none) (filed : n.id.key = k)
    (live : n.live) (nodes : p'.node = Function.update p.node k (some n))
    (children : ∀ parent child, (parent, child) ∈ p'.children ↔
      (parent, child) ∈ p.children ∨ n.owner = some parent ∧ child = n.id)
    (owner : Held k → ∀ parent, n.owner = some parent →
      ∃ m, p.node parent.key = some m ∧ m.id = parent ∧ m.live) : p'.Owned := by
  have same : p'.forest = p.forest.born k n := by
    simp only [forest, nodes, children, Forest.born]
  unfold Owned
  rw [same]
  exact Forest.Sound.born owned fresh filed live owner

theorem mem_addChild :
    (x, y) ∈ (p.addChild parent child).children ↔ (x, y) ∈ p.children ∨ x = parent ∧ y = child := by
  simp [addChild, List.mem_insert_iff, or_comm]

theorem mem_removeChild :
    (x, y) ∈ (p.removeChild parent child).children ↔
      (x, y) ∈ p.children ∧ ¬(x = parent ∧ y = child) := by
  simp only [removeChild, List.mem_filter, decide_eq_true_eq, ne_eq, Prod.mk.injEq]

theorem mem_getChildren : child ∈ p.getChildren parent ↔ (parent, child) ∈ p.children := by
  simp [getChildren]

end Projection

/-! Rows that keep their identity stand in the forest as before, as long as they stay live. -/

theorem Execution.Same.node (same : e.Same e') :
    e'.node = { e.node with live := !e'.status.isTerminal } := by
  simp only [Execution.node, Execution.objectRef, same.identity.objectRef]

theorem Thread.Same.node {t t' : Thread} (same : t.Same t') :
    t'.node = { t.node with live := !t'.status.isTerminal } := by
  simp only [Thread.node, Thread.objectRef, same.identity.objectRef, ← same.identity.2.2.2.2.2]

theorem Activity.Same.node (same : a.Same a') :
    a'.node = { a.node with live := !a'.status.isTerminal } := by
  simp only [Activity.node, Activity.objectRef, same.identity.objectRef,
    ← same.identity.2.2.2.2.2]

theorem Task.Same.node {t t' : Task} (same : t.Same t') :
    t'.node = { t.node with live := !t'.status.isTerminal } := by
  simp only [Task.node, Task.objectRef, same.identity.objectRef, ← same.identity.2.2.2.2.2]

theorem Task.Claims.node {t t' : Task} (claims : t.Claims t') : t'.node = t.node := by
  rcases claims with rfl | ⟨same, open_, running⟩
  · rfl
  · rw [same.node, running]
    simp only [Task.node, open_]
    rfl

end Spica
