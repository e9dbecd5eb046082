import Spica.Answers
import Spica.Lib.Overlay

/-! # Transactions of the store in memory

A transaction shares the store's tables and keeps its own writes in a batch. It reads the batch
first and the tables second, and an edge of the ownership tree is written as the last decision
about it. A commit lands the batch; a transaction that is dropped leaves no trace. This is the
private copy of the projection that the engine works on: what a transaction reads and commits is
what its writes would have made of the tables directly.
-/

namespace Spica

/-- The pending writes of a transaction. -/
structure InMemoryBatch where
  executions : Table ObjectName Execution
  threads : Table ObjectName Thread
  scopes : Table ObjectName Variables
  activities : Table ObjectName Activity
  tasks : Table ObjectName Task
  flows : Table FlowName Flow
  flowVersions : Table ObjectName FlowVersion
  /-- a pending bump of the counter -/
  nextGeneratedSeq : Option Nat
  /-- the last decision about an edge: present or absent -/
  children : Table (RawObjectRef × RawObjectRef) Bool

def InMemoryBatch.empty : InMemoryBatch := ⟨∅, ∅, ∅, ∅, ∅, ∅, ∅, none, ∅⟩

/-- A transaction: the store it was opened on, and its batch. -/
structure InMemoryTxn where
  inner : Storage
  batch : InMemoryBatch

/-- How hash tables of any type are enumerated. -/
abbrev HashOrder : Type 1 := (α : Type) → Order α

namespace InMemoryTxn

def beginTxn (db : Storage) : InMemoryTxn := ⟨db, .empty⟩

/-- `HashMap::extend`. -/
def landed {κ ν : Type} [DecidableEq κ] (order : HashOrder) (db batch : Table κ ν) : Table κ ν :=
  Overlay.extend db ((order _).arrange (Scan.bindings batch))

section reads

variable (order : HashOrder) (txn : InMemoryTxn)

/-- The children of a parent: the store's, with the pending decisions about this parent. -/
def getChildren (parent : RawObjectRef) : List RawObjectRef :=
  ((order _).arrange (Scan.bindings txn.batch.children)).foldl
    (fun out e =>
      if e.1.1 ≠ parent then out
      else if e.2 then out.insert e.1.2
      else out.filter (· ≠ e.1.2))
    (txn.inner.rows.getChildren parent)

/-- The claimable tasks: a copy of the store's table, with the pending rows put over it. -/
def activatableTasks (resource : String) (now : Timestamp) (limit : Nat) : List Task :=
  let tasks := landed order txn.inner.rows.tasks txn.batch.tasks
  (((order _).arrange (tasks.entries.map Sigma.snd)).filter
    fun t => t.resource == resource && t.isClaimableAt now).take limit

def getVariables (r : ObjectRef .thread) : Variables :=
  match txn.batch.scopes.lookup r.name with
  | some scope => scope
  | none => txn.inner.rows.getVariables r

def flowVersionOf (name : FlowName) (version : Nat) : Option FlowVersion :=
  Overlay.through txn.inner.rows.flowVersions txn.batch.flowVersions (.generated name version)

def get : (q : Query) → q.Ret
  | .execution r => Overlay.through txn.inner.rows.executions txn.batch.executions r.name
  | .thread r => Overlay.through txn.inner.rows.threads txn.batch.threads r.name
  | .vars r => txn.getVariables r
  | .activity r => Overlay.through txn.inner.rows.activities txn.batch.activities r.name
  | .task r => Overlay.through txn.inner.rows.tasks txn.batch.tasks r.name
  | .children r => txn.getChildren order r
  | .activatableTasks resource now limit => txn.activatableTasks order resource now limit
  | .flowByName name => Overlay.through txn.inner.rows.flows txn.batch.flows name
  | .flowVersion r => Overlay.through txn.inner.rows.flowVersions txn.batch.flowVersions r.name
  | .nextGeneratedSeq => txn.batch.nextGeneratedSeq.getD txn.inner.rows.nextGeneratedSeq

end reads

def put (txn : InMemoryTxn) (w : Write) : InMemoryTxn :=
  let batch := txn.batch
  { txn with batch :=
    match w with
    | .execution e => { batch with executions := batch.executions.insert e.metadata.name e }
    | .thread t => { batch with threads := batch.threads.insert t.metadata.name t }
    | .vars r scope => { batch with scopes := batch.scopes.insert r.name scope }
    | .activity a => { batch with activities := batch.activities.insert a.metadata.name a }
    | .task t => { batch with tasks := batch.tasks.insert t.metadata.name t }
    | .flow name f => { batch with flows := batch.flows.insert name f }
    | .flowVersion v => { batch with flowVersions := batch.flowVersions.insert v.metadata.name v }
    | .addChild parent child =>
      { batch with children := batch.children.insert (parent, child) true }
    | .removeChild parent child =>
      { batch with children := batch.children.insert (parent, child) false }
    | .nextGeneratedSeq n => { batch with nextGeneratedSeq := some n } }

def commit (order : HashOrder) (txn : InMemoryTxn) (watermark : Option Nat) : Storage :=
  let db := txn.inner.rows
  let batch := txn.batch
  { rows :=
      { executions := landed order db.executions batch.executions
        threads := landed order db.threads batch.threads
        scopes := landed order db.scopes batch.scopes
        activities := landed order db.activities batch.activities
        tasks := landed order db.tasks batch.tasks
        flows := landed order db.flows batch.flows
        flowVersions := landed order db.flowVersions batch.flowVersions
        children := Overlay.settle db.children
          ((order _).arrange (Scan.bindings batch.children))
        nextGeneratedSeq :=
          match batch.nextGeneratedSeq with
          | some seq => max db.nextGeneratedSeq seq
          | none => db.nextGeneratedSeq }
    lastProcessedPosition :=
      match watermark with
      | some w => w
      | none => txn.inner.lastProcessedPosition }

/-- Dropped without a commit: what is left is the store. -/
def drop (txn : InMemoryTxn) : Storage := txn.inner

end InMemoryTxn

/-! ## Direct application -/

/-- Two projections hold the same: their tables bind alike, their edges are the same set. -/
structure Projection.Same (p q : Projection) : Prop where
  executions : ∀ n, p.executions.lookup n = q.executions.lookup n
  threads : ∀ n, p.threads.lookup n = q.threads.lookup n
  scopes : ∀ n, p.scopes.lookup n = q.scopes.lookup n
  activities : ∀ n, p.activities.lookup n = q.activities.lookup n
  tasks : ∀ n, p.tasks.lookup n = q.tasks.lookup n
  flows : ∀ n, p.flows.lookup n = q.flows.lookup n
  flowVersions : ∀ n, p.flowVersions.lookup n = q.flowVersions.lookup n
  children : ∀ e, e ∈ p.children ↔ e ∈ q.children
  nextGeneratedSeq : p.nextGeneratedSeq = q.nextGeneratedSeq

/-- The limit of a scan does not bind. -/
def Query.Unbound (p : Projection) : Query → Prop
  | .activatableTasks resource now limit => (p.claimable resource now).length ≤ limit
  | _ => True

/-- The same answer, hash-ordered ones as sets. -/
def Query.SameAnswer : (q : Query) → q.Ret → q.Ret → Prop
  | .execution _, a, b => a = b
  | .thread _, a, b => a = b
  | .vars _, a, b => a = b
  | .activity _, a, b => a = b
  | .task _, a, b => a = b
  | .children _, a, b => ∀ r, r ∈ a ↔ r ∈ b
  | .activatableTasks _ _ _, a, b => ∀ t, t ∈ a ↔ t ∈ b
  | .flowByName _, a, b => a = b
  | .flowVersion _, a, b => a = b
  | .nextGeneratedSeq, a, b => a = b

/-- The batch over the store is the projection its writes make of the store. -/
structure InMemoryTxn.Overlays (txn : InMemoryTxn) (p : Projection) : Prop where
  executions : ∀ n, p.executions.lookup n =
    Overlay.through txn.inner.rows.executions txn.batch.executions n
  threads : ∀ n, p.threads.lookup n = Overlay.through txn.inner.rows.threads txn.batch.threads n
  scopes : ∀ n, p.scopes.lookup n = Overlay.through txn.inner.rows.scopes txn.batch.scopes n
  activities : ∀ n, p.activities.lookup n =
    Overlay.through txn.inner.rows.activities txn.batch.activities n
  tasks : ∀ n, p.tasks.lookup n = Overlay.through txn.inner.rows.tasks txn.batch.tasks n
  flows : ∀ n, p.flows.lookup n = Overlay.through txn.inner.rows.flows txn.batch.flows n
  flowVersions : ∀ n, p.flowVersions.lookup n =
    Overlay.through txn.inner.rows.flowVersions txn.batch.flowVersions n
  children : ∀ e, e ∈ p.children ↔
    Overlay.Present txn.inner.rows.children txn.batch.children e
  nextGeneratedSeq : p.nextGeneratedSeq =
    txn.batch.nextGeneratedSeq.getD txn.inner.rows.nextGeneratedSeq

namespace InMemoryTxn

variable {txn : InMemoryTxn} {p : Projection}

@[simp] theorem inner_put (txn : InMemoryTxn) (w : Write) : (txn.put w).inner = txn.inner := rfl

theorem beginTxn_overlays (db : Storage) : (beginTxn db).Overlays db.rows :=
  ⟨fun _ => rfl, fun _ => rfl, fun _ => rfl, fun _ => rfl, fun _ => rfl, fun _ => rfl, fun _ => rfl,
    fun _ => .rfl, rfl⟩

/-- A binding put into the batch is one put into the table. -/
theorem through_put {κ ν : Type} [DecidableEq κ] {t base batch : Table κ ν}
    (same : ∀ n, t.lookup n = Overlay.through base batch n) (k : κ) (v : ν) (n : κ) :
    (t.insert k v).lookup n = Overlay.through base (batch.insert k v) n := by
  rw [Overlay.through_insert]
  by_cases here : n = k
  · rw [here, AList.lookup_insert, if_pos rfl]
  · rw [AList.lookup_insert_ne here, if_neg here, same]

theorem Overlays.put (overlays : txn.Overlays p) (w : Write) :
    (txn.put w).Overlays (w.apply p) := by
  cases w with
  | execution e => exact { overlays with executions := through_put overlays.executions _ _ }
  | thread t => exact { overlays with threads := through_put overlays.threads _ _ }
  | vars r scope => exact { overlays with scopes := through_put overlays.scopes _ _ }
  | activity a => exact { overlays with activities := through_put overlays.activities _ _ }
  | task t => exact { overlays with tasks := through_put overlays.tasks _ _ }
  | flow name f => exact { overlays with flows := through_put overlays.flows _ _ }
  | flowVersion v => exact { overlays with flowVersions := through_put overlays.flowVersions _ _ }
  | addChild parent child =>
    refine { overlays with children := fun e => ?_ }
    have edges : e ∈ (p.addChild parent child).children ↔ e = (parent, child) ∨ e ∈ p.children :=
      List.mem_insert_iff
    refine edges.trans ((Overlay.present_insert _ _ e (parent, child) true).trans ?_).symm
    by_cases here : e = (parent, child) <;> simp [here, overlays.children e]
  | removeChild parent child =>
    refine { overlays with children := fun e => ?_ }
    have edges : e ∈ (p.removeChild parent child).children ↔
        e ∈ p.children ∧ e ≠ (parent, child) := by simp [Projection.removeChild]
    refine edges.trans ((Overlay.present_insert _ _ e (parent, child) false).trans ?_).symm
    by_cases here : e = (parent, child) <;> simp [here, overlays.children e]
  | nextGeneratedSeq n => exact { overlays with nextGeneratedSeq := rfl }

/-! ## Reads -/

/-- The loop over the pending edges carries out the decisions about one parent. -/
theorem getChildren_eq (order : HashOrder) (txn : InMemoryTxn) (parent : RawObjectRef) :
    txn.getChildren order parent = Overlay.settle (txn.inner.rows.getChildren parent)
      (((order _).arrange (Scan.bindings txn.batch.children)).filterMap fun e =>
        if e.1.1 = parent then some (e.1.2, e.2) else none) := by
  rw [Overlay.settle, List.foldl_filterMap]
  unfold getChildren
  congr 1
  funext out e
  by_cases here : e.1.1 = parent <;> simp [here]

theorem mem_getChildren {q : Projection} {parent child} :
    child ∈ q.getChildren parent ↔ (parent, child) ∈ q.children := by
  simp [Projection.getChildren]

theorem Overlays.mem_getChildren (overlays : txn.Overlays p) (order : HashOrder)
    (parent child : RawObjectRef) :
    child ∈ txn.getChildren order parent ↔ child ∈ p.getChildren parent := by
  rw [InMemoryTxn.mem_getChildren, overlays.children, getChildren_eq]
  have perm := (order _).perm (Scan.bindings txn.batch.children)
  -- what is decided about the child is what the batch holds for the edge
  have decided (present : Bool) :
      (child, present) ∈ (((order _).arrange (Scan.bindings txn.batch.children)).filterMap fun e =>
        if e.1.1 = parent then some (e.1.2, e.2) else none) ↔
      txn.batch.children.lookup (parent, child) = some present := by
    rw [List.mem_filterMap, ← Scan.mem_bindings, ← perm.mem_iff]
    constructor
    · rintro ⟨⟨⟨parent', child'⟩, present'⟩, there, same⟩
      by_cases here : parent' = parent
      · simp only [here, if_true, Option.some.injEq, Prod.mk.injEq] at same
        obtain ⟨rfl, rfl⟩ := same
        exact here ▸ there
      · simp [here] at same
    · intro there
      exact ⟨_, there, by simp⟩
  rw [Overlay.mem_settle_of_decided decided, InMemoryTxn.mem_getChildren]
  rfl

/-- The tasks the scan finds are those of the table it stands for, before the limit. -/
theorem Overlays.claimable_perm (overlays : txn.Overlays p) (order : HashOrder) (resource : String)
    (now : Timestamp) :
    (((order _).arrange ((landed order txn.inner.rows.tasks txn.batch.tasks).entries.map
      Sigma.snd)).filter fun t => t.resource == resource && t.isClaimableAt now).Perm
      (p.claimable resource now) := by
  have same (n : ObjectName) : (landed order txn.inner.rows.tasks txn.batch.tasks).lookup n =
      p.tasks.lookup n :=
    (Overlay.lookup_extend ((order _).perm _)).trans (overlays.tasks n).symm
  have values (t : Table ObjectName Task) :
      t.entries.map Sigma.snd = (Scan.bindings t).map Prod.snd := by simp [Scan.bindings]
  refine List.Perm.filter _ (((order _).perm _).trans ?_)
  rw [values, values]
  exact (Overlay.bindings_perm same).map _

/-- A read within the transaction answers as the projection does. -/
theorem Overlays.get (overlays : txn.Overlays p) (order : HashOrder) (refs : Order RawObjectRef)
    (tasks : Order ObjectName) (q : Query) (unbound : q.Unbound p) :
    q.SameAnswer (txn.get order q) (q.eval refs tasks p) := by
  cases q with
  | execution r => exact (overlays.executions r.name).symm
  | thread r => exact (overlays.threads r.name).symm
  | activity r => exact (overlays.activities r.name).symm
  | task r => exact (overlays.tasks r.name).symm
  | flowByName name => exact (overlays.flows name).symm
  | flowVersion r => exact (overlays.flowVersions r.name).symm
  | nextGeneratedSeq => exact overlays.nextGeneratedSeq.symm
  | vars r =>
    show txn.getVariables r = p.getVariables r
    rw [Projection.getVariables, overlays.scopes]
    unfold getVariables Overlay.through Projection.getVariables
    cases txn.batch.scopes.lookup r.name <;> rfl
  | children r =>
    intro child
    exact (overlays.mem_getChildren order r child).trans (refs.perm _).mem_iff.symm
  | activatableTasks resource now limit =>
    intro t
    have perm := overlays.claimable_perm order resource now
    have few : (p.claimable resource now).length ≤ limit := unbound
    show t ∈ List.take limit _ ↔ t ∈ List.take limit _
    have scan := (scanned_perm tasks p.tasks).filter fun t =>
      t.resource == resource && t.isClaimableAt now
    rw [List.take_of_length_le (perm.length_eq.trans_le few),
      List.take_of_length_le (scan.length_eq.trans_le few), perm.mem_iff, scan.mem_iff]
    rfl

theorem Overlays.flowVersionOf (overlays : txn.Overlays p) (name : FlowName) (version : Nat) :
    txn.flowVersionOf name version = p.flowVersions.lookup (.generated name version) :=
  (overlays.flowVersions _).symm

/-! ## Commits -/

theorem Overlays.commit (overlays : txn.Overlays p) (order : HashOrder) (watermark : Option Nat) :
    (txn.commit order watermark).rows.Same { p with
      nextGeneratedSeq := max txn.inner.rows.nextGeneratedSeq p.nextGeneratedSeq } where
  executions n := (Overlay.lookup_extend ((order _).perm _)).trans (overlays.executions n).symm
  threads n := (Overlay.lookup_extend ((order _).perm _)).trans (overlays.threads n).symm
  scopes n := (Overlay.lookup_extend ((order _).perm _)).trans (overlays.scopes n).symm
  activities n := (Overlay.lookup_extend ((order _).perm _)).trans (overlays.activities n).symm
  tasks n := (Overlay.lookup_extend ((order _).perm _)).trans (overlays.tasks n).symm
  flows n := (Overlay.lookup_extend ((order _).perm _)).trans (overlays.flows n).symm
  flowVersions n := (Overlay.lookup_extend ((order _).perm _)).trans (overlays.flowVersions n).symm
  children e := (Overlay.mem_settle ((order _).perm _)).trans (overlays.children e).symm
  nextGeneratedSeq := by
    show _ = max txn.inner.rows.nextGeneratedSeq p.nextGeneratedSeq
    rw [overlays.nextGeneratedSeq]
    unfold InMemoryTxn.commit
    cases pending : txn.batch.nextGeneratedSeq <;> simp [pending]

/-! ## Whole transactions -/

/-- A call on an open transaction. -/
inductive Call where
  | get (q : Query)
  | flowVersionOf (name : FlowName) (version : Nat)
  | put (w : Write)

/-- A read leaves the transaction as it is. -/
def call (txn : InMemoryTxn) : Call → InMemoryTxn
  | .get _ | .flowVersionOf _ _ => txn
  | .put w => txn.put w

/-- What a call does to the tables, made directly. -/
def Call.apply (p : Projection) : Call → Projection
  | .get _ | .flowVersionOf _ _ => p
  | .put w => w.apply p

theorem Overlays.run (overlays : txn.Overlays p) (calls : List Call) :
    (calls.foldl call txn).Overlays (calls.foldl Call.apply p) ∧
      (calls.foldl call txn).inner = txn.inner := by
  induction calls generalizing txn p with
  | nil => exact ⟨overlays, rfl⟩
  | cons c calls ih =>
    cases c with
    | get | flowVersionOf => exact ih overlays
    | put w => exact ih (overlays.put w)

/-- A transaction reads what its writes would have made of the store, commits that, and changes
    nothing when it is dropped. The counter never falls; the watermark becomes the one the commit
    carries, and the commits of the engine never carry a smaller one. -/
theorem transaction_overlays (order : HashOrder) (base : Storage) (calls : List Call) :
    let txn := calls.foldl call (beginTxn base)
    let direct := calls.foldl Call.apply base.rows
    (∀ (refs : Order RawObjectRef) (tasks : Order ObjectName) (q : Query), q.Unbound direct →
      q.SameAnswer (txn.get order q) (q.eval refs tasks direct)) ∧
    (∀ name version,
      txn.flowVersionOf name version = direct.flowVersions.lookup (.generated name version)) ∧
    (∀ watermark,
      (txn.commit order watermark).rows.Same { direct with
        nextGeneratedSeq := max base.rows.nextGeneratedSeq direct.nextGeneratedSeq } ∧
      (txn.commit order watermark).lastProcessedPosition =
        watermark.getD base.lastProcessedPosition) ∧
    txn.drop = base ∧
    ∀ (env : Env) (w : World) (a : Action) (w' : World),
      Run.Reach (World.step env) (fun _ _ => True) .init w → w.step env a = some w' →
      w.storage.lastProcessedPosition ≤ w'.storage.lastProcessedPosition := by
  intro txn direct
  have run := (beginTxn_overlays base).run calls
  have overlays : txn.Overlays direct := run.1
  have inner : txn.inner = base := run.2
  refine ⟨fun refs tasks q unbound => overlays.get order refs tasks q unbound,
    overlays.flowVersionOf, fun watermark => And.intro ?_ ?_, inner,
    fun env w a w' reached moved => ?_⟩
  · have committed := overlays.commit order watermark
    rwa [inner] at committed
  · cases watermark with
    | some w => rfl
    | none =>
      show txn.inner.lastProcessedPosition = base.lastProcessedPosition
      rw [inner]
  · have placed : w.Placed := reached.keeps (fun _ _ _ placed _ => placed.step) World.init_placed
    exact World.committed_mono placed moved

/-- An edge is added, taken away and added again, and the counter is set below the store's. -/
def edgeCalls : List Call :=
  [.put (.addChild Scenario.firstActivity.raw Scenario.firstTask.raw),
    .put (.removeChild Scenario.firstActivity.raw Scenario.firstTask.raw),
    .put (.addChild Scenario.firstActivity.raw Scenario.firstTask.raw),
    .put (.nextGeneratedSeq 2)]

/-- The answer to the first command is appended and not yet committed. -/
def answered : World :=
  Scenario.after true (Scenario.single Scenario.pass)
    (Scenario.appends [Scenario.createFlow] ++ Scenario.starts 2 ++ [.dispatch Scenario.decision])

theorem transaction_overlays_edge :
    Query.SameAnswer (.children Scenario.firstActivity.raw)
      ((edgeCalls.foldl call (beginTxn ⟨.empty, 7⟩)).get Order.asIs
        (.children Scenario.firstActivity.raw)) [Scenario.firstTask.raw] ∧
    ∃ w, answered.step (Scenario.host true (Scenario.single Scenario.pass)) .commit = some w ∧
      answered.storage.lastProcessedPosition ≤ w.storage.lastProcessedPosition := by
  obtain ⟨reads, -, -, -, rises⟩ := transaction_overlays Order.asIs ⟨.empty, 7⟩ edgeCalls
  refine ⟨reads (Order.asIs _) (Order.asIs _) (.children Scenario.firstActivity.raw) trivial, ?_⟩
  have commits : (answered.step (Scenario.host true (Scenario.single Scenario.pass))
      .commit).isSome = true := by decide +kernel
  have reached : Run.Reach (World.step (Scenario.host true (Scenario.single Scenario.pass)))
      (fun _ _ => True) .init answered := Run.reach_script fun _ _ _ => trivial
  obtain ⟨w, moved⟩ := Option.isSome_iff_exists.mp commits
  exact ⟨w, moved, rises _ _ _ _ reached moved⟩

/-- The store takes a watermark below its own. -/
theorem watermark_falls :
    ((beginTxn ⟨.empty, 10⟩).commit Order.asIs (some 5)).lastProcessedPosition = 5 ∧
      (beginTxn ⟨.empty, 10⟩).inner.lastProcessedPosition = 10 := ⟨rfl, rfl⟩

end InMemoryTxn

end Spica
