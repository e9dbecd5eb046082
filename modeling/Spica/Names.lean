import Spica.Ownership
import Spica.Replay

/-! # The counter stays ahead of the names

Threads, activities and tasks carry generated names, and the projection's counter is above all
their suffixes: what is minted from it is a name no row has.
-/

namespace Spica

variable {name n : ObjectName} {e : Event} {f : Thread → Thread}

/-- A generated name below the counter. -/
def ObjectName.Below (name : ObjectName) (counter : Nat) : Prop :=
  ∃ k, name.suffix = some k ∧ k < counter

theorem ObjectName.Below.mono {c c'} (below : name.Below c) (le : c ≤ c') : name.Below c' := by
  obtain ⟨k, suffix, lt⟩ := below
  exact ⟨k, suffix, Nat.lt_of_lt_of_le lt le⟩

/-- The counter itself is not below it. -/
theorem ObjectName.generated_not_below (b : PlainName) (counter : Nat) :
    ¬(b.generatedFromKey counter).Below counter := by
  rintro ⟨k, suffix, lt⟩
  cases suffix
  exact Nat.lt_irrefl _ lt

/-- A new object carries a generated name. -/
def Event.Named (e : Event) : Prop := ∀ name, e.bornName = some name → name.suffix ≠ none

theorem Event.le_raised (e : Event) (n : Nat) : n ≤ e.raised n := by
  unfold Event.raised Projection.raised
  split
  · split
    · exact Nat.le_refl n
    · exact Nat.le_max_left ..
  · exact Nat.le_refl n

/-- A birth leaves the counter above the new name. -/
theorem Event.Named.below (named : e.Named) (born : e.bornName = some name) (n : Nat) :
    name.Below (e.raised n) := by
  obtain ⟨k, suffix⟩ := Option.ne_none_iff_exists'.mp (named name born)
  refine ⟨k, suffix, ?_⟩
  simp only [Event.raised, born, Projection.raised, suffix]
  omega

namespace Projection

variable {p q : Projection}

/-- All threads, activities and tasks are named below the counter. -/
structure Bounded (p : Projection) : Prop where
  threads : ∀ n, p.threads.lookup n ≠ none → n.Below p.nextGeneratedSeq
  activities : ∀ n, p.activities.lookup n ≠ none → n.Below p.nextGeneratedSeq
  tasks : ∀ n, p.tasks.lookup n ≠ none → n.Below p.nextGeneratedSeq

theorem empty_bounded : Projection.empty.Bounded :=
  ⟨fun _ there => absurd rfl there, fun _ there => absurd rfl there, fun _ there => absurd rfl there⟩

/-- The names in the tables after a change: those there were, and the new one. -/
structure Adds (name : Option ObjectName) (p q : Projection) : Prop where
  threads : ∀ n, q.threads.lookup n ≠ none → p.threads.lookup n ≠ none ∨ name = some n
  activities : ∀ n, q.activities.lookup n ≠ none → p.activities.lookup n ≠ none ∨ name = some n
  tasks : ∀ n, q.tasks.lookup n ≠ none → p.tasks.lookup n ≠ none ∨ name = some n

theorem Adds.refl (p : Projection) : Adds none p p :=
  ⟨fun _ => .inl, fun _ => .inl, fun _ => .inl⟩

theorem adds_insert {ν : Type} {before t : Table ObjectName ν} {v new}
    (adds : t.lookup n ≠ none → before.lookup n ≠ none ∨ new = some n)
    (there : (t.insert name v).lookup n ≠ none)
    (known : before.lookup name ≠ none ∨ new = some name) :
    before.lookup n ≠ none ∨ new = some n := by
  by_cases same : n = name
  · subst same
    exact known
  · rw [AList.lookup_insert_ne same] at there
    exact adds there

variable {new : Option ObjectName}

theorem Adds.putThread (adds : Adds new p q) {t : Thread}
    (known : p.threads.lookup t.metadata.name ≠ none ∨ new = some t.metadata.name) :
    Adds new p (q.putThread t) :=
  { adds with threads := fun n there => adds_insert (adds.threads n) there known }

theorem Adds.putActivity (adds : Adds new p q) {a : Activity}
    (known : p.activities.lookup a.metadata.name ≠ none ∨ new = some a.metadata.name) :
    Adds new p (q.putActivity a) :=
  { adds with activities := fun n there => adds_insert (adds.activities n) there known }

theorem Adds.putTask (adds : Adds new p q) {t : Task}
    (known : p.tasks.lookup t.metadata.name ≠ none ∨ new = some t.metadata.name) :
    Adds new p (q.putTask t) :=
  { adds with tasks := fun n there => adds_insert (adds.tasks n) there known }

theorem Adds.fileFlow (adds : Adds new p q) (f : Flow) : Adds new p (q.fileFlow f) := by
  unfold Projection.fileFlow
  split
  · exact { adds with }
  · exact adds

theorem Adds.onExecution (adds : Adds new p q) (r : ObjectRef .execution)
    (f : Execution → Execution) : Adds new p (q.onExecution r f) := by
  unfold Projection.onExecution
  split
  · exact { adds with }
  · exact adds

/-- An update of a row keeps the name the row has. -/
theorem Adds.onThread (owned : p.Owned) (r : ObjectRef .thread)
    (name : ∀ row, (f row).metadata.name = row.metadata.name) : Adds none p (p.onThread r f) := by
  unfold Projection.onThread
  split
  · next row found =>
      refine (Adds.refl p).putThread (.inl ?_)
      rw [name, owned.thread_name found]
      exact Option.ne_none_iff_exists'.mpr ⟨row, found⟩
  · exact .refl p

theorem Adds.settleThread (owned : p.Owned) (r : ObjectRef .thread)
    (name : ∀ row, (f row).metadata.name = row.metadata.name) :
    Adds none p (p.settleThread r f) := by
  unfold Projection.settleThread
  split
  · next row found =>
      have put : Adds none p (p.putThread (f row)) := by
        refine (Adds.refl p).putThread (.inl ?_)
        rw [name, owned.thread_name found]
        exact Option.ne_none_iff_exists'.mpr ⟨row, found⟩
      exact { put with }
  · exact .refl p

theorem Adds.onActivity (adds : Adds new p q) (owned : p.Owned)
    (untouched : q.activities = p.activities) (r : ObjectRef .activity) {f}
    (name : ∀ row, (f row).metadata.name = row.metadata.name) : Adds new p (q.onActivity r f) := by
  unfold Projection.onActivity
  split
  · next row found =>
      have found : p.activities.lookup r.name = some row := by rw [← untouched]; exact found
      refine adds.putActivity (.inl ?_)
      rw [name, owned.activity_name found]
      exact Option.ne_none_iff_exists'.mpr ⟨row, found⟩
  · exact adds

theorem Adds.replaceActivity (a : Activity) : Adds none p (p.onActivity a.objectRef fun _ => a) := by
  unfold Projection.onActivity
  split
  · next row found =>
      exact (Adds.refl p).putActivity (.inl (Option.ne_none_iff_exists'.mpr ⟨row, found⟩))
  · exact .refl p

theorem Adds.settleActivity (a : Activity) : Adds none p (p.settleActivity a) := by
  unfold Projection.settleActivity
  split
  · next row found =>
      have put : Adds none p (p.putActivity a) :=
        (Adds.refl p).putActivity (.inl (Option.ne_none_iff_exists'.mpr ⟨row, found⟩))
      exact { put with }
  · exact .refl p

theorem Adds.createThread (owned : p.Owned) (ts : Timestamp) (t : Thread) :
    Adds (some t.metadata.name) p (p.createThread ts t) := by
  obtain ⟨scopes, n, equal⟩ := createThread_eq (p := p) ts t
  have put : Adds (some t.metadata.name) p (p.putThread t) :=
    Adds.putThread ⟨fun _ => .inl, fun _ => .inl, fun _ => .inl⟩ (.inr rfl)
  have put : Adds (some t.metadata.name) p ({ p.putThread t with
      scopes := scopes, nextGeneratedSeq := n }.addChild
      t.metadata.owner.raw t.objectRef.raw) := { put with }
  rw [equal]
  unfold recordFanOut
  split
  · exact put
  · split
    · next act found =>
        have found : p.activities.lookup _ = some act := found
        have known : p.activities.lookup act.metadata.name ≠ none := by
          rw [owned.activity_name found, found]
          exact Option.some_ne_none act
        split
        · exact put.putActivity (.inl known)
        · exact put
    · exact put

theorem Adds.claimed {tasks} (claimed : Claimed p.tasks tasks) :
    Adds none p { p with tasks := tasks } := by
  refine { Adds.refl p with tasks := fun n there => .inl ?_ }
  obtain ⟨t, found⟩ := Option.ne_none_iff_exists'.mp there
  obtain ⟨-, none⟩ | ⟨t₀, before, -⟩ := claimed.evolves.inv found
  · exact none.elim
  · simp [before]

/-- A task's row changes, and its owner may take note. -/
theorem Adds.overTask (owned : p.Owned) {row row'} (found : p.tasks.lookup n = some row)
    (name : row'.metadata.name = row.metadata.name) : Adds none p (p.putTask row') := by
  refine (Adds.refl p).putTask (.inl ?_)
  rw [name, owned.task_name found, found]
  exact Option.some_ne_none row

theorem Adds.completeTask (owned : p.Owned) (ts : Timestamp) (t : Task) (output : Json) :
    Adds none p (p.completeTask ts t output) := by
  unfold Projection.completeTask
  split
  · next row found =>
      have put : Adds none p (p.putTask { row with
          status := .completed
          metadata := row.metadata.withUpdateAt t.metadata.updatedAt }) :=
        Adds.overTask owned found rfl
      have noted := put.onActivity owned rfl row.metadata.owner (f := fun act => { act with
        rawOutput := some output, metadata := act.metadata.withUpdateAt ts }) fun _ => rfl
      exact { noted with }
  · exact Adds.refl p

theorem Adds.failTask (owned : p.Owned) (ts : Timestamp) (t : Task) :
    Adds none p (p.failTask ts t) := by
  unfold Projection.failTask
  split
  · next row found =>
      have put : Adds none p (p.putTask t) :=
        (Adds.refl p).putTask (.inl (Option.ne_none_iff_exists'.mpr ⟨row, found⟩))
      split
      · exact put.onActivity owned rfl _ fun _ => rfl
      · exact { put with }
  · exact Adds.refl p

theorem Adds.cancelTask (owned : p.Owned) (t : Task) : Adds none p (p.cancelTask t) := by
  unfold Projection.cancelTask
  split
  · next row found =>
      have put : Adds none p (p.putTask { row with
          status := .cancelled
          metadata := row.metadata.withUpdateAt t.metadata.updatedAt }) :=
        Adds.overTask owned found rfl
      exact { put with }
  · exact Adds.refl p

theorem Adds.createFlowVersion (ts : Timestamp) (v : FlowVersion) :
    Adds none p (p.createFlowVersion ts v) := by
  have put : Adds none p (p.putFlowVersion v) := { Adds.refl p with }
  unfold Projection.createFlowVersion
  split
  · exact put
  · exact put.fileFlow _

end Projection

open Projection in
/-- An event files nothing new but the object it gives birth to. -/
theorem Event.adds {p} (owned : p.Owned) (e : Event) (ts : Timestamp) :
    Adds e.bornName p (e.apply ts p) := by
  cases e with
  | flowCreated _ f => exact (Adds.refl p).fileFlow f
  | flowVersionCreated _ v => exact Adds.createFlowVersion ts v
  | executionCreated _ e => exact { Adds.refl p with }
  | executionCompleting e => exact (Adds.refl p).onExecution _ _
  | executionCompleted e => exact (Adds.refl p).onExecution _ _
  | executionTerminating e => exact (Adds.refl p).onExecution _ _
  | executionTerminated e => exact (Adds.refl p).onExecution _ _
  | threadCreated t => exact Adds.createThread owned ts t
  | threadCompleting t => exact Adds.onThread owned _ fun _ => rfl
  | threadCompleted t => exact Adds.settleThread owned _ fun _ => rfl
  | threadTerminating t => exact Adds.onThread owned _ fun _ => rfl
  | threadTerminated t => exact Adds.settleThread owned _ fun _ => rfl
  | stateActivating a =>
    have put : Adds (some a.metadata.name) p (p.putActivity a) :=
      Adds.putActivity ⟨fun _ => .inl, fun _ => .inl, fun _ => .inl⟩ (.inr rfl)
    exact { put with }
  | stateActivated a => exact Adds.replaceActivity a
  | stateCompleting a => exact Adds.replaceActivity a
  | stateTerminating a => exact Adds.replaceActivity a
  | stateCompleted a => exact Adds.settleActivity a
  | stateTerminated a => exact Adds.settleActivity a
  | variablesAssigned scope vars => exact { Adds.refl p with }
  | stateTransitioned _ _ => exact Adds.refl p
  | taskActivated t =>
    have put : Adds (some t.metadata.name) p (p.putTask t) :=
      Adds.putTask ⟨fun _ => .inl, fun _ => .inl, fun _ => .inl⟩ (.inr rfl)
    exact { put with }
  | tasksClaimed _ granted =>
    obtain ⟨tasks, claimed, equal⟩ := owned.claimTasks ts granted
    rw [Event.apply, equal]
    exact Adds.claimed claimed
  | taskCompleted _ t output => exact Adds.completeTask owned ts t output
  | taskFailed t error => exact Adds.failTask owned ts t
  | taskCancelled t => exact Adds.cancelTask owned t

open Projection in
/-- Folding an event keeps the counter ahead. -/
theorem Projection.Bounded.apply {p} (bounded : p.Bounded) (owned : p.Owned) (named : e.Named)
    (ts : Timestamp) : (e.apply ts p).Bounded := by
  have adds := e.adds owned ts
  have counter := e.apply_counter p ts
  have le := e.le_raised p.nextGeneratedSeq
  have step : ∀ n, (n.Below p.nextGeneratedSeq ∨ e.bornName = some n) →
      n.Below (e.apply ts p).nextGeneratedSeq := by
    rintro n (below | born)
    · rw [counter]
      exact below.mono le
    · rw [counter]
      exact named.below born _
  exact ⟨fun n there => step n ((adds.threads n there).imp (bounded.threads n) id),
    fun n there => step n ((adds.activities n there).imp (bounded.activities n) id),
    fun n there => step n ((adds.tasks n there).imp (bounded.tasks n) id)⟩

end Spica
