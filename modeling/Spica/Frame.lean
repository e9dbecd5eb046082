import Spica.Replay
import Spica.Rows

/-! # What an event leaves alone

The cells an event writes, given the rows it is folded into. Every other cell is as before: the
frame of the appliers, in any build and whatever the rows are, as long as each row is filed under
its own name.
-/

namespace Spica

variable {f : Thread → Thread} {ts : Timestamp} {t : Thread}

/-- A place of the projection: a row of one of its tables, or an ownership edge. -/
inductive Place where
  | execution (n : ObjectName)
  | thread (n : ObjectName)
  | scope (n : ObjectName)
  | activity (n : ObjectName)
  | task (n : ObjectName)
  | flow (n : FlowName)
  | flowVersion (n : ObjectName)
  | edge (parent child : RawObjectRef)

namespace Projection

/-- The cell holds the same in both. -/
def Alike (p q : Projection) : Place → Prop
  | .execution n => q.executions.lookup n = p.executions.lookup n
  | .thread n => q.threads.lookup n = p.threads.lookup n
  | .scope n => q.scopes.lookup n = p.scopes.lookup n
  | .activity n => q.activities.lookup n = p.activities.lookup n
  | .task n => q.tasks.lookup n = p.tasks.lookup n
  | .flow n => q.flows.lookup n = p.flows.lookup n
  | .flowVersion n => q.flowVersions.lookup n = p.flowVersions.lookup n
  | .edge parent child => (parent, child) ∈ q.children ↔ (parent, child) ∈ p.children

/-- Every row is filed under its own name. -/
structure Filed (p : Projection) : Prop where
  executions : ∀ n e, p.executions.lookup n = some e → e.metadata.name = n
  threads : ∀ n t, p.threads.lookup n = some t → t.metadata.name = n
  activities : ∀ n a, p.activities.lookup n = some a → a.metadata.name = n
  tasks : ∀ n t, p.tasks.lookup n = some t → t.metadata.name = n

variable {p q r : Projection} {c : Place}

theorem Alike.refl (p : Projection) (c : Place) : p.Alike p c := by
  cases c with
  | edge => exact .rfl
  | _ => rfl

theorem Alike.trans (first : p.Alike q c) (second : q.Alike r c) : p.Alike r c := by
  cases c with
  | edge => exact Iff.trans second first
  | _ => exact Eq.trans second first

theorem alike_of_content (same : p.content = q.content) : p.Alike q c := by
  obtain ⟨n, rfl⟩ := content_eq_iff.mp same
  exact .refl p c

/-! ## The writes -/

theorem alike_putExecution (e : Execution) (other : c ≠ .execution e.metadata.name) :
    p.Alike (p.putExecution e) c := by
  cases c with
  | execution n => exact AList.lookup_insert_ne fun same => other (by rw [same])
  | edge => exact .rfl
  | _ => rfl

theorem alike_putThread (t : Thread) (other : c ≠ .thread t.metadata.name) :
    p.Alike (p.putThread t) c := by
  cases c with
  | thread n => exact AList.lookup_insert_ne fun same => other (by rw [same])
  | edge => exact .rfl
  | _ => rfl

theorem alike_putVariables (s : ObjectRef .thread) (vars : Variables) (other : c ≠ .scope s.name) :
    p.Alike (p.putVariables s vars) c := by
  cases c with
  | scope n => exact AList.lookup_insert_ne fun same => other (by rw [same])
  | edge => exact .rfl
  | _ => rfl

theorem alike_putActivity (a : Activity) (other : c ≠ .activity a.metadata.name) :
    p.Alike (p.putActivity a) c := by
  cases c with
  | activity n => exact AList.lookup_insert_ne fun same => other (by rw [same])
  | edge => exact .rfl
  | _ => rfl

theorem alike_putTask (t : Task) (other : c ≠ .task t.metadata.name) : p.Alike (p.putTask t) c := by
  cases c with
  | task n => exact AList.lookup_insert_ne fun same => other (by rw [same])
  | edge => exact .rfl
  | _ => rfl

theorem alike_putFlow (name : FlowName) (f : Flow) (other : c ≠ .flow name) :
    p.Alike (p.putFlow name f) c := by
  cases c with
  | flow n => exact AList.lookup_insert_ne fun same => other (by rw [same])
  | edge => exact .rfl
  | _ => rfl

theorem alike_putFlowVersion (v : FlowVersion) (other : c ≠ .flowVersion v.metadata.name) :
    p.Alike (p.putFlowVersion v) c := by
  cases c with
  | flowVersion n => exact AList.lookup_insert_ne fun same => other (by rw [same])
  | edge => exact .rfl
  | _ => rfl

theorem alike_addChild (parent child : RawObjectRef) (other : c ≠ .edge parent child) :
    p.Alike (p.addChild parent child) c := by
  cases c with
  | edge x y =>
    refine mem_addChild.trans (or_iff_left ?_)
    rintro ⟨rfl, rfl⟩
    exact other rfl
  | _ => rfl

theorem alike_removeChild (parent child : RawObjectRef) (other : c ≠ .edge parent child) :
    p.Alike (p.removeChild parent child) c := by
  cases c with
  | edge x y =>
    refine mem_removeChild.trans (and_iff_left ?_)
    rintro ⟨rfl, rfl⟩
    exact other rfl
  | _ => rfl

/-! ## Filed rows -/

theorem filed_insert {κ ν : Type} [DecidableEq κ] {table : Table κ ν} (name : ν → κ) (v : ν)
    (filed : ∀ k v, table.lookup k = some v → name v = k) :
    ∀ k w, (table.insert (name v) v).lookup k = some w → name w = k := by
  intro k w found
  by_cases same : k = name v
  · subst same
    rw [AList.lookup_insert] at found
    rw [Option.some.inj found]
  · rw [AList.lookup_insert_ne same] at found
    exact filed k w found

theorem empty_filed : empty.Filed where
  executions _ _ found := by cases found
  threads _ _ found := by cases found
  activities _ _ found := by cases found
  tasks _ _ found := by cases found

namespace Filed

variable (filed : p.Filed)
include filed

theorem putExecution (e : Execution) : (p.putExecution e).Filed :=
  { filed with executions := filed_insert (fun e : Execution => e.metadata.name) e filed.executions }

theorem putThread (t : Thread) : (p.putThread t).Filed :=
  { filed with threads := filed_insert (fun t : Thread => t.metadata.name) t filed.threads }

theorem putActivity (a : Activity) : (p.putActivity a).Filed :=
  { filed with activities := filed_insert (fun a : Activity => a.metadata.name) a filed.activities }

theorem putTask (t : Task) : (p.putTask t).Filed :=
  { filed with tasks := filed_insert (fun t : Task => t.metadata.name) t filed.tasks }

theorem putVariables (r : ObjectRef .thread) (vars : Variables) : (p.putVariables r vars).Filed :=
  { filed with }

theorem fileFlow (f : Flow) : (p.fileFlow f).Filed := by
  unfold Projection.fileFlow
  split
  · exact { filed with }
  · exact filed

theorem onExecution (r : ObjectRef .execution) (f : Execution → Execution) :
    (p.onExecution r f).Filed := by
  unfold Projection.onExecution
  split
  · exact filed.putExecution _
  · exact filed

theorem onThread (r : ObjectRef .thread) (f : Thread → Thread) : (p.onThread r f).Filed := by
  unfold Projection.onThread
  split
  · exact filed.putThread _
  · exact filed

theorem onActivity (r : ObjectRef .activity) (f : Activity → Activity) :
    (p.onActivity r f).Filed := by
  unfold Projection.onActivity
  split
  · exact filed.putActivity _
  · exact filed

theorem settleThread (r : ObjectRef .thread) (f : Thread → Thread) :
    (p.settleThread r f).Filed := by
  unfold Projection.settleThread
  split
  · exact { filed.putThread _ with }
  · exact filed

theorem settleActivity (a : Activity) : (p.settleActivity a).Filed := by
  unfold Projection.settleActivity
  split
  · exact { filed.putActivity _ with }
  · exact filed

theorem inheritScope (t : Thread) : (p.inheritScope t).Filed := by
  unfold Projection.inheritScope
  split
  · split
    · exact filed.putVariables _ _
    · exact filed
  · exact filed

theorem recordFanOut (ts : Timestamp) (t : Thread) : (p.recordFanOut ts t).Filed := by
  unfold Projection.recordFanOut
  split
  · exact filed
  · split
    · split
      · exact filed.putActivity _
      · exact filed
    · exact filed

theorem claimTask (ts : Timestamp) (t : Task) : (p.claimTask ts t).Filed := by
  unfold Projection.claimTask
  split
  · split
    · exact filed.putTask _
    · exact filed
  · exact filed

end Filed

theorem Filed.claimTasks (filed : p.Filed) (ts : Timestamp) (tasks : List Task) :
    (tasks.foldl (Projection.claimTask ts) p).Filed := by
  induction tasks generalizing p with
  | nil => exact filed
  | cons t tasks ih => exact ih (filed.claimTask ts t)

/-! ## The effects -/

theorem alike_onExecution (filed : p.Filed) {r f}
    (named : ∀ row, (f row).metadata.name = row.metadata.name) (other : c ≠ .execution r.name) :
    p.Alike (p.onExecution r f) c := by
  cases found : p.getExecution r with
  | none => rw [onExecution, found]; exact .refl p c
  | some row =>
    rw [onExecution_some found]
    refine alike_putExecution _ ?_
    rwa [named, filed.executions _ _ found]

theorem alike_onThread (filed : p.Filed) {r}
    (named : ∀ row, (f row).metadata.name = row.metadata.name) (other : c ≠ .thread r.name) :
    p.Alike (p.onThread r f) c := by
  cases found : p.getThread r with
  | none => rw [onThread, found]; exact .refl p c
  | some row =>
    rw [onThread_some found]
    refine alike_putThread _ ?_
    rwa [named, filed.threads _ _ found]

theorem alike_onActivity {r f}
    (named : ∀ row, p.getActivity r = some row → (f row).metadata.name = r.name)
    (other : c ≠ .activity r.name) : p.Alike (p.onActivity r f) c := by
  cases found : p.getActivity r with
  | none => rw [onActivity, found]; exact .refl p c
  | some row =>
    rw [onActivity_some found]
    refine alike_putActivity _ ?_
    rwa [named row found]

theorem alike_settleThread (filed : p.Filed) {r}
    (named : ∀ row, (f row).metadata.name = row.metadata.name) (other : c ≠ .thread r.name)
    (edge : ∀ row, p.getThread r = some row → c ≠ .edge row.metadata.owner.raw r.raw) :
    p.Alike (p.settleThread r f) c := by
  cases found : p.getThread r with
  | none => rw [settleThread, found]; exact .refl p c
  | some row =>
    rw [settleThread_some found]
    refine .trans (alike_putThread _ ?_) (alike_removeChild _ _ (edge row found))
    rwa [named, filed.threads _ _ found]

theorem alike_settleActivity {a} (other : c ≠ .activity a.metadata.name)
    (edge : ∀ row, p.getActivity a.objectRef = some row →
      c ≠ .edge row.metadata.owner.raw a.objectRef.raw) : p.Alike (p.settleActivity a) c := by
  cases found : p.getActivity a.objectRef with
  | none => rw [settleActivity, found]; exact .refl p c
  | some row =>
    rw [settleActivity_some found]
    exact .trans (alike_putActivity _ other) (alike_removeChild _ _ (edge row found))

theorem alike_fileFlow {f} (other : ∀ name, f.metadata.name = .plain name → c ≠ .flow name) :
    p.Alike (p.fileFlow f) c := by
  unfold fileFlow
  cases named : f.metadata.name with
  | plain name => exact alike_putFlow name f (other name named)
  | generated base suffix => exact .refl p c

theorem alike_claimTask (filed : p.Filed) {t} (other : c ≠ .task t.metadata.name) :
    p.Alike (p.claimTask ts t) c := by
  unfold claimTask
  split
  · next row found =>
      split
      · refine alike_putTask _ ?_
        have named : row.metadata.name = t.metadata.name := filed.tasks _ _ found
        exact named ▸ other
      · exact .refl p c
  · exact .refl p c

theorem alike_claimTasks {tasks : List Task} (filed : p.Filed)
    (other : ∀ t ∈ tasks, c ≠ .task t.metadata.name) :
    p.Alike (tasks.foldl (claimTask ts) p) c := by
  induction tasks generalizing p with
  | nil => exact .refl p c
  | cons t tasks ih =>
    have first : p.Alike (p.claimTask ts t) c := alike_claimTask filed (other t (by simp))
    refine first.trans (ih (filed.claimTask ts t) ?_)
    exact fun t there => other t (by simp [there])

/-- The activity a thread is recorded in. -/
theorem alike_recordFanOut (filed : p.Filed)
    (other : ∀ r, t.metadata.owner = .activity r → c ≠ .activity r.name) :
    p.Alike (p.recordFanOut ts t) c := by
  unfold recordFanOut
  split
  · exact .refl p c
  · next r owned =>
      split
      · next act found =>
          split
          · refine alike_putActivity _ ?_
            have named : act.metadata.name = r.name := filed.activities _ _ found
            exact named ▸ other r owned
          · exact .refl p c
      · exact .refl p c

theorem alike_inheritScope (other : c ≠ .scope t.metadata.name) : p.Alike (p.inheritScope t) c := by
  unfold inheritScope
  split
  · split
    · exact alike_putVariables _ _ other
    · exact .refl p c
  · exact .refl p c

end Projection

open Projection

/-- Folding keeps every row filed under its own name. -/
theorem Event.apply_filed {p} (filed : p.Filed) (ev : Event) (ts : Timestamp) :
    (ev.apply ts p).Filed := by
  cases ev with
  | executionCreated => exact filed.putExecution _
  | executionCompleting | executionCompleted | executionTerminating | executionTerminated =>
    exact filed.onExecution _ _
  | flowCreated => exact filed.fileFlow _
  | flowVersionCreated _ v =>
    unfold Event.apply createFlowVersion
    dsimp only
    have filed' : (p.putFlowVersion v).Filed := { filed with }
    split
    · exact filed'
    · exact filed'.fileFlow _
  | stateActivating a => exact { filed.putActivity a with }
  | stateActivated | stateCompleting | stateTerminating => exact filed.onActivity _ _
  | stateCompleted | stateTerminated => exact filed.settleActivity _
  | variablesAssigned => exact filed.putVariables _ _
  | stateTransitioned => exact filed
  | taskActivated t => exact { filed.putTask t with }
  | tasksClaimed _ tasks => exact filed.claimTasks ts tasks
  | taskCompleted _ t output =>
    unfold Event.apply completeTask
    dsimp only
    split
    · exact { (filed.putTask _).onActivity _ _ with }
    · exact filed
  | taskFailed t =>
    unfold Event.apply failTask
    dsimp only
    split
    · split
      · exact (filed.putTask t).onActivity _ _
      · exact { filed.putTask t with }
    · exact filed
  | taskCancelled t =>
    unfold Event.apply cancelTask
    dsimp only
    split
    · exact { filed.putTask _ with }
    · exact filed
  | threadCreated t =>
    have born : ((((p.putThread t).inheritScope t).bump t.metadata.name).addChild
        t.metadata.owner.raw t.objectRef.raw).Filed :=
      { (filed.putThread t).inheritScope t with }
    exact born.recordFanOut ts t
  | threadCompleting | threadTerminating => exact filed.onThread _ _
  | threadCompleted | threadTerminated => exact filed.settleThread _ _

/-- The places an event writes. -/
def Event.Touches (p : Projection) : Event → Place → Prop
  | .executionCreated _ e, c | .executionCompleting e, c | .executionCompleted e, c
  | .executionTerminating e, c | .executionTerminated e, c => c = .execution e.metadata.name
  | .flowCreated _ f, c => ∃ name, f.metadata.name = .plain name ∧ c = .flow name
  | .flowVersionCreated _ v, c =>
    c = .flowVersion v.metadata.name ∨ ∃ name, v.flowName = some name ∧
      ∃ flow, (p.flowOf name v).metadata.name = .plain flow ∧ c = .flow flow
  | .stateActivating a, c =>
    c = .activity a.metadata.name ∨ c = .edge a.metadata.owner.raw a.objectRef.raw
  | .stateActivated a, c | .stateCompleting a, c | .stateTerminating a, c =>
    c = .activity a.metadata.name
  | .stateCompleted a, c | .stateTerminated a, c =>
    c = .activity a.metadata.name ∨ ∃ row, p.getActivity a.objectRef = some row ∧
      c = .edge row.metadata.owner.raw a.objectRef.raw
  | .variablesAssigned s _, c => c = .scope s.name
  | .stateTransitioned _ _, _ => False
  | .taskActivated t, c =>
    c = .task t.metadata.name ∨ c = .edge t.metadata.owner.raw t.objectRef.raw
  | .tasksClaimed _ tasks, c => ∃ t ∈ tasks, c = .task t.metadata.name
  | .taskCompleted _ t _, c | .taskFailed t _, c =>
    c = .task t.metadata.name ∨ ∃ row, p.getTask t.objectRef = some row ∧
      (c = .activity row.metadata.owner.name ∨ c = .edge row.metadata.owner.raw t.objectRef.raw)
  | .taskCancelled t, c =>
    c = .task t.metadata.name ∨ ∃ row, p.getTask t.objectRef = some row ∧
      c = .edge row.metadata.owner.raw t.objectRef.raw
  | .threadCreated t, c =>
    c = .thread t.metadata.name ∨ c = .edge t.metadata.owner.raw t.objectRef.raw ∨
      ∃ r, t.metadata.owner = .activity r ∧
        (c = .scope t.metadata.name ∨ c = .activity r.name)
  | .threadCompleting t, c | .threadTerminating t, c => c = .thread t.metadata.name
  | .threadCompleted t, c | .threadTerminated t, c =>
    c = .thread t.metadata.name ∨ ∃ row, p.getThread t.objectRef = some row ∧
      c = .edge row.metadata.owner.raw t.objectRef.raw

/-- What an event does not write stays as it was. -/
theorem Event.frame {p : Projection} {ev : Event} {c} (filed : p.Filed)
    (untouched : ¬ev.Touches p c) : p.Alike (ev.apply ts p) c := by
  cases ev with
  | executionCreated _ e => exact alike_putExecution e untouched
  | executionCompleting | executionCompleted | executionTerminating | executionTerminated =>
    exact alike_onExecution filed (fun _ => rfl) untouched
  | flowCreated _ f => exact alike_fileFlow fun name named same => untouched ⟨name, named, same⟩
  | flowVersionCreated _ v =>
    have version := alike_putFlowVersion (p := p) v fun same => untouched (.inl same)
    unfold Event.apply createFlowVersion
    dsimp only
    split
    · exact version
    · next name named =>
        refine version.trans (alike_fileFlow fun flow isFlow same => untouched (.inr ?_))
        exact ⟨name, named, flow, isFlow, same⟩
  | stateActivating a =>
    have born := alike_putActivity (p := p) a fun same => untouched (.inl same)
    have born : p.Alike ((p.putActivity a).bump a.metadata.name) c :=
      born.trans (alike_of_content rfl)
    exact born.trans (alike_addChild _ _ fun same => untouched (.inr same))
  | stateActivated | stateCompleting | stateTerminating =>
    exact alike_onActivity (fun _ _ => rfl) untouched
  | stateCompleted | stateTerminated =>
    refine alike_settleActivity (fun same => untouched (.inl same)) fun row found same => ?_
    exact untouched (.inr ⟨row, found, same⟩)
  | variablesAssigned s vars => exact alike_putVariables s vars untouched
  | stateTransitioned => exact .refl p c
  | taskActivated t =>
    have born := alike_putTask (p := p) t fun same => untouched (.inl same)
    have born : p.Alike ((p.putTask t).bump t.metadata.name) c :=
      born.trans (alike_of_content rfl)
    exact born.trans (alike_addChild _ _ fun same => untouched (.inr same))
  | tasksClaimed _ tasks =>
    exact alike_claimTasks filed fun t there same => untouched ⟨t, there, same⟩
  | taskCompleted _ t output =>
    unfold Event.apply completeTask
    dsimp only
    split
    · next row found =>
        have named : row.metadata.name = t.metadata.name := filed.tasks _ _ found
        refine .trans (.trans (alike_putTask _ ?_) (alike_onActivity ?_ ?_)) (alike_removeChild _ _ ?_)
        · exact fun same => untouched (.inl (named ▸ same))
        · exact fun act there => filed.activities _ act there
        · exact fun same => untouched (.inr ⟨row, found, .inl same⟩)
        · exact fun same => untouched (.inr ⟨row, found, .inr same⟩)
    · exact .refl p c
  | taskFailed t =>
    unfold Event.apply failTask
    dsimp only
    split
    · next row found =>
        have put := alike_putTask (p := p) t fun same => untouched (.inl same)
        split
        · refine put.trans (alike_onActivity ?_ ?_)
          · exact fun act there => filed.activities _ act there
          · exact fun same => untouched (.inr ⟨row, found, .inl same⟩)
        · exact put.trans
            (alike_removeChild _ _ fun same => untouched (.inr ⟨row, found, .inr same⟩))
    · exact .refl p c
  | taskCancelled t =>
    unfold Event.apply cancelTask
    dsimp only
    split
    · next row found =>
        have named : row.metadata.name = t.metadata.name := filed.tasks _ _ found
        refine .trans (alike_putTask _ ?_) (alike_removeChild _ _ ?_)
        · exact fun same => untouched (.inl (named ▸ same))
        · exact fun same => untouched (.inr ⟨row, found, same⟩)
    · exact .refl p c
  | threadCreated t =>
    have put := alike_putThread (p := p) t fun same => untouched (.inl same)
    have filed' : ((((p.putThread t).inheritScope t).bump t.metadata.name).addChild
        t.metadata.owner.raw t.objectRef.raw).Filed := { (filed.putThread t).inheritScope t with }
    have inherited : (p.putThread t).Alike ((p.putThread t).inheritScope t) c := by
      cases owned : t.metadata.owner with
      | execution r =>
        simp only [inheritScope, owned]
        exact .refl _ c
      | activity r =>
        exact alike_inheritScope fun same => untouched (.inr (.inr ⟨r, owned, .inl same⟩))
    have born : p.Alike (((p.putThread t).inheritScope t).bump t.metadata.name) c :=
      (put.trans inherited).trans (alike_of_content rfl)
    have owned := born.trans
      (alike_addChild t.metadata.owner.raw t.objectRef.raw fun same => untouched (.inr (.inl same)))
    refine owned.trans (alike_recordFanOut filed' fun r owned same => untouched ?_)
    exact .inr (.inr ⟨r, owned, .inr same⟩)
  | threadCompleting | threadTerminating =>
    exact alike_onThread filed (fun _ => rfl) untouched
  | threadCompleted | threadTerminated =>
    refine alike_settleThread filed (fun _ => rfl) (fun same => untouched (.inl same)) ?_
    exact fun row found same => untouched (.inr ⟨row, found, same⟩)

end Spica
