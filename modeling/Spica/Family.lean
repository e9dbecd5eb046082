import Spica.Frame
import Spica.Lib.Kin
import Spica.Names

/-! # The families of a projection

Every thread, activity and task has an owner and names the execution it belongs to. Executions are
the roots. A family is kept by every event that fits it: a birth under an owner of the same
execution, or a new value of a row that keeps its identity, its owner and its execution.
-/

namespace Spica

variable {r : ObjectRef .thread} {t : Thread} {a : Activity} {row : Task} {f : Thread → Thread}
  {k x : ObjectKind × ObjectName} {m : Kin.Member RawObjectRef} {κ : Census}

def Execution.kin (e : Execution) : Kin.Member RawObjectRef :=
  ⟨e.objectRef.raw, none, e.objectRef.raw⟩

def Thread.kin (t : Thread) : Kin.Member RawObjectRef :=
  ⟨t.objectRef.raw, some t.metadata.owner.raw, t.execution.raw⟩

def Activity.kin (a : Activity) : Kin.Member RawObjectRef :=
  ⟨a.objectRef.raw, some a.metadata.owner.raw, a.execution.raw⟩

def Task.kin (t : Task) : Kin.Member RawObjectRef :=
  ⟨t.objectRef.raw, some t.metadata.owner.raw, t.execution.raw⟩

/-- The members filed under each key. -/
abbrev Census : Type := ObjectKind × ObjectName → Option (Kin.Member RawObjectRef)

/-- Names are numbered in the order they are made, so an owner's number is lower. -/
def familyRank : ObjectKind × ObjectName → Nat
  | (.execution, _) => 0
  | (_, n) => n.suffix.getD 0 + 1

namespace Projection

def kin (p : Projection) : Census := p.view Execution.kin Thread.kin Activity.kin Task.kin

structure Family (p : Projection) : Prop where
  sound : Kin.Sound RawObjectRef.key familyRank p.kin
  edges : ∀ parent child, (parent, child) ∈ p.children →
    ∃ m, p.kin child.key = some m ∧ m.id = child ∧ m.owner = some parent
  /-- the counter is ahead of all generated names -/
  bounded : ∀ k m, p.kin k = some m → k.1 = .execution ∨ k.2.Below p.nextGeneratedSeq

variable {p : Projection} {ts : Timestamp}

theorem kin_execution {r e} (found : p.getExecution r = some e) : p.kin r.raw.key = some e.kin :=
  congrArg (Option.map Execution.kin) found

theorem kin_thread (found : p.getThread r = some t) : p.kin r.raw.key = some t.kin :=
  congrArg (Option.map Thread.kin) found

theorem kin_activity {r} (found : p.getActivity r = some a) : p.kin r.raw.key = some a.kin :=
  congrArg (Option.map Activity.kin) found

theorem kin_task {r t} (found : p.getTask r = some t) : p.kin r.raw.key = some t.kin :=
  congrArg (Option.map Task.kin) found

theorem Family.filed (family : p.Family) : p.Filed where
  executions n _ found := congrArg Prod.snd (family.sound.filed (kin_execution (r := ⟨n, .nil⟩) found))
  threads n _ found := congrArg Prod.snd (family.sound.filed (kin_thread (r := ⟨n, .nil⟩) found))
  activities n _ found := congrArg Prod.snd (family.sound.filed (kin_activity (r := ⟨n, .nil⟩) found))
  tasks n _ found := congrArg Prod.snd (family.sound.filed (kin_task (r := ⟨n, .nil⟩) found))

/-! The rows that are found again, under the name of their new value. -/

theorem Filed.executionAgain (filed : p.Filed) {r} {row e : Execution}
    (found : p.getExecution r = some row) (same : e.kin = row.kin) :
    p.getExecution e.objectRef = some row := by
  have named : e.metadata.name = r.name :=
    (congrArg (·.id.name) same).trans (filed.executions _ _ found)
  exact (congrArg p.executions.lookup named).trans found

theorem Filed.threadAgain (filed : p.Filed) {row} (found : p.getThread r = some row)
    (same : t.kin = row.kin) : p.getThread t.objectRef = some row := by
  have named : t.metadata.name = r.name :=
    (congrArg (·.id.name) same).trans (filed.threads _ _ found)
  exact (congrArg p.threads.lookup named).trans found

theorem Filed.activityAgain (filed : p.Filed) {r row} (found : p.getActivity r = some row)
    (same : a.kin = row.kin) : p.getActivity a.objectRef = some row := by
  have named : a.metadata.name = r.name :=
    (congrArg (·.id.name) same).trans (filed.activities _ _ found)
  exact (congrArg p.activities.lookup named).trans found

theorem Filed.taskAgain (filed : p.Filed) {r} {t : Task} (found : p.getTask r = some row)
    (same : t.kin = row.kin) : p.getTask t.objectRef = some row := by
  have named : t.metadata.name = r.name :=
    (congrArg (·.id.name) same).trans (filed.tasks _ _ found)
  exact (congrArg p.tasks.lookup named).trans found

section view

variable {α : Type} {fe : Execution → α} {ft : Thread → α} {fa : Activity → α} {fk : Task → α}

/-! A row put over one of the same view changes no view. -/

theorem view_keepExecution {e row} (found : p.getExecution e.objectRef = some row)
    (same : fe e = fe row) : (p.putExecution e).view fe ft fa fk = p.view fe ft fa fk := by
  have here : p.view fe ft fa fk (.execution, e.metadata.name) = some (fe row) :=
    congrArg (Option.map fe) found
  rw [view_putExecution, same, ← here, Function.update_eq_self]

theorem view_keepThread {row} (found : p.getThread t.objectRef = some row) (same : ft t = ft row) :
    (p.putThread t).view fe ft fa fk = p.view fe ft fa fk := by
  have here : p.view fe ft fa fk (.thread, t.metadata.name) = some (ft row) :=
    congrArg (Option.map ft) found
  rw [view_putThread, same, ← here, Function.update_eq_self]

theorem view_keepActivity {row} (found : p.getActivity a.objectRef = some row)
    (same : fa a = fa row) : (p.putActivity a).view fe ft fa fk = p.view fe ft fa fk := by
  have here : p.view fe ft fa fk (.activity, a.metadata.name) = some (fa row) :=
    congrArg (Option.map fa) found
  rw [view_putActivity, same, ← here, Function.update_eq_self]

theorem view_keepTask {t} (found : p.getTask t.objectRef = some row) (same : fk t = fk row) :
    (p.putTask t).view fe ft fa fk = p.view fe ft fa fk := by
  have here : p.view fe ft fa fk (.task, t.metadata.name) = some (fk row) :=
    congrArg (Option.map fk) found
  rw [view_putTask, same, ← here, Function.update_eq_self]

/-! Nor do the updates that keep the kin and the view of their row. -/

theorem view_onExecution (filed : p.Filed) {r} {f : Execution → Execution}
    (kin : ∀ row, (f row).kin = row.kin) (same : ∀ row, fe (f row) = fe row) :
    (p.onExecution r f).view fe ft fa fk = p.view fe ft fa fk := by
  cases found : p.getExecution r with
  | none => rw [onExecution, found]
  | some row =>
    rw [onExecution_some found]
    exact view_keepExecution (filed.executionAgain found (kin row)) (same row)

theorem view_onThread (filed : p.Filed) (kin : ∀ row, (f row).kin = row.kin)
    (same : ∀ row, ft (f row) = ft row) :
    (p.onThread r f).view fe ft fa fk = p.view fe ft fa fk := by
  cases found : p.getThread r with
  | none => rw [onThread, found]
  | some row =>
    rw [onThread_some found]
    exact view_keepThread (filed.threadAgain found (kin row)) (same row)

theorem view_onActivity (filed : p.Filed) {r f}
    (kin : ∀ row, p.getActivity r = some row → (f row).kin = row.kin)
    (same : ∀ row, p.getActivity r = some row → fa (f row) = fa row) :
    (p.onActivity r f).view fe ft fa fk = p.view fe ft fa fk := by
  cases found : p.getActivity r with
  | none => rw [onActivity, found]
  | some row =>
    rw [onActivity_some found]
    exact view_keepActivity (filed.activityAgain found (kin row found)) (same row found)

theorem view_settleThread (filed : p.Filed) (kin : ∀ row, (f row).kin = row.kin)
    (same : ∀ row, ft (f row) = ft row) :
    (p.settleThread r f).view fe ft fa fk = p.view fe ft fa fk := by
  cases found : p.getThread r with
  | none => rw [settleThread, found]
  | some row =>
    rw [settleThread_some found]
    exact view_keepThread (filed.threadAgain found (kin row)) (same row)

theorem view_settleActivity (same : ∀ row, p.getActivity a.objectRef = some row → fa a = fa row) :
    (p.settleActivity a).view fe ft fa fk = p.view fe ft fa fk := by
  cases found : p.getActivity a.objectRef with
  | none => rw [settleActivity, found]
  | some row =>
    rw [settleActivity_some found]
    exact view_keepActivity found (same row found)

theorem view_inheritScope (t : Thread) :
    (p.inheritScope t).view fe ft fa fk = p.view fe ft fa fk := by
  unfold inheritScope
  split
  · split <;> rfl
  · rfl

theorem view_fileFlow (f : Flow) : (p.fileFlow f).view fe ft fa fk = p.view fe ft fa fk := by
  unfold fileFlow
  split <;> rfl

theorem view_createFlowVersion (v : FlowVersion) :
    (p.createFlowVersion ts v).view fe ft fa fk = p.view fe ft fa fk := by
  unfold createFlowVersion
  split
  · rfl
  · exact view_fileFlow _

/-- A new thread; its container records it. -/
theorem view_createThread (filed : p.Filed) (t : Thread)
    (records : ∀ (act : Activity) state m,
      Applier.recordChild act.activityState t.index t.objectRef = some state →
      fa { act with activityState := some state, metadata := act.metadata.withUpdateAt m } = fa act) :
    (p.createThread ts t).view fe ft fa fk =
      Function.update (p.view fe ft fa fk) (.thread, t.metadata.name) (some (ft t)) := by
  have born : (((p.putThread t).inheritScope t).bump t.metadata.name).view fe ft fa fk =
      Function.update (p.view fe ft fa fk) (.thread, t.metadata.name) (some (ft t)) :=
    (view_inheritScope (p := p.putThread t) t).trans (view_putThread t)
  have filed' : ((((p.putThread t).inheritScope t).bump t.metadata.name).addChild
      t.metadata.owner.raw t.objectRef.raw).Filed := { (filed.putThread t).inheritScope t with }
  refine Eq.trans ?_ born
  rw [createThread]
  unfold recordFanOut
  split
  · rfl
  · split
    · next act found =>
        split
        · next recorded =>
            refine view_keepActivity (filed'.activityAgain found ?_) (records act _ ts recorded)
            rfl
        · rfl
    · rfl

theorem view_claimTasks (filed : p.Filed) (tasks : List Task)
    (same : ∀ row granted, fk (Applier.claimedRow row granted) = fk row) :
    (tasks.foldl (claimTask ts) p).view fe ft fa fk = p.view fe ft fa fk := by
  have one {p : Projection} (filed : p.Filed) (t : Task) :
      (p.claimTask ts t).view fe ft fa fk = p.view fe ft fa fk := by
    unfold claimTask
    split
    · next row found =>
        split
        · refine view_keepTask (filed.taskAgain found ?_) (same row t)
          rfl
        · rfl
    · rfl
  induction tasks generalizing p with
  | nil => rfl
  | cons t tasks ih => exact (ih (filed.claimTask ts t)).trans (one filed t)

/-- A settled task changes no view but its own. -/
theorem view_completeTask (filed : p.Filed) (t : Task) (output : Json)
    (task : ∀ (row : Task) at_, fk { row with
      status := .completed, metadata := row.metadata.withUpdateAt at_ } = fk row)
    (activity : ∀ (row : Activity) at_, fa { row with
      rawOutput := some output, metadata := row.metadata.withUpdateAt at_ } = fa row) :
    (p.completeTask ts t output).view fe ft fa fk = p.view fe ft fa fk := by
  unfold completeTask
  split
  · next row found =>
      refine Eq.trans (view_onActivity (filed.putTask _) (fun _ _ => ?_) fun row _ => activity row ts)
        (view_keepTask (filed.taskAgain found ?_) (task row _))
      all_goals rfl
  · rfl

theorem view_cancelTask (filed : p.Filed) (t : Task)
    (task : ∀ (row : Task) at_, fk { row with
      status := .cancelled, metadata := row.metadata.withUpdateAt at_ } = fk row) :
    (p.cancelTask t).view fe ft fa fk = p.view fe ft fa fk := by
  unfold cancelTask
  split
  · next row found =>
      refine view_keepTask (filed.taskAgain found ?_) (task row _)
      rfl
  · rfl

/-- A failed task takes its new value; its activity counts the retry. -/
theorem view_failTask (filed : p.Filed) (t : Task) (found : p.getTask t.objectRef = some row)
    (activity : ∀ (row : Activity) state at_, fa { row with
      retryState := state, metadata := row.metadata.withUpdateAt at_ } = fa row) :
    (p.failTask ts t).view fe ft fa fk =
      Function.update (p.view fe ft fa fk) (.task, t.metadata.name) (some (fk t)) := by
  simp only [failTask, found]
  split
  · refine Eq.trans (view_onActivity (filed.putTask t) (fun _ _ => ?_) fun row _ => activity row _ ts)
      (view_putTask t)
    rfl
  · exact view_putTask (p := p) t

end view

end Projection

open Projection

/-- The member an event brings into the family. -/
def Event.birth : Event → Option ((ObjectKind × ObjectName) × Kin.Member RawObjectRef)
  | .executionCreated _ e => some ((.execution, e.metadata.name), e.kin)
  | .threadCreated t => some ((.thread, t.metadata.name), t.kin)
  | .stateActivating a => some ((.activity, a.metadata.name), a.kin)
  | .taskActivated t => some ((.task, t.metadata.name), t.kin)
  | _ => none

def Event.census (κ : Census) (e : Event) : Census :=
  match e.birth with
  | some (k, m) => Function.update κ k (some m)
  | none => κ

/-- A value that replaces a row is of the row's kin. -/
def Event.Replaces (κ : Census) : Event → Prop
  | .stateActivated a | .stateCompleting a | .stateCompleted a | .stateTerminating a
  | .stateTerminated a => ∀ m, κ (.activity, a.metadata.name) = some m → a.kin = m
  | .taskFailed t _ => ∀ m, κ (.task, t.metadata.name) = some m → t.kin = m
  | _ => True

section events

variable {p q : Projection} {ts : Timestamp} {e : Event}

theorem Event.kin_apply (filed : p.Filed) (replaces : e.Replaces p.kin) :
    (e.apply ts p).kin = e.census p.kin := by
  cases e with
  | executionCreated _ e => exact view_putExecution e
  | executionCompleting | executionCompleted | executionTerminating | executionTerminated =>
    exact view_onExecution filed (fun _ => rfl) fun _ => rfl
  | flowCreated => exact view_fileFlow _
  | flowVersionCreated _ v => exact view_createFlowVersion v
  | stateActivating a => exact view_putActivity (p := p) a
  | stateActivated a | stateCompleting a | stateTerminating a =>
    have same (row) (found : p.getActivity a.objectRef = some row) : a.kin = row.kin :=
      replaces _ (kin_activity found)
    exact view_onActivity filed same same
  | stateCompleted a | stateTerminated a =>
    exact view_settleActivity fun row found => replaces _ (kin_activity found)
  | variablesAssigned | stateTransitioned => rfl
  | taskActivated t => exact view_putTask (p := p) t
  | tasksClaimed _ tasks => exact view_claimTasks filed tasks fun _ _ => rfl
  | taskCompleted _ t output => exact view_completeTask filed t output (fun _ _ => rfl) fun _ _ => rfl
  | taskFailed t =>
    cases found : p.getTask t.objectRef with
    | none => simp only [Event.apply, failTask, found, Event.census, Event.birth]
    | some row =>
      have here := kin_task found
      rw [← replaces _ here] at here
      refine (view_failTask filed t found fun _ _ _ => rfl).trans ?_
      exact (congrArg (Function.update p.kin _) here.symm).trans (Function.update_eq_self _ _)
  | taskCancelled t => exact view_cancelTask filed t fun _ _ => rfl
  | threadCreated t => exact view_createThread filed t fun _ _ _ _ => rfl
  | threadCompleting | threadTerminating => exact view_onThread filed (fun _ => rfl) fun _ => rfl
  | threadCompleted | threadTerminated => exact view_settleThread filed (fun _ => rfl) fun _ => rfl

/-- The only new edge is that of a birth. -/
theorem Event.edge_apply (filed : p.Filed) {x y} (there : (x, y) ∈ (e.apply ts p).children) :
    (x, y) ∈ p.children ∨ ∃ k m, e.birth = some (k, m) ∧ m.id = y ∧ m.owner = some x := by
  have onActivity (q : Projection) (r : ObjectRef .activity) (f : Activity → Activity) :
      (q.onActivity r f).children = q.children := by
    unfold Projection.onActivity
    split <;> rfl
  by_cases touched : e.Touches p (.edge x y)
  · cases e with
    | stateActivating a =>
      rcases mem_addChild.mp there with old | ⟨rfl, rfl⟩
      · exact .inl old
      · exact .inr ⟨_, _, rfl, rfl, rfl⟩
    | taskActivated t =>
      rcases mem_addChild.mp there with old | ⟨rfl, rfl⟩
      · exact .inl old
      · exact .inr ⟨_, _, rfl, rfl, rfl⟩
    | threadCreated t =>
      obtain ⟨rfl, rfl⟩ : x = t.metadata.owner.raw ∧ y = t.objectRef.raw := by
        simpa [Event.Touches] using touched
      exact .inr ⟨_, _, rfl, rfl, rfl⟩
    | stateCompleted a | stateTerminated a =>
      obtain ⟨row, found, -⟩ : ∃ row, p.getActivity a.objectRef = some row ∧ _ := by
        simpa [Event.Touches] using touched
      simp only [Event.apply, settleActivity_some found] at there
      exact .inl (mem_removeChild.mp there).1
    | threadCompleted t | threadTerminated t =>
      obtain ⟨row, found, -⟩ : ∃ row, p.getThread t.objectRef = some row ∧ _ := by
        simpa [Event.Touches] using touched
      simp only [Event.apply, settleThread_some found] at there
      exact .inl (mem_removeChild.mp there).1
    | taskCancelled t =>
      obtain ⟨row, found, -⟩ : ∃ row, p.getTask t.objectRef = some row ∧ _ := by
        simpa [Event.Touches] using touched
      simp only [Event.apply, cancelTask, found] at there
      exact .inl (mem_removeChild.mp there).1
    | taskCompleted _ t output =>
      obtain ⟨row, found, -⟩ : ∃ row, p.getTask t.objectRef = some row ∧ _ := by
        simpa [Event.Touches] using touched
      simp only [Event.apply, completeTask, found] at there
      have there := (mem_removeChild.mp there).1
      rw [onActivity] at there
      exact .inl there
    | taskFailed t =>
      obtain ⟨row, found, -⟩ : ∃ row, p.getTask t.objectRef = some row ∧ _ := by
        simpa [Event.Touches] using touched
      simp only [Event.apply, failTask, found] at there
      split at there
      · rw [onActivity] at there
        exact .inl there
      · exact .inl (mem_removeChild.mp there).1
    | _ => simp [Event.Touches] at touched
  · have alike : p.Alike (e.apply ts p) (.edge x y) := e.frame filed touched
    exact .inl (alike.mp there)

/-- The event may be folded into the family. -/
structure Event.Fits (κ : Census) (next : Nat) (e : Event) : Prop where
  replaces : e.Replaces κ
  fresh : ∀ k m, e.birth = some (k, m) → κ k = none
  owned : ∀ k m i, e.birth = some (k, m) → m.owner = some i → k.2.Below next ∧
    ∃ n, κ i.key = some n ∧ n.id = i ∧ n.root = m.root ∧ familyRank i.key < familyRank k

theorem Event.birth_filed (birth : e.birth = some (k, m)) : m.id.key = k := by
  cases e <;> cases birth <;> rfl

theorem Event.birth_top (birth : e.birth = some (k, m)) (top : m.owner = none) :
    k.1 = .execution ∧ m.root = m.id := by
  cases e <;> cases birth
  case executionCreated => exact ⟨rfl, rfl⟩
  all_goals cases top

theorem Event.Fits.grows {next} (fits : e.Fits κ next) : Kin.Grows κ (e.census κ) := by
  unfold Event.census
  cases birth : e.birth with
  | none => exact .refl
  | some born => exact Kin.grows_update (fits.fresh _ _ birth)

/-- An event that fits keeps the family. -/
theorem Projection.Family.event (family : p.Family) (fits : e.Fits p.kin p.nextGeneratedSeq) :
    (e.apply ts p).Family := by
  have kin : (e.apply ts p).kin = e.census p.kin := e.kin_apply family.filed fits.replaces
  have grows : Kin.Grows p.kin (e.apply ts p).kin := kin ▸ fits.grows
  have counter : p.nextGeneratedSeq ≤ (e.apply ts p).nextGeneratedSeq := by
    rw [e.apply_counter]
    exact e.le_raised _
  constructor
  · rw [kin, Event.census]
    cases birth : e.birth with
    | none => exact family.sound
    | some born =>
      obtain ⟨k, m⟩ := born
      refine family.sound.born (fits.fresh k m birth) (e.birth_filed birth)
        (fun top => (e.birth_top birth top).2) fun i owner => ?_
      exact (fits.owned k m i birth owner).2
  · intro parent child there
    rcases e.edge_apply family.filed there with old | ⟨k, m, birth, rfl, owner⟩
    · obtain ⟨m, found, rest⟩ := family.edges parent child old
      exact ⟨m, grows _ _ found, rest⟩
    · refine ⟨m, ?_, rfl, owner⟩
      rw [kin, e.birth_filed birth, Event.census, birth]
      exact Function.update_self ..
  · intro k m found
    rw [kin, Event.census] at found
    have old (there : p.kin k = some m) :
        k.1 = .execution ∨ k.2.Below (e.apply ts p).nextGeneratedSeq :=
      (family.bounded k m there).imp_right fun below => below.mono counter
    cases birth : e.birth with
    | none =>
      rw [birth] at found
      exact old found
    | some born =>
      obtain ⟨k', m'⟩ := born
      simp only [birth] at found
      by_cases same : k = k'
      · subst same
        cases owner : m'.owner with
        | none => exact .inl (e.birth_top birth owner).1
        | some i => exact .inr ((fits.owned k m' i birth owner).1.mono counter)
      · rw [Function.update_of_ne same] at found
        exact old found

/-- The object an event is about. -/
def Event.subject : Event → Option (ObjectKind × ObjectName)
  | .executionCreated _ e | .executionCompleting e | .executionCompleted e
  | .executionTerminating e | .executionTerminated e => some (.execution, e.metadata.name)
  | .threadCreated t | .threadCompleting t | .threadCompleted t | .threadTerminating t
  | .threadTerminated t => some (.thread, t.metadata.name)
  | .stateActivating a | .stateActivated a | .stateCompleting a | .stateCompleted a
  | .stateTerminating a | .stateTerminated a => some (.activity, a.metadata.name)
  | .variablesAssigned s _ => some (.thread, s.name)
  | .stateTransitioned a _ => some (.activity, a.name)
  | .taskActivated t | .taskCompleted _ t _ | .taskFailed t _ | .taskCancelled t =>
    some (.task, t.metadata.name)
  | .flowCreated _ _ | .flowVersionCreated _ _ | .tasksClaimed _ _ => none

/-- The objects a place belongs to. -/
def Place.keys : Place → List (ObjectKind × ObjectName)
  | .execution n => [(.execution, n)]
  | .thread n | .scope n => [(.thread, n)]
  | .activity n => [(.activity, n)]
  | .task n => [(.task, n)]
  | .edge parent child => [parent.key, child.key]
  | .flow _ | .flowVersion _ => []

/-- The object under the key belongs to the given root. -/
def Census.Root (κ : Census) (x k : ObjectKind × ObjectName) : Prop :=
  ∃ m, κ k = some m ∧ m.root.key = x

theorem Census.Root.grows {κ' : Census} (root : κ.Root x k) (grows : Kin.Grows κ κ') :
    κ'.Root x k := by
  obtain ⟨m, found, same⟩ := root
  exact ⟨m, grows _ _ found, same⟩

/-- An owner belongs where what it owns does. -/
theorem Projection.Family.owner_root (family : p.Family) {i} (found : p.kin k = some m)
    (owner : m.owner = some i) (root : p.kin.Root x k) : p.kin.Root x i.key := by
  obtain ⟨m', found', same⟩ := root
  cases found.symm.trans found'
  obtain ⟨n, there, -, equal, -⟩ := family.sound.owned found owner
  exact ⟨n, there, equal ▸ same⟩

/-- An event writes only what belongs to its subject or to the owner of its subject. -/
theorem Event.touches_within (family : p.Family) (fits : e.Fits p.kin p.nextGeneratedSeq)
    (subject : e.subject = some k) (root : (e.apply ts p).kin.Root x k) {c}
    (touches : e.Touches p c) {j} (there : j ∈ c.keys) : (e.apply ts p).kin.Root x j := by
  have family' : (e.apply ts p).Family := family.event fits
  have kin : (e.apply ts p).kin = e.census p.kin := e.kin_apply family.filed fits.replaces
  have old {k m} (found : p.kin k = some m) : (e.apply ts p).kin k = some m :=
    kin ▸ fits.grows _ _ found
  have born {k m} (birth : e.birth = some (k, m)) : (e.apply ts p).kin k = some m := by
    rw [kin, Event.census, birth]
    exact Function.update_self ..
  have edge {parent child : RawObjectRef} (there : j ∈ (Place.edge parent child).keys)
      (above : (e.apply ts p).kin.Root x parent.key) (root : (e.apply ts p).kin.Root x child.key) :
      (e.apply ts p).kin.Root x j := by
    rcases List.mem_pair.mp there with rfl | rfl
    · exact above
    · exact root
  cases e with
  | flowCreated | flowVersionCreated | tasksClaimed => cases subject
  | executionCreated | executionCompleting | executionCompleted | executionTerminating
  | executionTerminated | stateActivated | stateCompleting | stateTerminating | variablesAssigned
  | threadCompleting | threadTerminating =>
    cases subject
    cases touches
    cases List.mem_singleton.mp there
    exact root
  | stateTransitioned => exact touches.elim
  | stateActivating a | taskActivated t =>
    cases subject
    rcases touches with rfl | rfl
    · cases List.mem_singleton.mp there
      exact root
    · exact edge there (family'.owner_root (born rfl) rfl root) root
  | stateCompleted a | stateTerminated a =>
    cases subject
    rcases touches with rfl | ⟨row, found, rfl⟩
    · cases List.mem_singleton.mp there
      exact root
    · exact edge there (family'.owner_root (old (kin_activity found)) rfl root) root
  | threadCompleted t | threadTerminated t =>
    cases subject
    rcases touches with rfl | ⟨row, found, rfl⟩
    · cases List.mem_singleton.mp there
      exact root
    · exact edge there (family'.owner_root (old (kin_thread found)) rfl root) root
  | taskCancelled t =>
    cases subject
    rcases touches with rfl | ⟨row, found, rfl⟩
    · cases List.mem_singleton.mp there
      exact root
    · exact edge there (family'.owner_root (old (kin_task found)) rfl root) root
  | taskCompleted _ t _ | taskFailed t _ =>
    cases subject
    rcases touches with rfl | ⟨row, found, rfl | rfl⟩
    · cases List.mem_singleton.mp there
      exact root
    · cases List.mem_singleton.mp there
      exact family'.owner_root (old (kin_task found)) rfl root
    · exact edge there (family'.owner_root (old (kin_task found)) rfl root) root
  | threadCreated t =>
    cases subject
    rcases touches with rfl | rfl | ⟨r, owned, rfl | rfl⟩
    · cases List.mem_singleton.mp there
      exact root
    · exact edge there (family'.owner_root (born rfl) rfl root) root
    · cases List.mem_singleton.mp there
      exact root
    · cases List.mem_singleton.mp there
      have owner : t.kin.owner = some r.raw := by rw [Thread.kin, owned]; rfl
      exact family'.owner_root (born rfl) owner root

end events

end Spica
