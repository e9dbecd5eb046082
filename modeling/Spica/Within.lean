import Spica.Duty.Base
import Spica.Family
import Spica.Ledger
import Spica.Outcome.Shape

/-! # Answers stay within a tree

Every answer fits the family it is given in, and stays within the tree of the object the command is
sent to: its events are about objects of that tree, and so are the commands it leaves behind. What
belongs to another tree is then as it was.
-/

namespace Spica

open Projection

variable {κ κ' : Census} {x : ObjectRef .execution} {ev e' : Event} {next n : Nat}
  {kind : ObjectKind} {t t' : Task} {shown : Option String → String} {workerId : String}
  {at_ : Timestamp} {cs : List Command} {uid : Ulid}

/-! ## Writing within a family -/

/-- The deeds fit the family, one after the other. -/
def DeedsFit (κ : Census) (next : Nat) : List Deed → Prop
  | [] => True
  | .take :: ds => DeedsFit κ (next + 1) ds
  | .event e :: ds => e.Fits κ next ∧ DeedsFit (e.census κ) (e.raised next) ds
  | .command _ :: ds | .reject _ :: ds => DeedsFit κ next ds

/-- The second object belongs to the tree of the first. -/
def Census.Kindred (κ : Census) (k j : ObjectKind × ObjectName) : Prop :=
  ∀ x, κ.Root x k → κ.Root x j

/-- The events are about objects of one tree. -/
def DeedsWithin (κ : Census) (k : ObjectKind × ObjectName) : List Deed → Prop
  | [] => True
  | .event e :: ds => (∃ j, e.subject = some j ∧ (e.census κ).Kindred k j) ∧
      DeedsWithin (e.census κ) k ds
  | .take :: ds | .command _ :: ds | .reject _ :: ds => DeedsWithin κ k ds

theorem Census.Kindred.refl {k} : κ.Kindred k k :=
  fun _ root => root

theorem Census.Root.unique {x y k} (one : κ.Root x k) (other : κ.Root y k) : x = y := by
  obtain ⟨m, found, rfl⟩ := one
  obtain ⟨n, found', rfl⟩ := other
  cases found.symm.trans found'
  rfl

section writes

variable {cause : Nat} {p q : Projection} {ds : List Deed} {es : List Entry}
  {k : ObjectKind × ObjectName}

theorem Projection.Family.take (family : p.Family) :
    (p.putNextGeneratedSeq (p.nextGeneratedSeq + 1)).Family where
  sound := family.sound
  edges := family.edges
  bounded k m found := (family.bounded k m found).imp_right fun below => below.mono (Nat.le_succ _)

/-- After an event that fits, the other deeds still fit. -/
theorem Projection.Family.fit_event (family : p.Family) (ts : Timestamp)
    (fit : DeedsFit p.kin p.nextGeneratedSeq (.event e :: ds)) :
    e.Fits p.kin p.nextGeneratedSeq ∧ (e.apply ts p).kin = e.census p.kin ∧
      DeedsFit (e.apply ts p).kin (e.apply ts p).nextGeneratedSeq ds := by
  obtain ⟨fits, rest⟩ := fit
  have kin : (e.apply ts p).kin = e.census p.kin := e.kin_apply family.filed fits.replaces
  rw [← kin, ← e.apply_counter] at rest
  exact ⟨fits, kin, rest⟩

/-- Deeds that fit keep the family, and lose nobody. -/
theorem Writes.family (writes : Writes cause p ds es q) (family : p.Family)
    (fit : DeedsFit p.kin p.nextGeneratedSeq ds) : q.Family ∧ Kin.Grows p.kin q.kin := by
  induction writes with
  | nil => exact ⟨family, .refl⟩
  | take _ ih => exact ih family.take fit
  | @event p q ds es e ts _ _ ih =>
    obtain ⟨fits, kin, rest⟩ := family.fit_event ts fit
    obtain ⟨family', grows⟩ := ih (family.event fits) rest
    exact ⟨family', (kin ▸ fits.grows).trans grows⟩
  | command _ _ ih | reject _ _ ih => exact ih family fit

/-- Who is born is there at the end. -/
theorem Writes.birth (writes : Writes cause p ds es q) (family : p.Family)
    (fit : DeedsFit p.kin p.nextGeneratedSeq ds) {e m} (there : .event e ∈ ds)
    (birth : e.birth = some (k, m)) : q.kin k = some m := by
  induction writes with
  | nil => cases there
  | take _ ih => exact ih family.take fit (by simpa using there)
  | @event p q ds es e' ts folds writes ih =>
    obtain ⟨fits, kin, rest⟩ := family.fit_event ts fit
    rcases List.mem_cons.mp there with first | later
    · cases first
      refine (writes.family (family.event fits) rest).2 _ _ ?_
      rw [kin, Event.census, birth]
      exact Function.update_self ..
    · exact ih (family.event fits) rest later
  | command _ _ ih | reject _ _ ih => exact ih family fit (by simpa using there)

/-- Who is there at the end was there, or was born. -/
theorem Writes.born (writes : Writes cause p ds es q) (family : p.Family)
    (fit : DeedsFit p.kin p.nextGeneratedSeq ds) {m} (found : q.kin k = some m) :
    p.kin k = some m ∨ ∃ e, .event e ∈ ds ∧ e.birth = some (k, m) := by
  induction writes with
  | nil => exact .inl found
  | take _ ih =>
    refine (ih family.take fit found).imp_right ?_
    rintro ⟨e, there, birth⟩
    exact ⟨e, List.mem_cons_of_mem _ there, birth⟩
  | @event p q ds es e ts _ _ ih =>
    obtain ⟨fits, kin, rest⟩ := family.fit_event ts fit
    rcases ih (family.event fits) rest found with old | ⟨e', there, birth⟩
    · rw [kin, Event.census] at old
      cases birth : e.birth with
      | none =>
        rw [birth] at old
        exact .inl old
      | some born =>
        simp only [birth] at old
        by_cases same : k = born.1
        · subst same
          rw [Function.update_self] at old
          cases old
          exact .inr ⟨e, List.mem_cons_self, birth⟩
        · rw [Function.update_of_ne same] at old
          exact .inl old
    · exact .inr ⟨e', List.mem_cons_of_mem _ there, birth⟩
  | command _ _ ih | reject _ _ ih =>
    refine (ih family fit found).imp_right ?_
    rintro ⟨e, there, birth⟩
    exact ⟨e, List.mem_cons_of_mem _ there, birth⟩

/-- What belongs to another tree is as it was. -/
theorem Writes.apart (writes : Writes cause p ds es q) (family : p.Family)
    (fit : DeedsFit p.kin p.nextGeneratedSeq ds) (within : DeedsWithin p.kin k ds) {x j}
    (root : p.kin.Root x k) {c} (there : j ∈ c.keys) (other : ¬q.kin.Root x j) : p.Alike q c := by
  induction writes with
  | nil => exact .refl _ _
  | take _ ih => exact ih family.take fit within root other
  | @event p q ds es e ts _ writes ih =>
    obtain ⟨fits, rest⟩ := fit
    obtain ⟨⟨i, subject, kindred⟩, within⟩ := within
    have kin : (e.apply ts p).kin = e.census p.kin := e.kin_apply family.filed fits.replaces
    have root' : (e.census p.kin).Root x k := root.grows fits.grows
    have about := kindred x root'
    rw [← kin] at rest within root' about
    rw [← e.apply_counter] at rest
    have untouched : ¬e.Touches p c := by
      intro touches
      have inside := e.touches_within family fits subject about touches there
      exact other (inside.grows (writes.family (family.event fits) rest).2)
    exact (e.frame family.filed untouched).trans (ih (family.event fits) rest within root' other)
  | command _ _ ih | reject _ _ ih => exact ih family fit within root other

/-- Every event of the entries is a deed. -/
theorem Writes.event_mem (writes : Writes cause p ds es q) {entry} (there : entry ∈ es)
    (carries : entry.event? = some ev) : .event ev ∈ ds := by
  induction writes with
  | nil => cases there
  | take _ ih => exact List.mem_cons_of_mem _ (ih there)
  | event ts _ _ ih =>
    rcases List.mem_cons.mp there with rfl | later
    · cases carries
      exact List.mem_cons_self
    · exact List.mem_cons_of_mem _ (ih later)
  | command ts _ ih | reject ts _ ih =>
    rcases List.mem_cons.mp there with rfl | later
    · cases carries
    · exact List.mem_cons_of_mem _ (ih later)

/-- Every event among the deeds has its entry. -/
theorem Writes.mem_event (writes : Writes cause p ds es q) (there : .event ev ∈ ds) :
    ∃ ts, ⟨some cause, ts, .event ev⟩ ∈ es := by
  induction writes with
  | nil => cases there
  | take _ ih => exact ih (by simpa using there)
  | event ts _ _ ih =>
    rcases List.mem_cons.mp there with first | later
    · cases first
      exact ⟨ts, List.mem_cons_self⟩
    · obtain ⟨ts', found⟩ := ih later
      exact ⟨ts', List.mem_cons_of_mem _ found⟩
  | command ts _ ih | reject ts _ ih =>
    obtain ⟨ts', found⟩ := ih (by simpa using there)
    exact ⟨ts', List.mem_cons_of_mem _ found⟩

/-- How many suffixes are taken. -/
def takes : List Deed → Nat
  | [] => 0
  | .take :: ds => takes ds + 1
  | .event _ :: ds | .command _ :: ds | .reject _ :: ds => takes ds

theorem takes_append (ds ds' : List Deed) : takes (ds ++ ds') = takes ds + takes ds' := by
  induction ds with
  | nil => simp [takes]
  | cons d ds ih =>
    cases d with
    | take =>
      simp only [List.cons_append, takes, ih]
      omega
    | event | command | reject => exact ih

/-- Every suffix taken raises the counter. -/
theorem Writes.taken (writes : Writes cause p ds es q) :
    p.nextGeneratedSeq + takes ds ≤ q.nextGeneratedSeq := by
  induction writes with
  | nil => exact le_rfl
  | @take p q ds es _ ih =>
    have counted : (p.putNextGeneratedSeq (p.nextGeneratedSeq + 1)).nextGeneratedSeq =
        p.nextGeneratedSeq + 1 := rfl
    simp only [takes]
    omega
  | @event p q ds es e ts _ _ ih =>
    rw [e.apply_counter] at ih
    have := e.le_raised p.nextGeneratedSeq
    simp only [takes]
    omega
  | command _ _ ih | reject _ _ ih => exact ih

def Deed.command? : Deed → Option Command
  | .command c => some c
  | _ => none

/-- The commands among the deeds. -/
def deedCommands (ds : List Deed) : List Command := ds.filterMap Deed.command?

theorem Writes.commands (writes : Writes cause p ds es q) : commandsOf es = deedCommands ds := by
  induction writes with
  | nil => rfl
  | take _ ih => exact ih
  | event _ _ _ ih => exact ih
  | command _ _ ih => exact congrArg (List.cons _) ih
  | reject _ _ ih => exact ih

theorem mem_deedCommands {c} : c ∈ deedCommands ds ↔ .command c ∈ ds := by
  simp only [deedCommands, List.mem_filterMap]
  constructor
  · rintro ⟨d, there, is⟩
    cases d <;> cases is
    exact there
  · exact fun there => ⟨_, there, rfl⟩

end writes

/-! ## Where a command goes -/

/-- The object a command is sent to. -/
def Command.target : Command → Option (ObjectKind × ObjectName)
  | .createFlow _ | .claimTasks _ => none
  | .createExecution c => some (.execution, c.name)
  | .spawnThread c => some c.owner.raw.key
  | .completeExecution c => some c.execution.raw.key
  | .completeThread c => some c.thread.raw.key
  | .terminateExecution c => some (.execution, c.name)
  | .terminateThread c => some c.thread.raw.key
  | .activateState c => some c.owner.raw.key
  | .completeState c => some c.activity.raw.key
  | .terminateState c => some c.activity.raw.key
  | .triggerDeadline (.execution r) _ => some r.raw.key
  | .triggerDeadline (.activity r) _ => some r.raw.key
  | .activateTask c => some c.owner.raw.key
  | .completeTask c => some c.task.raw.key
  | .failTask c => some c.task.raw.key
  | .cancelTask task => some task.raw.key
  | .continueComplete r | .continueTerminate r => some r.key

/-- The object under the reference belongs to the execution. -/
def Census.Belongs (κ : Census) (r : RawObjectRef) (execution : ObjectRef .execution) : Prop :=
  ∃ m, κ r.key = some m ∧ m.id = r ∧ m.root = execution.raw

/-- A command that gives birth names an owner that is there, and the owner's execution. -/
def Command.Founded (κ : Census) (next : Nat) : Command → Prop
  | .activateState c => κ.Belongs c.owner.raw c.execution
  | .spawnThread c => κ.Belongs c.owner.raw c.execution
  | .activateTask c => κ.Belongs c.owner.raw c.execution ∧ c.task.name.Below next ∧
      familyRank c.owner.raw.key < familyRank c.task.raw.key
  | _ => True

theorem Census.Belongs.grows {r} (belongs : κ.Belongs r x) (grows : Kin.Grows κ κ') :
    κ'.Belongs r x := by
  obtain ⟨m, found, rest⟩ := belongs
  exact ⟨m, grows _ _ found, rest⟩

theorem Command.Founded.mono {next' : Nat} {c : Command} (founded : c.Founded κ next)
    (grows : Kin.Grows κ κ') (le : next ≤ next') : c.Founded κ' next' := by
  cases c with
  | activateState | spawnThread => exact Census.Belongs.grows founded grows
  | activateTask =>
    obtain ⟨owner, below, rank⟩ := founded
    exact ⟨owner.grows grows, below.mono le, rank⟩
  | _ => exact trivial

/-! ## Relatives -/

namespace Projection.Family

variable {p : Projection} {k : ObjectKind × ObjectName} {m : Kin.Member RawObjectRef}
  {i : RawObjectRef}

theorem owner_kindred (family : p.Family) (found : p.kin k = some m) (owner : m.owner = some i) :
    p.kin.Kindred k i.key :=
  fun _ root => family.owner_root found owner root

/-- The owner a row names is there, in the row's own execution. -/
theorem owner_belongs (family : p.Family) (found : p.kin k = some m) (owner : m.owner = some i)
    (root : m.root = x.raw) : p.kin.Belongs i x := by
  obtain ⟨n, there, id, same, -⟩ := family.sound.owned found owner
  exact ⟨n, there, id, same.trans root⟩

/-- What an object owns belongs where the object does. -/
theorem owned_kindred (family : p.Family) (grows : Kin.Grows p.kin κ) (found : p.kin k = some m)
    (owner : m.owner = some i) : κ.Kindred i.key k := by
  rintro x ⟨n, there, root⟩
  obtain ⟨n', there', -, same, -⟩ := family.sound.owned found owner
  cases there.symm.trans (grows _ _ there')
  exact ⟨m, grows _ _ found, same ▸ root⟩

/-- Names that are still to be minted are not taken. -/
theorem unused (family : p.Family) (generated : kind ≠ .execution) (b : PlainName)
    (le : p.nextGeneratedSeq ≤ n) : p.kin (kind, b.generatedFromKey n) = none := by
  cases found : p.kin (kind, b.generatedFromKey n) with
  | none => rfl
  | some m =>
    rcases family.bounded _ _ found with root | below
    · exact absurd root generated
    · exact absurd (below.mono le) (ObjectName.generated_not_below b n)

theorem rank_lt (family : p.Family) (found : p.kin k = some m) (generated : kind ≠ .execution)
    (b : PlainName) (le : p.nextGeneratedSeq ≤ n) :
    familyRank k < familyRank (kind, b.generatedFromKey n) := by
  have rank : familyRank (kind, b.generatedFromKey n) = n + 1 := by
    cases kind <;> first | rfl | exact absurd rfl generated
  rw [rank]
  obtain ⟨kind', name⟩ := k
  rcases family.bounded _ _ found with root | ⟨s, suffix, lt⟩
  · cases root
    exact Nat.succ_pos _
  · have : familyRank (kind', name) ≤ s + 1 := by
      have suffix : name.suffix = some s := suffix
      cases kind' <;> simp [familyRank, suffix]
    omega

end Projection.Family

/-! ## What a mark keeps -/

theorem Activity.Same.kin {a a' : Activity} (same : a.Same a') : a'.kin = a.kin := by
  have owner : a'.metadata.owner = a.metadata.owner := same.identity.2.2.2.2.2.symm
  rw [Activity.kin, Activity.kin, same.objectRef, owner, same.execution]

theorem Task.Same.kin (same : t.Same t') : t'.kin = t.kin := by
  have ref : t'.objectRef = t.objectRef := same.identity.objectRef .task
  have owner : t'.metadata.owner = t.metadata.owner := same.identity.2.2.2.2.2.symm
  rw [Task.kin, Task.kin, ref, owner, same.execution]

/-- An assertion keeps what its update keeps. -/
theorem Asserted.keeps {env : Env} {α β : Type} {f : α → β} {old new update}
    (asserted : Asserted env old update new) (kept : ∀ {at_ a}, update at_ = .ok a → f a = f old) :
    f new = f old := by
  unfold Asserted at asserted
  split at asserted
  · obtain ⟨at_, ok⟩ := asserted
    exact kept ok
  · rw [asserted]

section marks

variable {env : Env} {act completed terminating terminated : Activity}

theorem Asserted.completed_kin {output : Json}
    (asserted : Asserted env act (act.markCompleted output) completed) : completed.kin = act.kin :=
  asserted.keeps fun ok => (Activity.markCompleted_ok ok).2.1.kin

theorem Asserted.terminating_kin {reason : TerminationReason}
    (asserted : Asserted env act (act.markTerminating reason) terminating) :
    terminating.kin = act.kin :=
  asserted.keeps fun ok => (Activity.markTerminating_ok ok).2.1.kin

theorem Asserted.terminated_kin (asserted : Asserted env act act.markTerminated terminated) :
    terminated.kin = act.kin := by
  refine asserted.keeps fun ok => ?_
  obtain ⟨r, -, same, -⟩ := Activity.markTerminated_ok ok
  exact same.kin

theorem Task.markCompleted_kin (ok : t.markCompleted shown workerId at_ = .ok t') :
    t'.kin = t.kin := by
  unfold Task.markCompleted at ok
  split at ok
  · cases ok
  · split at ok <;> cases ok
    rfl

theorem Task.markCancelled_kin (ok : t.markCancelled at_ = .ok t') : t'.kin = t.kin := by
  unfold Task.markCancelled at ok
  split at ok <;> cases ok
  rfl

/-- A failure that is not taken up again ends the task. -/
theorem Task.handleFailure_terminal {backoff checked error}
    (ok : t.handleFailure shown backoff checked workerId error at_ = .ok (t', .terminal)) :
    t'.status = .failed := by
  cases (Task.handleFailure_inv ok).2.2 with
  | unmatched | spent => rfl

end marks

/-! ## The events of an answer -/

/-- The new value an event carries for a row that is there. -/
def Event.value : Event → Option (Kin.Member RawObjectRef)
  | .executionCompleting e | .executionCompleted e | .executionTerminating e
  | .executionTerminated e => some e.kin
  | .threadCompleting t | .threadCompleted t | .threadTerminating t | .threadTerminated t =>
    some t.kin
  | .stateActivated a | .stateCompleting a | .stateCompleted a | .stateTerminating a
  | .stateTerminated a => some a.kin
  | .taskCompleted _ t _ | .taskFailed t _ | .taskCancelled t => some t.kin
  | _ => none

/-- The event is about the given object, or assigns in the scope of its owner. -/
inductive Event.About (m : Kin.Member RawObjectRef) : Event → Prop
  | value {e} (carries : e.value = some m) : About m e
  | moved {a next} (self : m.id = a.raw) : About m (.stateTransitioned a next)
  | assigned {t vars} (owner : m.owner = some t.raw) : About m (.variablesAssigned t vars)

section about

variable {env : Env} {M : Machines} {p q : Projection} {c : Command} {k : ObjectKind × ObjectName}
  {ds as : List Deed} {e : Event} {act : Activity} {d : State} {vars : Variables} {ending : Ending}
  {m : Kin.Member RawObjectRef}

theorem Event.fits_of_none (birth : e.birth = none) (replaces : e.Replaces κ) : e.Fits κ next := by
  refine ⟨replaces, fun k m born => ?_, fun k m i born => ?_⟩
  all_goals
    rw [birth] at born
    cases born

/-- A new value of a row that is there gives no birth. -/
theorem Event.value_fits (carries : e.value = some m) (found : κ m.id.key = some m) :
    e.birth = none ∧ e.Replaces κ ∧ e.subject = some m.id.key := by
  have same (n) (there : κ m.id.key = some n) : m = n := Option.some.inj (found.symm.trans there)
  cases e with
  | stateActivated | stateCompleting | stateCompleted | stateTerminating | stateTerminated
  | taskFailed =>
    cases carries
    exact ⟨rfl, same, rfl⟩
  | executionCompleting | executionCompleted | executionTerminating | executionTerminated
  | threadCompleting | threadCompleted | threadTerminating | threadTerminated | taskCompleted
  | taskCancelled =>
    cases carries
    exact ⟨rfl, trivial, rfl⟩
  | _ => cases carries

/-- What is about an object gives no birth and stays in the object's tree. -/
theorem Event.About.fits (about : e.About m) (family : p.Family) (found : p.kin k = some m) :
    e.birth = none ∧ e.Replaces p.kin ∧ ∃ j, e.subject = some j ∧ p.kin.Kindred k j := by
  have filed : m.id.key = k := family.sound.filed found
  subst filed
  cases about with
  | value carries =>
    obtain ⟨birth, replaces, subject⟩ := e.value_fits carries found
    exact ⟨birth, replaces, _, subject, .refl⟩
  | moved self =>
    rw [self]
    exact ⟨rfl, trivial, _, rfl, .refl⟩
  | assigned owner => exact ⟨rfl, trivial, _, rfl, family.owner_kindred found owner⟩

theorem deeds_about (family : p.Family) (found : p.kin k = some m)
    (about : ∀ e, .event e ∈ ds → e.About m) (next : Nat) :
    DeedsFit p.kin next ds ∧ DeedsWithin p.kin k ds := by
  induction ds generalizing next with
  | nil => exact ⟨trivial, trivial⟩
  | cons x ds ih =>
    have rest (e : Event) (there : .event e ∈ ds) : e.About m :=
      about e (List.mem_cons_of_mem _ there)
    cases x with
    | take => exact ih rest _
    | command | reject => exact ih rest next
    | event e =>
      obtain ⟨birth, replaces, subject⟩ := (about e List.mem_cons_self).fits family found
      have census : e.census p.kin = p.kin := by rw [Event.census, birth]
      obtain ⟨fit, within⟩ := ih rest (e.raised next)
      unfold DeedsFit DeedsWithin
      rw [census]
      exact ⟨⟨e.fits_of_none birth replaces, fit⟩, subject, within⟩

/-- Deeds without an event change no family. -/
theorem deeds_quiet (quiet : ∀ e, .event e ∉ ds) (next : Nat) :
    DeedsFit κ next ds ∧ DeedsWithin κ k ds := by
  induction ds generalizing next with
  | nil => exact ⟨trivial, trivial⟩
  | cons x ds ih =>
    have rest (e : Event) : .event e ∉ ds := fun there => quiet e (List.mem_cons_of_mem _ there)
    cases x with
    | event e => exact absurd List.mem_cons_self (quiet e)
    | take | command | reject => exact ih rest _

theorem event_mem_cons : .event e ∈ .event e' :: ds ↔ e = e' ∨ .event e ∈ ds := by simp

theorem event_mem_command : .event e ∈ .command c :: ds ↔ .event e ∈ ds := by simp

theorem event_mem_commands : Deed.event e ∈ cs.map Deed.command ↔ False := by
  simp

theorem event_only (there : Deed.event e ∈ .event e' :: cs.map .command) :
    e = e' := by simpa using there

theorem Assigns.about {states assign r}
    (assigns : Assigns env act.metadata.owner states vars assign r as) (there : .event e ∈ as) :
    e.About act.kin := by
  obtain ⟨vars', same⟩ := assigns.event there
  cases same
  exact .assigned rfl

theorem Ending.Emits.about (emits : ending.Emits env act q ds) (there : .event e ∈ ds) :
    e.About act.kin := by
  cases emits with
  | fails => simp at there
  | moves closes =>
    simp only [event_mem_cons, event_mem_command, List.not_mem_nil, or_false] at there
    rcases there with rfl | rfl
    · exact .value (congrArg some closes.completed_kin)
    · exact .moved rfl
  | ends closes =>
    simp only [event_mem_cons, event_mem_command, List.not_mem_nil, or_false] at there
    subst there
    exact .value (congrArg some closes.completed_kin)
  | succeeds closes =>
    obtain rfl := event_only there
    exact .value (congrArg some closes.completed_kin)
  | breaks opens closes =>
    simp only [event_mem_cons, event_mem_commands, or_false] at there
    rcases there with rfl | rfl
    · exact .value (congrArg some opens.terminating_kin)
    · exact .value (congrArg some (closes.terminated_kin.trans opens.terminating_kin))

theorem Closes.about (closes : Closes env act q ds) (there : .event e ∈ ds) : e.About act.kin := by
  cases closes with
  | intro closes =>
    obtain rfl := event_only there
    exact .value (congrArg some closes.terminated_kin)

theorem Terminates.about (terminates : Terminates env d act p q ds) (there : .event e ∈ ds) :
    e.About act.kin := by
  unfold Terminates at terminates
  cases d with
  | task s =>
    obtain ⟨cs, -, ⟨-, closes⟩ | ⟨-, rfl⟩⟩ := terminates
    · exact closes.about there
    · simp at there
  | parallel | map =>
    rcases terminates with ⟨-, closes⟩ | ⟨-, cs, -, rfl⟩
    · exact closes.about there
    · simp at there
  | _ => exact Closes.about terminates there

/-- The commands whose answers can bring objects of a tree into being. -/
def Command.bears : Command → Bool
  | .createExecution _ | .spawnThread _ | .activateState _ | .activateTask _ => true
  | _ => false

/-- The other answers are about the object the command is sent to. -/
theorem Outcome.about (outcome : Outcome env M p q c ds) (target : c.target = some k)
    (old : c.bears = false) : ∃ m, p.kin k = some m ∧ ∀ e, .event e ∈ ds → e.About m := by
  cases outcome with
  | flowKnown | flowCreated | tasksClaimed => cases target
  | executionCreated | threadSpawned | stateRefused | stateEntered | taskActivated => cases old
  | executionCompleted found opens _ closes =>
    cases target
    refine ⟨_, kin_execution found, fun e there => ?_⟩
    obtain ⟨-, rfl⟩ := ExecutionElement.markCompleting_ok opens
    have completed := closes.keeps (f := Execution.kin) fun ok => by
      obtain ⟨-, rfl⟩ := ExecutionElement.markCompleted_ok ok
      rfl
    simp only [event_mem_cons, List.not_mem_nil, or_false] at there
    rcases there with rfl | rfl
    · exact .value rfl
    · exact .value (congrArg some completed)
  | executionTerminated found _ opens _ closes =>
    cases target
    refine ⟨_, kin_execution found, fun e there => ?_⟩
    obtain ⟨-, rfl⟩ := ExecutionElement.markTerminating_ok opens
    obtain ⟨r, -, rfl⟩ := ExecutionElement.markTerminated_ok closes
    simp only [event_mem_cons, List.not_mem_nil, or_false] at there
    rcases there with rfl | rfl <;> exact .value rfl
  | executionSwept found _ opens =>
    cases target
    refine ⟨_, kin_execution found, fun e there => ?_⟩
    obtain ⟨-, rfl⟩ := ExecutionElement.markTerminating_ok opens
    obtain rfl := event_only there
    exact .value rfl
  | threadCompleted found _ _ opens closes =>
    cases target
    refine ⟨_, kin_thread found, fun e there => ?_⟩
    subst opens closes
    simp only [event_mem_cons, event_mem_commands, or_false] at there
    rcases there with rfl | rfl <;> exact .value rfl
  | threadTerminated found opens _ closes =>
    cases target
    refine ⟨_, kin_thread found, fun e there => ?_⟩
    obtain ⟨-, rfl⟩ := ThreadElement.markTerminating_ok opens
    subst closes
    simp only [event_mem_cons, event_mem_commands, or_false] at there
    rcases there with rfl | rfl <;> exact .value rfl
  | threadSwept found opens =>
    cases target
    refine ⟨_, kin_thread found, fun e there => ?_⟩
    obtain ⟨-, rfl⟩ := ThreadElement.markTerminating_ok opens
    obtain rfl := event_only there
    exact .value rfl
  | @stateCompleted _ act completing _ _ _ _ _ _ found _ _ _ opens _ concludes emits =>
    cases target
    refine ⟨_, kin_activity found, fun e there => ?_⟩
    have kin : completing.kin = act.kin := (Activity.markCompleting_ok opens).2.1.kin
    obtain ⟨states, assign, r, assigns⟩ := concludes.assigns
    rw [← kin]
    rcases event_mem_cons.mp there with rfl | there
    · exact .value rfl
    rcases List.mem_append.mp there with assigned | ended
    · exact assigns.about assigned
    · exact emits.about ended
  | stateCaught found _ _ _ _ _ projects _ isCaught =>
    cases target
    refine ⟨_, kin_activity found, fun e there => ?_⟩
    obtain ⟨r, assigns⟩ := projects.assigns
    subst isCaught
    simp only [List.mem_append, event_mem_commands, event_mem_cons, event_mem_command,
      List.not_mem_nil, or_false] at there
    rcases there with assigned | rfl | rfl
    · exact assigns.about assigned
    · exact .value rfl
    · exact .moved rfl
  | catchFailed found _ _ _ _ _ projects =>
    cases target
    refine ⟨_, kin_activity found, fun e there => ?_⟩
    obtain ⟨r, assigns⟩ := projects.assigns
    simp only [List.mem_append, event_mem_command, List.not_mem_nil, or_false] at there
    exact assigns.about there
  | @stateTerminated _ act terminating _ _ _ _ found _ _ _ _ opens terminates =>
    cases target
    refine ⟨_, kin_activity found, fun e there => ?_⟩
    have kin : terminating.kin = act.kin := (Activity.markTerminating_ok opens).2.1.kin
    rw [← kin]
    rcases event_mem_cons.mp there with rfl | there
    · exact .value rfl
    · exact terminates.about there
  | taskCompleted found closes =>
    cases target
    refine ⟨_, kin_task found, fun e there => ?_⟩
    obtain rfl := event_only there
    exact .value (congrArg some (Task.markCompleted_kin closes))
  | taskFailed found fails =>
    cases target
    refine ⟨_, kin_task found, fun e there => ?_⟩
    rcases event_mem_cons.mp there with rfl | there
    · exact .value (congrArg some (TaskElement.handleFailure_ok fails).2.1.kin)
    · split at there <;> simp at there
  | taskCancelled found closes =>
    cases target
    refine ⟨_, kin_task found, fun e there => ?_⟩
    obtain rfl := event_only there
    exact .value (congrArg some (Task.markCancelled_kin closes))
  | executionTimedOut found =>
    cases target
    exact ⟨_, kin_execution found, fun e there => by simp at there⟩
  | activityTimedOut found =>
    cases target
    exact ⟨_, kin_activity found, fun e there => by simp at there⟩
  | activitySwept kind found phase =>
    have here := kin_activity found
    rw [RawObjectRef.typed_raw kind] at here
    rcases phase with ⟨rfl, -⟩ | ⟨rfl, -⟩ <;> cases target
    all_goals exact ⟨_, here, fun e there => (event_mem_commands.mp there).elim⟩
  | threadSweptAgain kind found phase =>
    have here := kin_thread found
    rw [RawObjectRef.typed_raw kind] at here
    rcases phase with ⟨rfl, -⟩ | ⟨rfl, -⟩ <;> cases target
    all_goals exact ⟨_, here, fun e there => (event_mem_commands.mp there).elim⟩
  | executionSweptAgain kind found =>
    have here := kin_execution found
    rw [RawObjectRef.typed_raw kind] at here
    cases target
    exact ⟨_, here, fun e there => (event_mem_commands.mp there).elim⟩
  | activityConcluded kind found _ _ _ _ _ concludes emits =>
    have here := kin_activity found
    rw [RawObjectRef.typed_raw kind] at here
    cases target
    refine ⟨_, here, fun e there => ?_⟩
    obtain ⟨states, assign, r, assigns⟩ := concludes.assigns
    rcases List.mem_append.mp there with assigned | ended
    · exact assigns.about assigned
    · exact emits.about ended
  | threadClosedCompleted kind found _ _ closes =>
    have here := kin_thread found
    rw [RawObjectRef.typed_raw kind] at here
    cases target
    subst closes
    refine ⟨_, here, fun e there => ?_⟩
    obtain rfl := event_only there
    exact .value rfl
  | executionClosedCompleted kind found _ closes =>
    have here := kin_execution found
    rw [RawObjectRef.typed_raw kind] at here
    cases target
    refine ⟨_, here, fun e there => ?_⟩
    obtain ⟨-, rfl⟩ := ExecutionElement.markCompleted_ok closes
    cases List.mem_singleton.mp there
    exact .value rfl
  | activityClosedTerminated kind found _ _ _ _ _ terminates =>
    have here := kin_activity found
    rw [RawObjectRef.typed_raw kind] at here
    cases target
    exact ⟨_, here, fun e there => terminates.about there⟩
  | threadClosedTerminated kind found _ _ closes =>
    have here := kin_thread found
    rw [RawObjectRef.typed_raw kind] at here
    cases target
    subst closes
    refine ⟨_, here, fun e there => ?_⟩
    obtain rfl := event_only there
    exact .value rfl
  | executionClosedTerminated kind found _ closes =>
    have here := kin_execution found
    rw [RawObjectRef.typed_raw kind] at here
    cases target
    refine ⟨_, here, fun e there => ?_⟩
    obtain ⟨r, -, rfl⟩ := ExecutionElement.markTerminated_ok closes
    cases List.mem_singleton.mp there
    exact .value rfl

/-! ## Births -/

theorem Event.Fits.newborn {name i} (birth : e.birth = some ((kind, name), m))
    (owner : m.owner = some i) (root : m.root = x.raw) (fresh : κ (kind, name) = none)
    (below : name.Below next) (belongs : κ.Belongs i x)
    (rank : familyRank i.key < familyRank (kind, name)) : e.Fits κ next := by
  refine ⟨?_, fun k n born => ?_, fun k n j born owner' => ?_⟩
  · cases e <;> first | exact trivial | cases birth
  · cases birth.symm.trans born
    exact fresh
  · cases birth.symm.trans born
    cases owner.symm.trans owner'
    obtain ⟨n, there, id, same⟩ := belongs
    exact ⟨below, n, there, id, same.trans root.symm, rank⟩

/-- Who is born belongs where the owner does. -/
theorem Event.Fits.kindred {i} (fits : e.Fits κ next) (birth : e.birth = some (k, m))
    (owner : m.owner = some i) : (e.census κ).Kindred i.key k := by
  rintro x ⟨n, there, root⟩
  obtain ⟨-, n', there', -, same, -⟩ := fits.owned k m i birth owner
  cases there.symm.trans (fits.grows _ _ there')
  refine ⟨m, ?_, same ▸ root⟩
  rw [Event.census, birth]
  exact Function.update_self ..

theorem enteredActivity_kin (d : State) (c : ActivateState) (uid : Ulid) (seq : Nat)
    (at_ : Timestamp) : (enteredActivity d c uid seq at_).kin =
      ⟨(ObjectRef.raw (k := .activity) ⟨c.execution.name.base.generatedFromKey seq, uid⟩),
        some c.owner.raw, c.execution.raw⟩ := by
  cases d <;> rfl

/-- A birth under a freshly minted name. -/
theorem Projection.Family.newborn (family : p.Family) {b : PlainName} {i : RawObjectRef}
    (generated : kind ≠ .execution)
    (birth : e.birth = some ((kind, b.generatedFromKey p.nextGeneratedSeq), m))
    (owner : m.owner = some i) (root : m.root = x.raw) (belongs : p.kin.Belongs i x) :
    e.Fits p.kin (p.nextGeneratedSeq + 1) := by
  obtain ⟨n, there, -⟩ := id belongs
  exact .newborn birth owner root (family.unused generated b le_rfl) ⟨_, rfl, Nat.lt_succ_self _⟩
    belongs (family.rank_lt there generated b le_rfl)

theorem entered_fits (family : p.Family) {c : ActivateState}
    (belongs : p.kin.Belongs c.owner.raw c.execution)
    (isNew : act = enteredActivity d c uid p.nextGeneratedSeq at_) :
    (Event.stateActivating act).Fits p.kin (p.nextGeneratedSeq + 1) ∧
      ((Event.stateActivating act).census p.kin).Kindred c.owner.raw.key act.objectRef.raw.key := by
  have kin : act.kin = _ := isNew ▸ enteredActivity_kin d c uid p.nextGeneratedSeq at_
  have name : act.metadata.name = c.execution.name.base.generatedFromKey p.nextGeneratedSeq :=
    congrArg (·.id.name) kin
  have birth : (Event.stateActivating act).birth =
      some ((.activity, c.execution.name.base.generatedFromKey p.nextGeneratedSeq), act.kin) := by
    rw [← name]
    rfl
  have owner : act.kin.owner = some c.owner.raw := by rw [kin]
  have fits := family.newborn (by simp) birth owner (by rw [kin]) belongs
  exact ⟨fits, fits.kindred rfl owner⟩

theorem created_fits (family : p.Family) {c rootUid deadline startAt at_' exec root}
    (unused : p.getExecution ⟨c.name, .nil⟩ = none)
    (isNew : exec = ExecutionElement.createdExecution c uid deadline at_)
    (isRoot : root = ExecutionElement.rootThread c ⟨c.name, uid⟩ startAt rootUid
      p.nextGeneratedSeq at_') :
    (Event.executionCreated c.requestId exec).Fits p.kin p.nextGeneratedSeq ∧
      (Event.threadCreated root).Fits ((Event.executionCreated c.requestId exec).census p.kin)
        (p.nextGeneratedSeq + 1) := by
  subst isNew isRoot
  constructor
  · refine ⟨trivial, fun k m born => ?_, fun k m i born owner => ?_⟩
    all_goals cases born
    · exact congrArg (Option.map Execution.kin) unused
    · cases owner
  · refine .newborn rfl rfl rfl ?_ ⟨_, rfl, Nat.lt_succ_self _⟩
      ⟨_, Function.update_self .., rfl, rfl⟩ (Nat.succ_pos _)
    have other : ((.thread, c.name.base.generatedFromKey p.nextGeneratedSeq) :
        ObjectKind × ObjectName) ≠ (.execution, c.name) := by simp
    exact (Function.update_of_ne other _ _).trans (family.unused (by simp) _ le_rfl)

/-- Every answer fits the family, and is about the tree of the object the command is sent to. -/
theorem Outcome.fits (family : p.Family) (outcome : Outcome env M p q c ds)
    (founded : c.Founded p.kin p.nextGeneratedSeq)
    (fresh : ∀ name, c.activates = some name → p.kin (.task, name) = none) :
    DeedsFit p.kin p.nextGeneratedSeq ds ∧ ∀ k, c.target = some k → DeedsWithin p.kin k ds := by
  have old (bears : c.bears = false) (k) (target : c.target = some k) :
      DeedsFit p.kin p.nextGeneratedSeq ds ∧ ∀ k, c.target = some k → DeedsWithin p.kin k ds := by
    obtain ⟨m, found, about⟩ := outcome.about target bears
    obtain ⟨fit, within⟩ := deeds_about family found about p.nextGeneratedSeq
    refine ⟨fit, fun k' target' => ?_⟩
    cases target.symm.trans target'
    exact within
  cases outcome with
  | flowKnown => exact ⟨trivial, by rintro k ⟨⟩⟩
  | flowCreated =>
    refine ⟨⟨?_, ?_, trivial⟩, by rintro k ⟨⟩⟩
    all_goals exact Event.fits_of_none rfl trivial
  | tasksClaimed =>
    refine ⟨⟨?_, trivial⟩, by rintro k ⟨⟩⟩
    exact Event.fits_of_none rfl trivial
  | executionCreated unused _ _ isRoot =>
    obtain ⟨created, born⟩ := created_fits family unused rfl isRoot
    refine ⟨⟨created, born, trivial⟩, fun k target => ?_⟩
    cases target
    subst isRoot
    exact ⟨⟨_, rfl, .refl⟩, ⟨_, rfl, born.kindred rfl rfl⟩, trivial⟩
  | @threadSpawned c _ _ path uid at_ spawned _ _ _ _ isSpawned =>
    subst isSpawned
    have fits : (Event.threadCreated (ThreadElement.spawnedThread c path uid p.nextGeneratedSeq
        at_)).Fits p.kin (p.nextGeneratedSeq + 1) :=
      family.newborn (by simp) rfl rfl rfl founded
    refine ⟨⟨fits, trivial⟩, fun k target => ?_⟩
    cases target
    exact ⟨⟨_, rfl, fits.kindred rfl rfl⟩, trivial⟩
  | stateRefused _ _ _ isNew =>
    obtain ⟨fits, kindred⟩ := entered_fits family founded isNew
    refine ⟨⟨fits, trivial⟩, fun k target => ?_⟩
    cases target
    exact ⟨⟨_, rfl, kindred⟩, trivial⟩
  | @stateEntered _ _ d _ _ _ _ act prepared activated v ds r _ _ _ isNew input isActivated launches =>
    obtain ⟨fits, kindred⟩ := entered_fits family founded isNew
    obtain ⟨state, rfl⟩ := processInput_keeps input
    have same : activated.kin = act.kin := by rw [isActivated]; rfl
    have there : ((Event.stateActivating act).census p.kin) activated.kin.id.key =
        some activated.kin := by
      rw [same]
      exact Function.update_self ..
    obtain ⟨birth, replaces, subject⟩ := Event.value_fits (e := .stateActivated activated) rfl there
    have quiet (e) : .event e ∉ ds ++ afterLaunch d act.objectRef v r := by
      rw [List.mem_append, not_or]
      exact ⟨launches.command, afterLaunch_command⟩
    refine ⟨⟨fits, Event.fits_of_none birth replaces,
      (deeds_quiet (k := act.objectRef.raw.key) quiet _).1⟩, fun k target => ?_⟩
    cases target
    refine ⟨⟨_, rfl, kindred⟩, ⟨_, subject, ?_⟩, (deeds_quiet quiet 0).2⟩
    rw [same]
    exact kindred
  | @taskActivated c at_ =>
    obtain ⟨belongs, below, rank⟩ := founded
    have fits : (Event.taskActivated (TaskElement.newTask c at_)).Fits p.kin p.nextGeneratedSeq :=
      .newborn rfl rfl rfl (fresh _ rfl) below belongs rank
    refine ⟨⟨fits, trivial⟩, fun k target => ?_⟩
    cases target
    exact ⟨⟨_, rfl, fits.kindred rfl rfl⟩, trivial⟩
  | activitySwept _ _ phase => rcases phase with ⟨rfl, -⟩ | ⟨rfl, -⟩ <;> exact old rfl _ rfl
  | threadSweptAgain _ _ phase => rcases phase with ⟨rfl, -⟩ | ⟨rfl, -⟩ <;> exact old rfl _ rfl
  | _ => exact old rfl _ rfl

end about

end Spica
