import Spica.Course
import Spica.Logic
import Spica.Names

/-! # The duties of a handler

What is shown of every entry a handler emits, and what it may rely on in return: the rules by
which all answers are checked.
-/

namespace Spica

/-- Cached machines are what the stored versions parse to. -/
def Coherent (env : Env) (rows : Projection) (machines : MachineCache) : Prop :=
  ∀ version machine, machines.lookup version = some machine →
    ∃ ver, rows.getFlowVersion version = some ver ∧ env.parse ver.definition = .ok machine

/-- The names of the tasks whose activation is asked for. -/
def activations (out : List Entry) : List ObjectName :=
  out.filterMap fun e => match e.payload with
    | .command (.activateTask p) => some p.task.name
    | _ => none

/-- The owners a command names are there, as it names them. -/
def Command.Sound (rows : Projection) : Command → Prop
  | .spawnThread p => ∃ a, rows.getActivity p.owner = some a ∧ a.objectRef = p.owner ∧ a.fansOut
  | .activateState p => ∃ t, rows.getThread p.owner = some t ∧ t.objectRef = p.owner
  | _ => True

/-- Tasks are activated in the wake of an event. -/
def Announced (out : List Entry) : Prop :=
  ∀ before e after, out = before ++ e :: after → activations [e] ≠ [] →
    ∃ e' ∈ before, e'.event? ≠ none

def Event.definesFlow : Event → Bool
  | .flowCreated _ _ | .flowVersionCreated _ _ => true
  | _ => false

/-- Where a dispatch starts from. -/
structure Start where
  rows : Projection
  /-- The command is the one that creates flows. -/
  definesFlow : Bool
  /-- The task the command activates. -/
  activates : Option ObjectName
  /-- No report of a task whose owner is over is dispatched. -/
  punctual : Prop

/-- A suffix minted by this dispatch. -/
def Start.Minted (start : Start) (s : Draft) (name : ObjectName) : Prop :=
  ∃ k, name.suffix = some k ∧ start.rows.nextGeneratedSeq ≤ k ∧ k < s.rows.nextGeneratedSeq

/-- Flows and tasks are created by their own commands only. -/
def Start.Allows (start : Start) : Event → Prop
  | .flowCreated _ _ | .flowVersionCreated _ _ => start.definesFlow = true
  | .taskActivated t => start.activates = some t.metadata.name
  | _ => True

/-- What a dispatch keeps from beginning to end. -/
structure Draft.Lawful (env : Env) (start : Start) (s : Draft) : Prop where
  sound : s.rows.Sound env
  course : Course env start.punctual start.rows s.out s.rows
  named : ∀ e ∈ s.out, ∀ ev, e.event? = some ev → ev.Named
  bounded : s.rows.Bounded
  coherent : Coherent env start.rows s.machines
  versions : start.definesFlow = false → s.rows.flowVersions = start.rows.flowVersions
  counter : start.rows.nextGeneratedSeq ≤ s.rows.nextGeneratedSeq
  commands : ∀ e ∈ s.out, ∀ c, e.payload = .command c → c.Sound s.rows
  minted : ∀ name ∈ activations s.out, start.Minted s name ∧ s.rows.tasks.lookup name = none
  nodup : (activations s.out).Nodup
  tasks : ∀ name, s.rows.tasks.lookup name ≠ none →
    start.rows.tasks.lookup name ≠ none ∨ start.activates = some name
  announced : Announced s.out

structure Draft.MayEvent (env : Env) (start : Start) (s : Draft) (e : Event) : Prop where
  legal : e.Legal env s.rows
  named : e.Named
  allowed : start.Allows e
  unasked : ∀ name, e.bornName = some name → name ∉ activations s.out
  punctual : start.punctual → e.Punctual s.rows

/-- An event that gives birth to nothing. -/
theorem Draft.MayEvent.unborn {env start} {s : Draft} {e} (legal : e.Legal env s.rows)
    (quiet : e.bornName = none) (allowed : start.Allows e)
    (punctual : start.punctual → e.Punctual s.rows) : s.MayEvent env start e where
  legal := legal
  named name born := by rw [quiet] at born; cases born
  allowed := allowed
  unasked name born := by rw [quiet] at born; cases born
  punctual := punctual

def Draft.MayCommand (start : Start) (s : Draft) : Command → Prop
  | .activateTask p => start.Minted s p.task.name ∧ s.rows.tasks.lookup p.task.name = none ∧
      p.task.name ∉ activations s.out ∧ ∃ e ∈ s.out, e.event? ≠ none
  | c => c.Sound s.rows

/-! ## The rules hold together -/

variable {env : Env} {start : Start} {s : Draft}

theorem activations_append (xs ys : List Entry) :
    activations (xs ++ ys) = activations xs ++ activations ys := List.filterMap_append ..

/-- A command that names its owners keeps naming them. -/
theorem Command.Sound.mono {p p'} {c : Command} (evolves : p.Evolves env p') (sound : c.Sound p) :
    c.Sound p' := by
  cases c with
  | spawnThread spawn =>
    obtain ⟨a, found, ref, fans⟩ := sound
    obtain ⟨a', found', moved⟩ := evolves.activities.row found
    have same := Activity.Moves.same moved
    exact ⟨a', found', (same.identity.objectRef .activity).trans ref, same.fansOut.trans fans⟩
  | activateState activate =>
    obtain ⟨t, found, ref⟩ := sound
    obtain ⟨t', found', moved⟩ := evolves.threads.row found
    exact ⟨t', found', ((Thread.Moves.same moved).identity.objectRef .thread).trans ref⟩
  | _ => trivial

theorem Announced.append {out} (announced : Announced out) {e}
    (wake : activations [e] ≠ [] → ∃ e' ∈ out, e'.event? ≠ none) : Announced (out ++ [e]) := by
  intro before x after split asks
  rcases List.append_eq_append_iff.mp split with ⟨zs, rfl, rest⟩ | ⟨zs, rfl, rest⟩
  · cases zs with
    | nil =>
      cases rest
      simpa using wake asks
    | cons z zs => simp at rest
  · cases zs with
    | nil =>
      cases rest
      simpa using wake asks
    | cons z zs =>
      cases rest
      exact announced before x zs rfl asks

section Versions

open Projection

variable {p : Projection} {ts : Timestamp}

theorem onActivity_flowVersions (r : ObjectRef .activity) (f : Activity → Activity) :
    (p.onActivity r f).flowVersions = p.flowVersions := by
  unfold Projection.onActivity
  split <;> rfl

theorem recordFanOut_flowVersions (t : Thread) :
    (p.recordFanOut ts t).flowVersions = p.flowVersions := by
  unfold recordFanOut
  split
  · rfl
  · split
    · split <;> rfl
    · rfl

theorem claimTasks_flowVersions (granted : List Task) :
    (granted.foldl (claimTask ts) p).flowVersions = p.flowVersions := by
  induction granted generalizing p with
  | nil => rfl
  | cons g rest ih =>
    rw [List.foldl_cons, ih]
    unfold claimTask
    split
    · split <;> rfl
    · rfl

theorem failTask_flowVersions (t : Task) : (p.failTask ts t).flowVersions = p.flowVersions := by
  unfold failTask
  split
  · split
    · exact onActivity_flowVersions ..
    · rfl
  · rfl

theorem completeTask_flowVersions (t : Task) (output : Json) :
    (p.completeTask ts t output).flowVersions = p.flowVersions := by
  unfold completeTask
  split
  · exact onActivity_flowVersions ..
  · rfl

/-- Only the events of a new flow touch the versions. -/
theorem Event.apply_flowVersions {e : Event} (other : e.definesFlow = false) (p : Projection)
    (ts : Timestamp) : (e.apply ts p).flowVersions = p.flowVersions := by
  cases e with
  | flowCreated _ _ => cases other
  | flowVersionCreated _ _ => cases other
  | executionCreated | stateActivating | taskActivated | variablesAssigned
  | stateTransitioned => rfl
  | executionCompleting | executionCompleted | executionTerminating | executionTerminated =>
    unfold Event.apply onExecution
    dsimp only
    split <;> rfl
  | threadCreated t =>
    obtain ⟨scopes, n, equal⟩ := createThread_eq (p := p) ts t
    rw [Event.apply, equal]
    exact recordFanOut_flowVersions t
  | threadCompleting | threadTerminating =>
    unfold Event.apply onThread
    dsimp only
    split <;> rfl
  | threadCompleted | threadTerminated =>
    unfold Event.apply settleThread
    dsimp only
    split <;> rfl
  | stateActivated | stateCompleting | stateTerminating => exact onActivity_flowVersions ..
  | stateCompleted | stateTerminated =>
    unfold Event.apply settleActivity
    dsimp only
    split <;> rfl
  | tasksClaimed _ granted => exact claimTasks_flowVersions granted
  | taskCompleted _ t output => exact completeTask_flowVersions t output
  | taskFailed t _ => exact failTask_flowVersions t
  | taskCancelled t =>
    unfold Event.apply cancelTask
    dsimp only
    split <;> rfl

theorem recordFanOut_tasks (t : Thread) : (p.recordFanOut ts t).tasks = p.tasks := by
  unfold recordFanOut
  split
  · rfl
  · split
    · split <;> rfl
    · rfl

/-- A task is filed by its own event only. -/
theorem Event.files_task (owned : p.Owned) {e : Event} {name}
    (there : (e.apply ts p).tasks.lookup name ≠ none) :
    p.tasks.lookup name ≠ none ∨ ∃ t, e = .taskActivated t ∧ t.metadata.name = name := by
  have adds := (e.adds owned ts).tasks name there
  cases e with
  | taskActivated t => exact adds.imp id fun born => ⟨t, rfl, Option.some.inj born⟩
  | stateActivating => exact .inl there
  | threadCreated t =>
    obtain ⟨scopes, n, equal⟩ := createThread_eq (p := p) ts t
    rw [Event.apply, equal, recordFanOut_tasks] at there
    exact .inl there
  | _ => exact .inl (adds.resolve_right (by rintro ⟨⟩))

end Versions

theorem Draft.Lawful.event (lawful : s.Lawful env start) {e : Event} (may : s.MayEvent env start e)
    (folds : e.Folds s.rows) (cause : Nat) (ts : Timestamp) : (s.fold cause ts e).Lawful env start := by
  have evolves := may.legal.evolves lawful.sound.owned ts
  have quiet : activations (s.fold cause ts e).out = activations s.out := by
    simp [Draft.fold, Draft.emit, activations]
  have counter : s.rows.nextGeneratedSeq ≤ (s.fold cause ts e).rows.nextGeneratedSeq := by
    show _ ≤ (e.apply ts s.rows).nextGeneratedSeq
    rw [e.apply_counter]
    exact e.le_raised _
  constructor
  · exact may.legal.sound lawful.sound ts
  · exact lawful.course.append (.event rfl folds may.legal may.punctual (.nil rfl))
  · intro x there ev isEvent
    rcases List.mem_append.mp there with old | new
    · exact lawful.named x old ev isEvent
    · cases List.mem_singleton.mp new
      cases isEvent
      exact may.named
  · exact lawful.bounded.apply lawful.sound.owned may.named ts
  · exact lawful.coherent
  · intro other
    have notFlow : e.definesFlow = false := by
      have allowed := may.allowed
      cases e with
      | flowCreated | flowVersionCreated => cases other.symm.trans allowed
      | _ => rfl
    exact (e.apply_flowVersions notFlow _ ts).trans (lawful.versions other)
  · exact lawful.counter.trans counter
  · intro x there c isCommand
    rcases List.mem_append.mp there with old | new
    · exact (lawful.commands x old c isCommand).mono evolves
    · cases List.mem_singleton.mp new
      cases isCommand
  · intro name asked
    rw [quiet] at asked
    obtain ⟨⟨k, suffix, ge, lt⟩, none⟩ := lawful.minted name asked
    refine ⟨⟨k, suffix, ge, Nat.lt_of_lt_of_le lt counter⟩, ?_⟩
    by_contra there
    rcases (e.adds lawful.sound.owned ts).tasks name there with old | new
    · exact old none
    · exact may.unasked name new asked
  · rw [quiet]
    exact lawful.nodup
  · intro name there
    rcases Event.files_task lawful.sound.owned there with old | ⟨t, rfl, named⟩
    · exact lawful.tasks name old
    · exact .inr (named ▸ may.allowed)
  · exact lawful.announced.append fun asks => absurd rfl asks

theorem Draft.Lawful.named_silent (lawful : s.Lawful env start) {e} (silent : e.event? = none) :
    ∀ x ∈ s.out ++ [e], ∀ ev, x.event? = some ev → ev.Named := by
  intro x there ev isEvent
  rcases List.mem_append.mp there with old | new
  · exact lawful.named x old ev isEvent
  · cases List.mem_singleton.mp new
    rw [silent] at isEvent
    cases isEvent

theorem Draft.Lawful.command (lawful : s.Lawful env start) {c} (may : s.MayCommand start c)
    (cause : Nat) (ts : Timestamp) : (s.emit cause ts (.command c)).Lawful env start := by
  have sound : c.Sound s.rows := by
    cases c <;> first | exact trivial | exact may
  have out : activations (s.emit cause ts (.command c)).out =
      activations s.out ++ activations [⟨some cause, ts, .command c⟩] := activations_append ..
  refine { lawful with course := lawful.course.append (.ofQuiet (by simp [Entry.event?]) rfl)
                       named := lawful.named_silent rfl
                       commands := ?_, minted := ?_, nodup := ?_, announced := ?_ }
  · intro x there c' isCommand
    rcases List.mem_append.mp there with old | new
    · exact lawful.commands x old c' isCommand
    · cases List.mem_singleton.mp new
      cases isCommand
      exact sound
  · intro name asked
    rw [out] at asked
    rcases List.mem_append.mp asked with old | new
    · exact lawful.minted name old
    · cases c with
      | activateTask p =>
        cases List.mem_singleton.mp new
        exact ⟨may.1, may.2.1⟩
      | _ => cases new
  · rw [out]
    cases c with
    | activateTask p => exact List.nodup_append.mpr ⟨lawful.nodup, List.nodup_singleton _, by
        intro name asked _ here
        cases List.mem_singleton.mp here
        rintro rfl
        exact may.2.2.1 asked⟩
    | _ => simpa [activations] using lawful.nodup
  · refine lawful.announced.append fun asks => ?_
    cases c with
    | activateTask p => exact may.2.2.2
    | _ => exact absurd rfl asks

theorem Draft.Lawful.reject (lawful : s.Lawful env start) (r : Reject) (cause : Nat)
    (ts : Timestamp) : (s.emit cause ts (.reject r)).Lawful env start := by
  have quiet : activations (s.emit cause ts (.reject r)).out = activations s.out := by
    simp [Draft.emit, activations]
  refine { lawful with course := lawful.course.append (.ofQuiet (by simp [Entry.event?]) rfl)
                       named := lawful.named_silent rfl
                       commands := ?_, minted := ?_, nodup := ?_, announced := ?_ }
  · intro x there c isCommand
    rcases List.mem_append.mp there with old | new
    · exact lawful.commands x old c isCommand
    · cases List.mem_singleton.mp new
      cases isCommand
  · rw [quiet]
    exact lawful.minted
  · rw [quiet]
    exact lawful.nodup
  · exact lawful.announced.append fun asks => absurd rfl asks

theorem Draft.Lawful.take (lawful : s.Lawful env start) : s.take.Lawful env start where
  course := lawful.course.content rfl rfl
  named := lawful.named
  sound := ⟨lawful.sound.owned, lawful.sound.threads, lawful.sound.activities, lawful.sound.versions⟩
  bounded := ⟨fun n there => (lawful.bounded.threads n there).mono (Nat.le_succ _),
    fun n there => (lawful.bounded.activities n there).mono (Nat.le_succ _),
    fun n there => (lawful.bounded.tasks n there).mono (Nat.le_succ _)⟩
  coherent := lawful.coherent
  versions := lawful.versions
  counter := lawful.counter.trans (Nat.le_succ _)
  commands := lawful.commands
  minted name asked := by
    obtain ⟨⟨k, suffix, ge, lt⟩, none⟩ := lawful.minted name asked
    exact ⟨⟨k, suffix, ge, Nat.lt_succ_of_lt lt⟩, none⟩
  nodup := lawful.nodup
  tasks := lawful.tasks
  announced := lawful.announced

/-! ## New names -/

/-- A name minted now is carried by no row and asked for by no command. -/
structure Draft.Fresh (s : Draft) (name : ObjectName) : Prop where
  threads : s.rows.threads.lookup name = none
  activities : s.rows.activities.lookup name = none
  tasks : s.rows.tasks.lookup name = none
  unasked : name ∉ activations s.out

theorem Draft.Lawful.fresh (lawful : s.Lawful env start) (b : PlainName) :
    s.Fresh (b.generatedFromKey s.rows.nextGeneratedSeq) := by
  have above := ObjectName.generated_not_below b s.rows.nextGeneratedSeq
  constructor
  · by_contra there
    exact above (lawful.bounded.threads _ there)
  · by_contra there
    exact above (lawful.bounded.activities _ there)
  · by_contra there
    exact above (lawful.bounded.tasks _ there)
  · intro asked
    obtain ⟨⟨k, suffix, -, lt⟩, -⟩ := lawful.minted _ asked
    exact above ⟨k, suffix, lt⟩

theorem Draft.Lawful.minted_now (lawful : s.Lawful env start) (b : PlainName) :
    start.Minted s.take (b.generatedFromKey s.rows.nextGeneratedSeq) :=
  ⟨_, rfl, lawful.counter, Nat.lt_succ_self _⟩

end Spica
