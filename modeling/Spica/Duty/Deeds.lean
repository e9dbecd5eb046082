import Spica.Outcome.Dispatch
import Spica.Outcome.Menu

/-! # Every answer does its duty

The possible answers to a command, written from a lawful draft: each event is legal where it is
emitted, each command names owners that are there, and so the draft they leave behind is lawful.
-/

namespace Spica

open Projection

variable {env : Env} {cause : Nat} {start : Start} {s t : Draft}

/-! ## Performing deeds -/

/-- From one draft to another by the given deeds. -/
def Draft.Performs : Draft → Nat → List Deed → Draft → Prop
  | s, _, [], t => t = s
  | s, cause, .take :: ds, t => s.take.Performs cause ds t
  | s, cause, .event e :: ds, t => ∃ ts, e.Folds s.rows ∧ (s.fold cause ts e).Performs cause ds t
  | s, cause, .command c :: ds, t => ∃ ts, (s.emit cause ts (.command c)).Performs cause ds t
  | s, cause, .reject r :: ds, t => ∃ ts, (s.emit cause ts (.reject r)).Performs cause ds t

theorem Writes.performs {p q ds es out machines} (writes : Writes cause p ds es q) :
    Draft.Performs ⟨p, out, machines⟩ cause ds ⟨q, out ++ es, machines⟩ := by
  induction writes generalizing out with
  | nil => rw [List.append_nil]; rfl
  | take _ ih => exact ih
  | event ts folds _ ih =>
    rw [List.append_cons]
    exact ⟨ts, folds, ih⟩
  | command ts _ ih | reject ts _ ih =>
    rw [List.append_cons]
    exact ⟨ts, ih⟩

theorem Draft.Performs.split {ds ds'} (performs : s.Performs cause (ds ++ ds') t) :
    ∃ u, s.Performs cause ds u ∧ u.Performs cause ds' t := by
  induction ds generalizing s with
  | nil => exact ⟨s, rfl, performs⟩
  | cons deed ds ih =>
    cases deed with
    | take => exact ih performs
    | event e =>
      obtain ⟨ts, folds, rest⟩ := performs
      obtain ⟨u, first, last⟩ := ih rest
      exact ⟨u, ⟨ts, folds, first⟩, last⟩
    | command | reject =>
      obtain ⟨ts, rest⟩ := performs
      obtain ⟨u, first, last⟩ := ih rest
      exact ⟨u, ⟨ts, first⟩, last⟩

/-- Commands change no row. -/
theorem Draft.Performs.sent {cs : List Command} (performs : s.Performs cause (cs.map .command) t) :
    t.rows = s.rows := by
  induction cs generalizing s with
  | nil => exact congrArg Draft.rows performs
  | cons c cs ih =>
    obtain ⟨ts, rest⟩ := performs
    have kept := ih rest
    exact kept

/-! ## Commands -/

/-- The command activates no task, and its owners are there. -/
def Command.Settled (rows : Projection) (c : Command) : Prop := c.activates = none ∧ c.Sound rows

theorem Command.Settled.may {c} (settled : c.Settled s.rows) : s.MayCommand start c := by
  obtain ⟨own, sound⟩ := settled
  cases c <;> first | exact sound | cases own

theorem Command.settled_plain {c : Command} (plain : c.isPlain) (rows : Projection) :
    c.Settled rows := by
  cases c <;> first | exact ⟨rfl, trivial⟩ | cases plain

theorem Draft.Lawful.sends (lawful : s.Lawful env start) {cs : List Command}
    (performs : s.Performs cause (cs.map .command) t) (settled : ∀ c ∈ cs, c.Settled s.rows) :
    t.Lawful env start := by
  induction cs generalizing s with
  | nil =>
    obtain rfl : t = s := performs
    exact lawful
  | cons c cs ih =>
    obtain ⟨ts, rest⟩ := performs
    refine ih (lawful.command (settled c List.mem_cons_self).may cause ts) rest ?_
    exact fun c' there => settled c' (List.mem_cons_of_mem c there)

theorem Draft.Lawful.sends_plain (lawful : s.Lawful env start) {cs : List Command}
    (performs : s.Performs cause (cs.map .command) t) (plain : ∀ c ∈ cs, c.isPlain) :
    t.Lawful env start :=
  lawful.sends performs fun c there => Command.settled_plain (plain c there) _

theorem Command.plain_of_thread {c : Command} (tells : c.tellsThread) : c.isPlain := by
  cases c <;> first | rfl | cases tells

theorem Command.plain_of_execution {c : Command} (tells : c.tells none) : c.isPlain := by
  cases c <;> first | rfl | cases tells

theorem Command.plain_of_deadline {c target deadline}
    (asks : (Command.triggerDeadline target deadline).mayAsk c) : c.isPlain := by
  cases target <;> cases c <;> first | rfl | cases asks

theorem Sweeps.plain {p parent kinds cs} (sweeps : Sweeps p parent kinds cs) :
    ∀ c ∈ cs, c.isPlain := by
  intro c there
  obtain ⟨child, -, -, rfl⟩ := sweeps.menu there
  unfold cancelOf
  split <;> rfl

theorem Picks.plain {p parent kind cs} (picks : Picks p parent kind cs) : ∀ c ∈ cs, c.isPlain := by
  intro c there
  obtain ⟨child, -, -, rfl⟩ := picks.menu there
  unfold cancelOf
  split <;> rfl

/-! ## Owners that are told -/

section told

variable {M : Machines} {q : Projection} {act : Activity} {thread : Thread} {d : State}
  {activity : ObjectRef .activity} {child : RawObjectRef} {cs : List Command} {c : Command}

theorem parallelReaction_plain (there : c ∈ q.parallelReaction activity act) : c.isPlain := by
  unfold Projection.parallelReaction at there
  split at there
  · split at there
    · cases List.mem_singleton.mp there
      rfl
    · split at there
      · cases there
      · split at there
        all_goals
          cases List.mem_singleton.mp there
          rfl
  · cases there

/-- A Map replenishes itself, and is one as its row says. -/
theorem mapReaction_settled {m} (found : q.getActivity activity = some act)
    (ref : act.objectRef = activity) (reacts : q.mapReaction env m activity act child = some cs)
    (there : c ∈ cs) : c.Settled q := by
  unfold Projection.mapReaction at reacts
  rw [found] at reacts
  split at reacts
  · next progress state =>
      have fans : act.fansOut = true := by
        have state : act.activityState = some (.map progress) := state
        simp [Activity.fansOut, state]
      dsimp only at reacts
      split at reacts
      · cases reacts
        cases there
      · split at reacts
        · cases reacts
          cases List.mem_singleton.mp there
          exact ⟨rfl, trivial⟩
        · split at reacts
          · cases reacts
            cases List.mem_singleton.mp there
            exact ⟨rfl, trivial⟩
          · obtain ⟨remaining, -, rfl⟩ := Option.map_eq_some_iff.mp reacts
            obtain ⟨index, -, rfl⟩ := List.mem_map.mp there
            exact ⟨rfl, act, found, ref, fans⟩
  · cases reacts
    cases there

theorem ActivityTold.settled (told : ActivityTold env M q activity act thread d child cs)
    (exact_ : child.kind = .thread → act.objectRef = activity) (there : c ∈ cs) : c.Settled q := by
  have reaction := told.reaction
  have kind := told.kind
  cases status : act.status with
  | running =>
    rw [status] at reaction
    cases d with
    | task m =>
      obtain rfl := reaction
      cases List.mem_singleton.mp there
      exact ⟨rfl, trivial⟩
    | parallel m =>
      obtain rfl := reaction
      exact Command.settled_plain (parallelReaction_plain there) q
    | map m =>
      exact mapReaction_settled told.found (exact_ (Option.some.inj kind).symm) reaction there
    | _ => exact reaction.elim
  | completing | terminating =>
    rw [status] at reaction
    obtain rfl := reaction
    cases List.mem_singleton.mp there
    exact ⟨rfl, trivial⟩
  | completed | terminated =>
    rw [status] at reaction
    obtain rfl := reaction
    cases there

/-- The activity that owns a thread of the projection is there under its full reference. -/
theorem Projection.Sound.owner_exact (sound : q.Sound env) {n row}
    (found : q.threads.lookup n = some row) (owner : row.metadata.owner = .activity activity)
    (there : q.getActivity activity = some act) : act.objectRef = activity := by
  obtain ⟨a, there', ref⟩ := sound.thread_owner found owner
  cases there.symm.trans there'
  exact ref

theorem OwnerTold.settled {n : ObjectName} {row : Thread} {ref : ObjectRef .thread}
    (sound : q.Sound env) (found : q.threads.lookup n = some row)
    (told : OwnerTold env M q row.metadata.owner ref cs) (there : c ∈ cs) : c.Settled q := by
  cases owner : row.metadata.owner with
  | execution r =>
    rw [owner] at told
    exact Command.settled_plain (Command.plain_of_execution (told.execution there)) q
  | activity r =>
    rw [owner] at told
    obtain ⟨act, thread, d, told⟩ := told.activity
    exact told.settled (fun _ => sound.owner_exact found owner told.found) there

end told

/-- An event that gives birth to nothing. -/
theorem Draft.Lawful.unborn (lawful : s.Lawful env start) (cause : Nat) (ts : Timestamp) {e}
    (folds : e.Folds s.rows) (legal : e.Legal env s.rows) (quiet : e.bornName = none)
    (allowed : start.Allows e) (punctual : start.punctual → e.Punctual s.rows) :
    (s.fold cause ts e).Lawful env start :=
  lawful.event (.unborn legal quiet allowed punctual) folds cause ts

/-- An event that gives birth to nothing and reports nothing. -/
theorem Draft.Lawful.legal (lawful : s.Lawful env start) (cause : Nat) (ts : Timestamp) {e}
    (folds : e.Folds s.rows) (legal : e.Legal env s.rows) (quiet : e.bornName = none)
    (flow : e.definesFlow = false) (punctual : e.Punctual s.rows) :
    (s.fold cause ts e).Lawful env start :=
  lawful.event (.of_legal legal quiet flow punctual) folds cause ts

/-! ## Closing an activity -/

section closing

variable {act : Activity}

theorem Asserted.made {α : Type} {old new : α} {update : Timestamp → Except String α}
    (debug : env.debug = true) (asserted : Asserted env old update new) :
    ∃ at_, update at_ = .ok new := by
  unfold Asserted at asserted
  rwa [if_pos debug] at asserted

theorem Draft.Stands.moved {act'} (stands : s.Stands act) (same : act.Same act') :
    s.rows.getActivity act'.objectRef = some act := by
  rw [same.objectRef]
  exact stands

theorem Draft.Stands.of_rows (stands : s.Stands act) (same : t.rows = s.rows) : t.Stands act := by
  unfold Draft.Stands
  rw [same]
  exact stands

theorem Draft.Lawful.completed {output : Json} {completed : Activity} (lawful : s.Lawful env start)
    (debug : env.debug = true) (stands : s.Stands act) (drained : s.rows.Drained act)
    (closes : Asserted env act (act.markCompleted output) completed) (ts : Timestamp)
    (folds : (Event.stateCompleted completed).Folds s.rows) :
    (s.fold cause ts (.stateCompleted completed)).Lawful env start ∧
      (s.fold cause ts (.stateCompleted completed)).OwnerStands act := by
  obtain ⟨at_, made⟩ := closes.made debug
  obtain ⟨status, same, next⟩ := Activity.markCompleted_ok made
  have found := stands.moved same
  have lawful' := lawful.legal cause ts folds ⟨act, found, same, .inr status, next, drained⟩
    rfl rfl trivial
  refine ⟨lawful', ?_⟩
  unfold Draft.OwnerStands
  rw [← same.owner]
  exact lawful'.sound.activity_owner (stands_settled found)

theorem Draft.Lawful.terminated {terminated : Activity} (lawful : s.Lawful env start)
    (debug : env.debug = true) (stands : s.Stands act) (drained : s.rows.Drained act)
    (closes : Asserted env act act.markTerminated terminated) (ts : Timestamp)
    (folds : (Event.stateTerminated terminated).Folds s.rows) :
    (s.fold cause ts (.stateTerminated terminated)).Lawful env start := by
  obtain ⟨at_, made⟩ := closes.made debug
  obtain ⟨r, status, same, next⟩ := Activity.markTerminated_ok made
  have found := stands.moved same
  exact lawful.legal cause ts folds ⟨act, r, found, same, status, next, drained⟩ rfl rfl trivial

/-- An activity starts to terminate, and stands there. -/
theorem Draft.Lawful.terminating {reason at_ terminating} (lawful : s.Lawful env start)
    (stands : s.Stands act) (opens : act.markTerminating reason at_ = .ok terminating)
    (ts : Timestamp) (folds : (Event.stateTerminating terminating).Folds s.rows) :
    (s.fold cause ts (.stateTerminating terminating)).Lawful env start ∧
      (s.fold cause ts (.stateTerminating terminating)).Stands terminating := by
  obtain ⟨status, same, next⟩ := Activity.markTerminating_ok opens
  have found := stands.moved same
  exact ⟨lawful.legal cause ts folds ⟨act, reason, found, same, status, next⟩ rfl rfl trivial,
    stands_replaced found⟩

theorem getChildren_replaced (r : ObjectRef .activity) (f : Activity → Activity) (p : Projection)
    (parent : RawObjectRef) : (p.onActivity r f).getChildren parent = p.getChildren parent := by
  unfold Projection.getChildren
  rw [children_replaced]

theorem threadTold_plain {q : Projection} {thread : ObjectRef .thread} {onRunning cs : List Command}
    (told : q.threadTold thread onRunning = some cs) (running : ∀ c ∈ onRunning, c.tellsThread) :
    ∀ c ∈ cs, c.isPlain :=
  fun _ there => Command.plain_of_thread (threadTold_menu told running there)

theorem Closes.lawful {q : Projection} {ds : List Deed} (closes : Closes env act q ds)
    (lawful : s.Lawful env start) (debug : env.debug = true) (stands : s.Stands act)
    (drained : s.rows.Drained act) (performs : s.Performs cause ds t) : t.Lawful env start := by
  cases closes with
  | intro closes told =>
    obtain ⟨ts, folds, rest⟩ := performs
    exact (lawful.terminated debug stands drained closes ts folds).sends_plain rest
      (threadTold_plain told fun _ => threadTermination_menu)

theorem Ending.Emits.lawful {q : Projection} {ds : List Deed} {ending : Ending}
    (emits : ending.Emits env act q ds) (lawful : s.Lawful env start) (debug : env.debug = true)
    (stands : s.Stands act) (drained : s.rows.Drained act) (performs : s.Performs cause ds t) :
    t.Lawful env start := by
  cases emits with
  | fails =>
    obtain ⟨ts, rfl⟩ := performs
    refine lawful.command ?_ cause ts
    exact trivial
  | moves closes =>
    obtain ⟨ts, folds, ts', folds', ts'', rfl⟩ := performs
    obtain ⟨lawful₁, owner⟩ := lawful.completed debug stands drained closes ts folds
    have lawful₂ := lawful₁.legal cause ts' folds' trivial rfl rfl trivial
    refine lawful₂.command ?_ cause ts''
    exact owner
  | ends closes =>
    obtain ⟨ts, folds, ts', rfl⟩ := performs
    refine (lawful.completed debug stands drained closes ts folds).1.command ?_ cause ts'
    exact trivial
  | succeeds closes told =>
    obtain ⟨ts, folds, rest⟩ := performs
    refine (lawful.completed debug stands drained closes ts folds).1.sends_plain rest
      (threadTold_plain told fun c there => ?_)
    cases List.mem_singleton.mp there
    rfl
  | breaks opens closes told =>
    obtain ⟨ts, folds, ts', folds', rest⟩ := performs
    obtain ⟨at_, made⟩ := opens.made debug
    obtain ⟨lawful₁, stands₁⟩ := lawful.terminating stands made ts folds
    have same := (Activity.markTerminating_ok made).2.1
    refine (lawful₁.terminated debug stands₁ ?_ closes ts' folds').sends_plain rest
      (threadTold_plain told fun _ => threadTermination_menu)
    intro fans
    rw [same.fansOut] at fans
    rw [same.objectRef]
    exact (getChildren_replaced ..).trans (drained fans)

theorem Terminates.lawful {p q : Projection} {d : State} {ds : List Deed}
    (terminates : Terminates env d act p q ds) (lawful : s.Lawful env start)
    (debug : env.debug = true) (stands : s.Stands act) (shape : act.fansOut = d.fansOut)
    (children : s.rows.getChildren act.objectRef.raw = p.getChildren act.objectRef.raw)
    (performs : s.Performs cause ds t) : t.Lawful env start := by
  unfold Terminates at terminates
  cases d with
  | task m =>
    obtain ⟨cs, picks, ⟨-, closes⟩ | ⟨-, rfl⟩⟩ := terminates
    · exact closes.lawful lawful debug stands (by simp [Drained, shape, State.fansOut]) performs
    · exact lawful.sends_plain performs picks.plain
  | parallel | map =>
    rcases terminates with ⟨none, closes⟩ | ⟨-, cs, picks, rfl⟩
    · exact closes.lawful lawful debug stands (fun _ => children.trans none) performs
    · exact lawful.sends_plain performs picks.plain
  | _ =>
    exact Closes.lawful terminates lawful debug stands (by simp [Drained, shape, State.fansOut])
      performs

theorem Assigns.lawful {owner states vars assign r as}
    (assigns : Assigns env owner states vars assign r as) (lawful : s.Lawful env start)
    (performs : s.Performs cause as t) : t.Lawful env start ∧ s.SameRows t := by
  cases assigns with
  | bound =>
    obtain ⟨ts, folds, rfl⟩ := performs
    exact ⟨lawful.legal cause ts folds trivial rfl rfl trivial, _, rfl⟩
  | _ =>
    obtain rfl : t = s := performs
    exact ⟨lawful, .refl t⟩

end closing

/-! ## Entering a state -/

section entering

variable {act : Activity} {d : State}

theorem enteredActivity_shape (d : State) (c : ActivateState) (uid : Ulid) (seq : Nat)
    (at_ : Timestamp) : ∃ state,
      enteredActivity d c uid seq at_ =
        { StateHandler.newActivity c uid seq at_ with activityState := state } ∧
      (enteredActivity d c uid seq at_).fansOut = d.fansOut := by
  cases d <;> exact ⟨_, rfl, rfl⟩

theorem enteredActivity_running (d : State) (c : ActivateState) (uid : Ulid) (seq : Nat)
    (at_ : Timestamp) : (enteredActivity d c uid seq at_).status = .running := by
  cases d <;> rfl

theorem Launches.lawful {vars : Variables} {states : Json} {ds : List Deed} {r}
    (launches : Launches env d act vars states s.rows.nextGeneratedSeq ds r)
    (lawful : s.Lawful env start) (stands : s.Stands act) (shape : act.fansOut = d.fansOut)
    (event : ∃ e ∈ s.out, e.event? ≠ none) (performs : s.Performs cause ds t) :
    t.Lawful env start := by
  unfold Launches at launches
  cases d with
  | task m =>
    obtain ⟨at_, uid, resolved, -, -, rfl⟩ := launches
    obtain ⟨ts, rfl⟩ := performs
    have fresh := lawful.fresh act.execution.name.base
    refine lawful.take.command ?_ cause ts
    exact ⟨lawful.minted_now _, fresh.tasks, fresh.unasked, event⟩
  | parallel m =>
    obtain ⟨-, rfl⟩ := launches
    split at performs
    · obtain ⟨ts, rfl⟩ := performs
      refine lawful.command ?_ cause ts
      exact trivial
    · have spawns : s.Performs cause ((m.branches.zipIdx.map fun b => Command.spawnThread
          { owner := act.objectRef
            execution := act.execution
            statePath := some (act.statePath.branch b.2)
            index := b.2
            startAt := b.1.startAt
            input := act.input.getD .null }).map .command) t := by
        rw [List.map_map]
        exact performs
      refine lawful.sends spawns fun c there => ?_
      obtain ⟨b, -, rfl⟩ := List.mem_map.mp there
      exact ⟨rfl, act, stands, rfl, shape⟩
  | map m =>
    obtain ⟨-, launched⟩ := launches
    split at launched
    · subst launched
      obtain ⟨u, spawned, rest⟩ := performs.split
      have lawful' := lawful.sends spawned fun c there => by
        obtain ⟨index, -, rfl⟩ := List.mem_map.mp there
        exact ⟨rfl, act, stands, rfl, shape⟩
      split at rest
      · obtain ⟨ts, rfl⟩ := rest
        refine lawful'.command ?_ cause ts
        exact trivial
      · obtain rfl : t = u := rest
        exact lawful'
    · subst launched
      obtain rfl : t = s := performs
      exact lawful
  | _ =>
    obtain ⟨-, rfl⟩ := launches
    obtain rfl : t = s := performs
    exact lawful

theorem afterLaunch_lawful {activity v r} (lawful : s.Lawful env start)
    (performs : s.Performs cause (afterLaunch d activity v r) t) : t.Lawful env start := by
  cases r with
  | error e =>
    obtain ⟨ts, rfl⟩ := performs
    refine lawful.command ?_ cause ts
    exact trivial
  | ok =>
    unfold afterLaunch at performs
    dsimp only at performs
    split at performs
    · obtain ⟨ts, rfl⟩ := performs
      refine lawful.command ?_ cause ts
      exact trivial
    · obtain rfl : t = s := performs
      exact lawful

end entering

/-! ## All answers -/

/-- A version stands for what its stored definition parses to. -/
def Parsed (env : Env) (rows : Projection) : Machines := fun version machine =>
  ∃ ver, rows.getFlowVersion version = some ver ∧ env.parse ver.definition = .ok machine

theorem Projection.Binds.defines {p : Projection} {thread : Thread} {path : StatePath} {d}
    (binds : p.Binds (Parsed env p) thread path d) : p.Defines env thread path d := by
  obtain ⟨exec, machine, found, ⟨ver, filed, parsed⟩, at_⟩ := binds
  exact ⟨exec, ver, machine, found, filed, parsed, at_⟩

section answers

variable {act : Activity} {d : State} {c : Command} {ds : List Deed}

theorem flowCreated_lawful {p : CreateFlow} {flowUid versionUid : Ulid} {at_ : Timestamp}
    (flows : start.definesFlow = true) (lawful : s.Lawful env start)
    (unused : s.rows.getFlowByName p.name = none)
    (performs : s.Performs cause [.event (.flowCreated p.requestId (.new flowUid p.name at_)),
      .event (.flowVersionCreated p.requestId (.new versionUid ⟨.plain p.name, flowUid⟩ p.name 1
        p.definition (env.checksum p.definition) at_))] t) : t.Lawful env start := by
  obtain ⟨ts, folds, ts', folds', rfl⟩ := performs
  have lawful₁ := lawful.unborn cause ts folds trivial rfl flows fun _ => trivial
  refine lawful₁.unborn cause ts' folds' ⟨?_, ?_⟩ rfl flows fun _ => trivial
  · -- a version of that name would have left its flow
    by_contra there
    obtain ⟨v, there⟩ := Option.ne_none_iff_exists'.mp there
    have there : s.rows.flowVersions.lookup (FlowVersion.versionName p.name 1) = some v := there
    exact lawful.sound.versions there unused
  · show (s.rows.flows.insert p.name _).lookup p.name ≠ none
    rw [AList.lookup_insert]
    exact Option.some_ne_none _

/-- A thread with a minted name is born under a live owner. -/
theorem Draft.Lawful.threadCreated (lawful : s.Lawful env start) (b : PlainName) (cause : Nat)
    (ts : Timestamp) {thread} (folds : (Event.threadCreated thread).Folds s.take.rows)
    (name : thread.metadata.name = b.generatedFromKey s.rows.nextGeneratedSeq)
    (running : thread.status = .running) (owner : s.rows.LiveOwner thread.metadata.owner) :
    (s.take.fold cause ts (.threadCreated thread)).Lawful env start := by
  have fresh := lawful.fresh b
  rw [← name] at fresh
  have may : s.take.MayEvent env start (.threadCreated thread) := by
    refine ⟨⟨fresh.threads, running, owner⟩, ?_, trivial, ?_, fun _ => trivial⟩
    · rintro _ ⟨⟩
      rw [name]
      exact Option.some_ne_none _
    · rintro _ ⟨⟩
      exact fresh.unasked
  exact lawful.take.event may folds cause ts

theorem executionCreated_lawful {p : CreateExecution} {machine : StateMachine}
    {uid rootUid : Ulid} {deadline at_ at_'} (lawful : s.Lawful env start)
    (unused : s.rows.getExecution ⟨p.name, .nil⟩ = none)
    (performs : s.Performs cause [.event (.executionCreated p.requestId
        (ExecutionElement.createdExecution p uid deadline at_)), .take,
      .event (.threadCreated (ExecutionElement.rootThread p ⟨p.name, uid⟩ machine.startAt rootUid
        s.rows.nextGeneratedSeq at_')), .command (.activateState
        ⟨⟨p.name, uid⟩, (ExecutionElement.rootThread p ⟨p.name, uid⟩ machine.startAt rootUid
          s.rows.nextGeneratedSeq at_').objectRef, StatePath.root.state machine.startAt, p.input⟩)] t)
    :
    t.Lawful env start := by
  obtain ⟨ts, folds, ts', folds', ts'', rfl⟩ := performs
  have lawful₁ := lawful.legal cause ts folds ⟨unused, rfl⟩ rfl rfl trivial
  have lawful₂ := lawful₁.threadCreated p.name.base cause ts' folds' rfl rfl
    ⟨_, AList.lookup_insert _, rfl, rfl⟩
  refine lawful₂.command ?_ cause ts''
  exact ⟨_, ThreadElement.createThread_get ts' _ _, rfl⟩

theorem threadSpawned_lawful {p : SpawnThread} {thread : Thread} {path : StatePath} {uid at_}
    (lawful : s.Lawful env start) (sound : (Command.spawnThread p).Sound s.rows)
    (found : s.rows.getActivity p.owner = some act) (running : act.status = .running)
    (performs : s.Performs cause [.take, .event (.threadCreated
        (ThreadElement.spawnedThread p path uid s.rows.nextGeneratedSeq at_)),
      .command (.activateState ⟨thread.execution, (ThreadElement.spawnedThread p path uid
        s.rows.nextGeneratedSeq at_).objectRef, path.state p.startAt, p.input⟩)] t) :
    t.Lawful env start := by
  obtain ⟨act', found', ref, fans⟩ := sound
  cases found.symm.trans found'
  obtain ⟨ts, folds, ts', rfl⟩ := performs
  have lawful₁ := lawful.threadCreated p.execution.name.base cause ts folds rfl rfl
    ⟨act, found, ref, running, fans⟩
  refine lawful₁.command ?_ cause ts'
  exact ⟨_, ThreadElement.createThread_get ts _ _, rfl⟩

/-! Containers close when nothing is left below them, and their owners are told. -/

theorem threadCompleted_lawful {M : Machines} {row completed : Thread} {ref : ObjectRef .thread}
    {cs} (lawful : s.Lawful env start)
    (performs : s.Performs cause (.event (.threadCompleted completed) :: cs.map .command) t)
    (here : s.rows.getThread row.objectRef = some row) (status : row.status = .completing)
    (drained : s.rows.getChildren row.objectRef.raw = [])
    (same : completed.objectRef = row.objectRef)
    (told : CompletedTold env M t.rows row.metadata.owner ref cs ∨ cs = []) :
    t.Lawful env start := by
  obtain ⟨ts, folds, rest⟩ := performs
  rw [← same] at here
  have lawful₁ := lawful.legal cause ts folds ⟨row, here, same.symm, status, drained⟩ rfl rfl trivial
  refine lawful₁.sends rest fun c there => ?_
  rcases told with told | rfl
  · rw [rest.sent] at told
    exact OwnerTold.settled lawful₁.sound (ThreadElement.settled_there here) (.inl told) there
  · cases there

theorem threadTerminated_lawful {M : Machines} {row terminated : Thread} {ref : ObjectRef .thread}
    {reason cs} (lawful : s.Lawful env start)
    (performs : s.Performs cause (.event (.threadTerminated terminated) :: cs.map .command) t)
    (here : s.rows.getThread row.objectRef = some row) (status : row.status = .terminating reason)
    (drained : s.rows.getChildren row.objectRef.raw = [])
    (same : terminated.objectRef = row.objectRef) (ended : terminated.status = .terminated reason)
    (told : TerminatedTold env M t.rows row.metadata.owner ref cs ∨ cs = []) :
    t.Lawful env start := by
  obtain ⟨ts, folds, rest⟩ := performs
  rw [← same] at here
  have lawful₁ := lawful.legal cause ts folds ⟨row, reason, here, same.symm, status, ended, drained⟩
    rfl rfl trivial
  refine lawful₁.sends rest fun c there => ?_
  rcases told with told | rfl
  · rw [rest.sent] at told
    exact OwnerTold.settled lawful₁.sound (ThreadElement.settled_there here) (.inr told) there
  · cases there

theorem getChildren_onThread {p : Projection} {r : ObjectRef .thread} {row : Thread} {f}
    (found : p.getThread r = some row) (parent : RawObjectRef) :
    (p.onThread r f).getChildren parent = p.getChildren parent := by
  rw [onThread_some found]
  rfl

theorem getChildren_onExecution {p : Projection} {r : ObjectRef .execution} {row : Execution} {f}
    (found : p.getExecution r = some row) (parent : RawObjectRef) :
    (p.onExecution r f).getChildren parent = p.getChildren parent := by
  rw [onExecution_some found]
  rfl

/-- A state is entered: the activity is born, prepared and launched. -/
theorem stateEntered_lawful {p thread uid at_ ds} (lawful : s.Lawful env start)
    (sound : (Command.activateState p).Sound s.rows)
    (found : s.rows.getThread p.owner = some thread) (running : thread.status = .running)
    (defines : s.rows.Defines env thread p.statePath d)
    (isNew : act = enteredActivity d p uid s.rows.nextGeneratedSeq at_)
    (performs : s.Performs cause (.take :: .event (.stateActivating act) :: ds) t) :
    ∃ ts, (s.take.fold cause ts (.stateActivating act)).Lawful env start ∧
      (s.take.fold cause ts (.stateActivating act)).Stands act ∧ act.fansOut = d.fansOut ∧
      (s.take.fold cause ts (.stateActivating act)).Performs cause ds t := by
  obtain ⟨thread', found', ref⟩ := sound
  cases found.symm.trans found'
  obtain ⟨state, equal, fans⟩ := enteredActivity_shape d p uid s.rows.nextGeneratedSeq at_
  rw [← isNew] at equal fans
  subst equal
  obtain ⟨ts, folds, rest⟩ := performs
  have fresh := lawful.fresh p.execution.name.base
  have may : s.take.MayEvent env start (.stateActivating
      { StateHandler.newActivity p uid s.rows.nextGeneratedSeq at_ with activityState := state }) := by
    refine ⟨⟨fresh.activities, rfl, thread, d, found, ref, running, defines, fans.symm⟩, ?_, trivial,
      ?_, fun _ => trivial⟩
    · rintro name ⟨⟩
      exact Option.some_ne_none _
    · rintro name ⟨⟩
      exact fresh.unasked
  exact ⟨ts, lawful.take.event may folds cause ts, AList.lookup_insert _, fans, rest⟩

/-- A task in flight that is not orphaned is reported in time. -/
theorem Projection.inTime {p : Projection} {task : ObjectRef .task} {row row' : Task} {a}
    (kept : ¬∃ row a, p.getTask task = some row ∧ row.status.isTerminal = false ∧
      p.getActivity row.metadata.owner = some a ∧ a.status.isTerminal)
    (found : p.getTask task = some row) (open_ : row.status.isTerminal = false)
    (same : row = row') (owner : p.getActivity row'.metadata.owner = some a) :
    a.status.isTerminal = false := by
  subst same
  by_contra ended
  exact kept ⟨row, a, found, open_, owner, by simpa using ended⟩

/-- Every answer to a command that is ready, written from a lawful draft, leaves one behind. -/
theorem Outcome.lawful (outcome : Outcome env (Parsed env s.rows) s.rows t.rows c ds)
    (debug : env.debug = true) (flows : start.definesFlow = c.definesFlow)
    (own : start.activates = c.activates) (lawful : s.Lawful env start) (ready : c.Ready s.rows)
    (empty : s.out = []) (punctual : start.punctual → ¬c.Late s.rows)
    (performs : s.Performs cause ds t) : t.Lawful env start := by
  have owned := lawful.sound.owned
  have menu (c' : Command) : .command c' ∈ ds → c.mayAsk c' := outcome.menu
  cases outcome with
  | flowKnown =>
    obtain ⟨ts, rfl⟩ := performs
    exact lawful.reject _ cause ts
  | flowCreated _ unused => exact flowCreated_lawful flows lawful unused performs
  | executionCreated unused _ _ isRoot =>
    subst isRoot
    exact executionCreated_lawful lawful unused performs
  | threadSpawned found running _ _ isSpawned =>
    subst isSpawned
    exact threadSpawned_lawful lawful ready found running performs
  | executionCompleted found opens drained closes =>
    obtain ⟨ts, folds, ts', folds', rfl⟩ := performs
    have here := lawful.standing_execution found
    obtain ⟨status, rfl⟩ := ExecutionElement.markCompleting_ok opens
    obtain ⟨at_, made⟩ := closes.made debug
    obtain ⟨-, rfl⟩ := ExecutionElement.markCompleted_ok made
    have lawful₁ := lawful.legal cause ts folds ⟨_, here, status⟩ rfl rfl trivial
    exact lawful₁.legal cause ts' folds' ⟨_, ExecutionElement.onExecution_get owned here rfl, rfl,
      (getChildren_onExecution here _).trans drained⟩ rfl rfl trivial
  | @executionTerminated p _ _ _ _ _ found _ opens drained closes =>
    obtain ⟨ts, folds, ts', folds', rfl⟩ := performs
    have here := lawful.standing_execution found
    obtain ⟨status, rfl⟩ := ExecutionElement.markTerminating_ok opens
    obtain ⟨r, same, rfl⟩ := ExecutionElement.markTerminated_ok closes
    cases same
    have lawful₁ := lawful.legal cause ts folds ⟨_, p.reason, here, status, rfl⟩ rfl rfl trivial
    exact lawful₁.legal cause ts' folds' ⟨_, p.reason, ExecutionElement.onExecution_get owned here rfl,
      rfl, rfl, (getChildren_onExecution here _).trans drained⟩ rfl rfl trivial
  | @executionSwept p _ _ _ _ found _ opens _ sweeps =>
    obtain ⟨ts, folds, rest⟩ := performs
    have here := lawful.standing_execution found
    obtain ⟨status, rfl⟩ := ExecutionElement.markTerminating_ok opens
    exact (lawful.legal cause ts folds ⟨_, p.reason, here, status, rfl⟩ rfl rfl
      trivial).sends_plain rest sweeps.plain
  | threadCompleted found running drained opens closes told =>
    subst opens closes
    obtain ⟨ts, folds, rest⟩ := performs
    have here := lawful.standing_thread found
    have lawful₁ := lawful.legal cause ts folds ⟨_, here, running⟩ rfl rfl trivial
    exact threadCompleted_lawful lawful₁ rest (onThread_get owned here rfl) rfl
      ((getChildren_onThread here _).trans drained) rfl (.inl told)
  | @threadTerminated p _ _ _ _ _ _ found opens drained closes told =>
    obtain ⟨status, rfl⟩ := ThreadElement.markTerminating_ok opens
    subst closes
    obtain ⟨ts, folds, rest⟩ := performs
    have here := lawful.standing_thread found
    have lawful₁ := lawful.legal cause ts folds ⟨_, p.reason, here, status, rfl⟩ rfl rfl trivial
    exact threadTerminated_lawful lawful₁ rest (onThread_get owned here rfl) rfl
      ((getChildren_onThread here _).trans drained) rfl rfl (.inl told)
  | @threadSwept p _ _ _ _ found opens _ sweeps =>
    obtain ⟨status, rfl⟩ := ThreadElement.markTerminating_ok opens
    obtain ⟨ts, folds, rest⟩ := performs
    have here := lawful.standing_thread found
    exact (lawful.legal cause ts folds ⟨_, p.reason, here, status, rfl⟩ rfl rfl
      trivial).sends_plain rest sweeps.plain
  | stateRefused found running defines isNew =>
    obtain ⟨ts, lawful₁, -, -, ts', rfl⟩ := stateEntered_lawful lawful ready found running
      defines.defines isNew performs
    refine lawful₁.command ?_ cause ts'
    exact trivial
  | @stateEntered p _ d uid at_ _ _ _ _ _ _ _ _ found running defines isNew input isActivated
      launches =>
    obtain ⟨ts, lawful₁, stands, fans, ts', folds', rest⟩ := stateEntered_lawful lawful ready found
      running defines.defines isNew performs
    obtain ⟨state, rfl, shape⟩ := processInput_shape input
    have fans' := shape fans
    subst isActivated
    have lawful₂ := lawful₁.legal cause ts' folds' ⟨_, stands,
      ⟨ObjectMeta.sameIdentity_withUpdateAt _ _, rfl, rfl, fans'.trans fans.symm⟩, by
        rw [isNew]
        exact enteredActivity_running .., by
        rw [isNew]
        exact enteredActivity_running ..⟩ rfl rfl trivial
    obtain ⟨u, launched, last⟩ := rest.split
    subst isNew
    rw [← entered_counter d p uid s.rows at_ ts ts' _] at launches
    exact afterLaunch_lawful (launches.lawful lawful₂ (stands_replaced stands) fans'
      ⟨_, List.mem_append_right _ (List.mem_singleton_self _), by rintro ⟨⟩⟩ launched) last
  | stateCompleted found owner running defines opens drained concludes emits =>
    have stands := lawful.stands found
    obtain ⟨status, same, next⟩ := Activity.markCompleting_ok opens
    have here := stands.moved same
    obtain ⟨ts, folds, rest⟩ := performs
    have lawful₁ := lawful.legal cause ts folds ⟨_, here, same, status, next⟩ rfl rfl trivial
    obtain ⟨u, assigned, rest⟩ := rest.split
    obtain ⟨states, assign, r, assigns⟩ := concludes.assigns
    obtain ⟨lawful₂, kept⟩ := assigns.lawful lawful₁ assigned
    refine emits.lawful lawful₂ debug (kept.stands (stands_replaced here)) (kept.drained ?_) rest
    intro fans
    rw [same.fansOut, lawful.shape stands owner defines.defines] at fans
    exact (getChildren_replaced ..).trans (drained fans)
  | stateCaught found live owner defines reason matched projects cancels isCaught =>
    have stands := lawful.stands found
    have leaf := lawful.shape stands owner defines.defines
    obtain ⟨u, rest, last⟩ := performs.split
    obtain ⟨v, assigned, cancelled⟩ := rest.split
    obtain ⟨r, assigns⟩ := projects.assigns
    obtain ⟨lawful₁, kept⟩ := assigns.lawful lawful assigned
    have lawful₂ := lawful₁.sends_plain cancelled cancels.plain
    have stands₂ := (kept.stands stands).of_rows cancelled.sent
    subst isCaught
    obtain ⟨ts, folds, ts', folds', ts'', rfl⟩ := last
    have lawful₃ := lawful₂.legal cause ts folds ⟨_, stands₂,
      ⟨ObjectMeta.sameIdentity_withUpdateAt _ _, rfl, rfl, rfl⟩, live, rfl,
      by simp [Drained, leaf, State.fansOut]⟩ rfl rfl trivial
    have owner := lawful₃.ownerStands (stands_settled stands₂) rfl
    refine (lawful₃.legal cause ts' folds' trivial rfl rfl trivial).command ?_ cause ts''
    exact owner
  | catchFailed _ _ _ _ _ _ projects =>
    obtain ⟨u, assigned, ts, rfl⟩ := performs.split
    obtain ⟨r, assigns⟩ := projects.assigns
    refine (assigns.lawful lawful assigned).1.command ?_ cause ts
    exact trivial
  | stateTerminated found _ owner defines _ opens terminates =>
    have stands := lawful.stands found
    have same := (Activity.markTerminating_ok opens).2.1
    obtain ⟨ts, folds, rest⟩ := performs
    obtain ⟨lawful₁, stands₁⟩ := lawful.terminating stands opens ts folds
    exact terminates.lawful lawful₁ debug stands₁
      (same.fansOut.trans (lawful.shape stands owner defines.defines)) (getChildren_replaced ..) rest
  | @taskActivated p at_ =>
    obtain ⟨ts, folds, rfl⟩ := performs
    obtain ⟨suffix, fresh⟩ := ready
    have may : s.MayEvent env start (.taskActivated (TaskElement.newTask p at_)) := by
      refine ⟨⟨fresh, rfl⟩, ?_, own, ?_, fun _ => trivial⟩
      · rintro name ⟨⟩
        exact suffix
      · simp [empty, activations]
    exact lawful.event may folds cause ts
  | tasksClaimed =>
    obtain ⟨ts, folds, rfl⟩ := performs
    exact lawful.legal cause ts folds trivial rfl rfl trivial
  | @taskCompleted p row _ _ _ _ _ _ found closes told =>
    obtain ⟨open_, ref⟩ := TaskElement.markCompleted_ok closes
    have here : s.rows.getTask _ = some row := ref ▸ lawful.standing_task found
    obtain ⟨ts, folds, rest⟩ := performs
    have lawful₁ := lawful.unborn cause ts folds ⟨row, here, ref.symm, open_⟩ rfl trivial
      fun on row' a got => Projection.inTime (punctual on) found open_
        (Option.some.inj (here.symm.trans got))
    rw [rest.sent] at told
    exact lawful₁.sends rest fun c' there => told.settled (by rintro ⟨⟩) there
  | @taskFailed p row failed _ _ found fails =>
    obtain ⟨open_, same, next⟩ := TaskElement.handleFailure_ok fails
    have ref : failed.objectRef = row.objectRef := same.identity.objectRef .task
    have here : s.rows.getTask _ = some row := ref ▸ lawful.standing_task found
    obtain ⟨ts, folds, rest⟩ := performs
    have lawful₁ := lawful.unborn cause ts folds ⟨row, here, same, open_, next⟩ rfl trivial
      fun on row' a got => Projection.inTime (punctual on) found open_
        (Option.some.inj (here.symm.trans got))
    split at rest
    · obtain ⟨ts', rfl⟩ := rest
      refine lawful₁.command ?_ cause ts'
      exact trivial
    · obtain rfl : t = _ := rest
      exact lawful₁
  | @taskCancelled _ row _ _ _ _ _ _ found closes told =>
    obtain ⟨open_, ref⟩ := TaskElement.markCancelled_ok closes
    have here : s.rows.getTask _ = some row := ref ▸ lawful.standing_task found
    obtain ⟨ts, folds, rest⟩ := performs
    have lawful₁ := lawful.legal cause ts folds ⟨row, here, ref.symm, open_⟩ rfl rfl trivial
    rw [rest.sent] at told
    exact lawful₁.sends rest fun c' there => told.settled (by rintro ⟨⟩) there
  | executionTimedOut | activityTimedOut =>
    obtain ⟨ts, rfl⟩ := performs
    refine lawful.command (Command.may_plain ?_ _ _) cause ts
    exact Command.plain_of_deadline (menu _ (List.mem_singleton_self _))
  | activitySwept _ _ _ _ sweeps | threadSweptAgain _ _ _ _ sweeps
  | executionSweptAgain _ _ _ _ sweeps => exact lawful.sends_plain performs sweeps.plain
  | activityConcluded _ found _ drained _ _ _ concludes emits =>
    obtain ⟨u, assigned, rest⟩ := performs.split
    obtain ⟨states, assign, r, assigns⟩ := concludes.assigns
    obtain ⟨lawful₁, kept⟩ := assigns.lawful lawful assigned
    exact emits.lawful lawful₁ debug (kept.stands (lawful.stands found))
      (kept.drained fun _ => drained) rest
  | threadClosedCompleted _ found phase drained closes told =>
    subst closes
    exact threadCompleted_lawful lawful performs (lawful.standing_thread found) phase drained rfl
      (told.imp And.right And.right)
  | @executionClosedCompleted _ exec _ _ _ found drained closes =>
    obtain ⟨ts, folds, rfl⟩ := performs
    obtain ⟨status, rfl⟩ := ExecutionElement.markCompleted_ok closes
    exact lawful.legal cause ts folds ⟨exec, lawful.standing_execution found, status, drained⟩ rfl
      rfl trivial
  | activityClosedTerminated _ found _ _ owner defines _ terminates =>
    have stands := lawful.stands found
    exact terminates.lawful lawful debug stands (lawful.shape stands owner defines.defines) rfl
      performs
  | threadClosedTerminated _ found phase drained closes told =>
    subst closes
    exact threadTerminated_lawful lawful performs (lawful.standing_thread found) phase drained rfl
      rfl (told.imp And.right And.right)
  | @executionClosedTerminated _ exec _ _ _ found drained closes =>
    obtain ⟨ts, folds, rfl⟩ := performs
    obtain ⟨r, status, rfl⟩ := ExecutionElement.markTerminated_ok closes
    exact lawful.legal cause ts folds ⟨exec, r, lawful.standing_execution found, status, rfl,
      drained⟩ rfl rfl trivial

end answers

end Spica
