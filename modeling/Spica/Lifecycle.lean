import Spica.Duty.Leader
import Spica.Refinement

/-! # Lawful runs

What a whole run keeps when assertions are evaluated and no storage failure is swallowed. Every
event of the log is legal where it stands; the counter is ahead of all names; a task waiting to be
activated is activated once; what the commands of the log rely on is there. So storage only moves
along lawful courses.
-/

namespace Spica

open Log

variable {r : Projection} {machines definitions : MachineCache} {c : Command}
    {at_ noopAt ts : Timestamp} {e : Entry} {cause : Option Nat} {next : Nat} {leader : Leader}

/-- The tasks whose activation is still to be read: each once, named and not there yet. -/
structure Waiting (rows : Projection) (es : List Entry) : Prop where
  nodup : (activations es).Nodup
  below : ∀ name ∈ activations es, name.Below rows.nextGeneratedSeq
  fresh : ∀ name ∈ activations es, rows.tasks.lookup name = none

/-- Where the leader's loop stands. -/
def Proc.Lawful (env : Env) (log : List Entry) (rows : Projection) : Proc → Prop
  | .stopped definitions => Coherent env rows definitions
  | .recovering definitions _ inflight =>
    Coherent env rows definitions ∧ ∀ open_, inflight = some open_ → open_.Bounded
  | .running next leader => Coherent env rows leader.definitions ∧ Waiting rows (log.drop (next - 1))
  | .committing next leader working _ =>
    Coherent env rows leader.definitions ∧ working.Bounded ∧ Waiting working (log.drop next)

/-- Every activation stands in a batch behind an event of that batch. -/
def AnnouncedLog (log : List Entry) : Prop :=
  ∀ n e, entryAt log n = some e → activations [e] ≠ [] →
    ∃ k e', k < n ∧ entryAt log k = some e' ∧ e'.event? ≠ none ∧ OpenBetween log k n

structure World.Lawful (env : Env) (punctual : Prop) (w : World) : Prop where
  faithful : w.Faithful
  course : ∃ q, Course env punctual .empty w.log q
  bounded : w.storage.rows.Bounded
  named : ∀ e ∈ w.log, ∀ ev, e.event? = some ev → ev.Named
  commands : ∀ e ∈ w.log, ∀ c, e.payload = .command c → ∀ p, Mirrors .empty w.log p → c.Sound p
  announced : AnnouncedLog w.log
  proc : w.proc.Lawful env w.log w.storage.rows

/-- No report of a task whose owner is over is dispatched. -/
def World.Punctual (w : World) : Action → Prop
  | .dispatch _ => ∀ next leader cause ts c, w.proc = .running next leader →
      entryAt w.log next = some ⟨cause, ts, .command c⟩ → ¬c.Late w.storage.rows
  | _ => True

variable {env : Env} {punctual : Prop} {log es : List Entry} {p q rows : Projection}

/-! ## Lawful logs -/

section logs

variable {a b : Nat}

/-- The course from one position of a log to a later one. -/
theorem Course.between (course : Course env punctual .empty log r) (left : FoldsTo log a p)
    (right : FoldsTo log b q) (order : a ≤ b) : ∃ es, Course env punctual p es q := by
  have course : Course env punctual .empty (log.take b ++ log.drop b) r := by
    rwa [List.take_append_drop]
  obtain ⟨q', first, -⟩ := course.split
  obtain ⟨es, taken⟩ : ∃ es, log.take b = log.take a ++ es :=
    ⟨_, by rw [← Nat.add_sub_cancel' order]; exact List.take_add⟩
  -- both replays end alike, the counter aside
  obtain ⟨q₁, replays, same⟩ := first.mirrors
  obtain ⟨q₂, replays', same'⟩ := right
  rw [replays.unique replays'] at same
  rw [taken] at first
  exact ⟨es, (first.rest left).content rfl (same.symm.trans same')⟩

theorem Course.sound_at (course : Course env punctual .empty log r) (fold : FoldsTo log a p) :
    p.Sound env := by
  have start : FoldsTo log 0 .empty := by
    show Mirrors .empty (log.take 0) .empty
    exact .quiet (by simp) rfl
  obtain ⟨es, course⟩ := course.between start fold (Nat.zero_le a)
  exact course.sound (Projection.empty_sound env)

theorem Coherent.mono (coherent : Coherent env p machines) (evolves : p.Evolves env q) :
    Coherent env q machines := by
  intro version machine hit
  obtain ⟨ver, found, parsed⟩ := coherent version machine hit
  obtain ⟨ver', found', same⟩ := evolves.flowVersions.row found
  rw [same] at found'
  exact ⟨ver, found', parsed⟩

theorem Course.coherent (course : Course env punctual p es q) (sound : p.Sound env)
    (coherent : Coherent env p machines) : Coherent env q machines :=
  course.keeps (I := fun p => Coherent env p machines) sound
    (fun _ _ evolves coherent => coherent.mono evolves) coherent

theorem Coherent.empty : Coherent env p ∅ := by
  intro version machine hit
  cases hit

theorem Command.client_asks_nothing (client : c.isClient = true) :
    activations [⟨none, at_, .command c⟩, ⟨none, noopAt, .noop⟩] = [] := by
  cases c <;> first | rfl | cases client

theorem Command.client_sound (client : c.isClient = true) : c.Sound p := by
  cases c with
  | spawnThread | activateState => cases client
  | _ => trivial

theorem Waiting.tail (waiting : Waiting rows (e :: log)) : Waiting rows log := by
  obtain ⟨nodup, below, fresh⟩ := waiting
  rw [← List.singleton_append, activations_append] at nodup below fresh
  exact ⟨(List.nodup_append.mp nodup).2.1, fun name there => below name (List.mem_append_right _ there),
    fun name there => fresh name (List.mem_append_right _ there)⟩

/-- A commit never lowers the counter. -/
theorem Projection.Bounded.committed (bounded : p.Bounded) (s : Storage) (n : Nat) :
    (s.commit p n).rows.Bounded where
  threads name there := (bounded.threads name there).mono (Nat.le_max_right _ _)
  activities name there := (bounded.activities name there).mono (Nat.le_max_right _ _)
  tasks name there := (bounded.tasks name there).mono (Nat.le_max_right _ _)

theorem Waiting.committed (waiting : Waiting rows log) (s : Storage) (n : Nat) :
    Waiting (s.commit rows n).rows log where
  nodup := waiting.nodup
  below name asked := (waiting.below name asked).mono (Nat.le_max_right _ _)
  fresh := waiting.fresh

/-- Entries that ask for nothing change nothing. -/
theorem Waiting.silent (waiting : Waiting rows log) (none : activations es = []) :
    Waiting rows (log ++ es) := by
  obtain ⟨nodup, below, fresh⟩ := waiting
  constructor <;> rw [activations_append, none, List.append_nil] <;> assumption

theorem Waiting.of_none (none : activations es = []) : Waiting rows es := by
  constructor <;> simp [none]

/-- The tasks still to be activated after a command is answered. -/
theorem Waiting.answered {start : Start} {s : Draft}
    (waiting : Waiting start.rows (⟨cause, ts, .command c⟩ :: es))
    (own : start.activates = c.activates) (lawful : s.Lawful env start) :
    Waiting s.rows (es ++ s.out) := by
  have rest : Waiting start.rows es := waiting.tail
  constructor
  · rw [activations_append]
    refine List.nodup_append.mpr ⟨rest.nodup, lawful.nodup, ?_⟩
    intro name old _ new same
    subst same
    obtain ⟨k, suffix, below⟩ := rest.below name old
    obtain ⟨⟨k', suffix', above, -⟩, -⟩ := lawful.minted name new
    rw [suffix] at suffix'
    cases suffix'
    omega
  · intro name asked
    rw [activations_append] at asked
    rcases List.mem_append.mp asked with old | new
    · exact (rest.below name old).mono lawful.counter
    · obtain ⟨⟨k, suffix, -, below⟩, -⟩ := lawful.minted name new
      exact ⟨k, suffix, below⟩
  · intro name asked
    rw [activations_append] at asked
    rcases List.mem_append.mp asked with old | new
    · by_contra there
      rcases lawful.tasks name there with before | self
      · exact before (rest.fresh name old)
      · -- the command activates a task of its own, whose name is not asked for again
        rw [own] at self
        cases c with
        | activateTask p =>
          cases self
          exact (List.nodup_cons.mp waiting.nodup).1 old
        | _ => cases self
    · exact (lawful.minted name new).2

theorem AnnouncedLog.append (announced : AnnouncedLog log) (inside : AnnouncedLog es) :
    AnnouncedLog (log ++ es) := by
  intro n e entry asks
  by_cases old : n ≤ log.length
  · rw [entryAt_append old] at entry
    obtain ⟨k, e', below, found, isEvent, opened⟩ := announced n e entry asks
    exact ⟨k, e', below, by rw [entryAt_append (by omega), found], isEvent,
      (Between.append old).mpr opened⟩
  · obtain ⟨i, rfl⟩ : ∃ i, n = log.length + (i + 1) := ⟨n - log.length - 1, by omega⟩
    rw [entryAt_append_right] at entry
    obtain ⟨k, e', below, found, isEvent, opened⟩ :=
      inside (i + 1) e (by rw [entryAt_succ, entry]) asks
    obtain ⟨k, rfl⟩ : ∃ j, k = j + 1 := ⟨k - 1, by have := (entryAt_eq_some found).1; omega⟩
    refine ⟨log.length + (k + 1), e', by omega, ?_, isEvent, ?_⟩
    · rw [entryAt_append_right, ← entryAt_succ, found]
    · intro m x above upto there
      obtain ⟨j, rfl⟩ : ∃ j, m = log.length + (j + 1) := ⟨m - log.length - 1, by omega⟩
      rw [entryAt_append_right] at there
      exact opened (j + 1) x (by omega) (by omega) (by rw [entryAt_succ, there])

theorem AnnouncedLog.of_none (none : ∀ e ∈ es, activations [e] = []) : AnnouncedLog es := by
  intro n e entry asks
  cases n with
  | zero => cases entry
  | succ n =>
    rw [entryAt_succ] at entry
    exact absurd (none e (List.mem_of_getElem? entry)) asks

/-- The batch of a lawful answer announces what it asks for. -/
theorem Announced.announcedLog (announced : Announced es) (closed : ∀ e ∈ es, e.isNoop = false) :
    AnnouncedLog es := by
  intro n e entry asks
  cases n with
  | zero => cases entry
  | succ n =>
    rw [entryAt_succ] at entry
    obtain ⟨inside, here⟩ := List.getElem?_eq_some_iff.mp entry
    have split : es = es.take n ++ e :: es.drop (n + 1) := by
      rw [← here, List.getElem_cons_drop, List.take_append_drop]
    obtain ⟨e', member, isEvent⟩ := announced _ _ _ split asks
    obtain ⟨k, found⟩ := List.mem_iff_getElem?.mp member
    rw [List.getElem?_take] at found
    split at found
    case isTrue below =>
      refine ⟨k + 1, e', by omega, by rw [entryAt_succ, found], isEvent, ?_⟩
      intro m x above upto there
      cases m with
      | zero => cases there
      | succ m =>
        rw [entryAt_succ] at there
        exact closed x (List.mem_of_getElem? there)
    case isFalse => cases found

/-- Where no event is left to read, no task is left to activate. -/
theorem AnnouncedLog.none_left (announced : AnnouncedLog log) (boundary : Boundary log a)
    (quiet : QuietBetween log a log.length) : activations (log.drop a) = [] := by
  refine List.filterMap_eq_nil_iff.mpr fun e member => ?_
  by_contra asks
  obtain ⟨i, found⟩ := List.mem_iff_getElem?.mp member
  rw [List.getElem?_drop] at found
  have entry : entryAt log (a + i + 1) = some e := by rw [entryAt_succ, found]
  obtain ⟨k, e', below, found', isEvent, opened⟩ := announced (a + i + 1) e entry (by
    intro none
    apply asks
    cases payload : e.payload with
    | command c => cases c <;> simp [activations, payload] at none ⊢
    | _ => rfl)
  by_cases past : a < k
  · exact isEvent (quiet k e' past (entryAt_eq_some found').2 found')
  · -- the batch boundary would lie between the event and the activation
    rcases boundary with rfl | ⟨noop, there, isNoop⟩
    · have := (entryAt_eq_some found').1
      omega
    · by_cases same : k = a
      · subst same
        rw [there] at found'
        cases found'
        rw [Entry.not_noop_of_event _ isEvent] at isNoop
        cases isNoop
      · rw [opened a noop (by omega) (by omega) there] at isNoop
        cases isNoop

end logs

/-! ## Whole runs -/

namespace World

variable {w w' : World} {a : Action}

theorem init_lawful : init.Lawful env punctual where
  faithful := init_faithful
  course := ⟨.empty, .nil rfl⟩
  bounded := Projection.empty_bounded
  named := by simp [init]
  commands := by simp [init]
  announced := .of_none (by simp [init])
  proc := Coherent.empty

namespace Lawful

theorem sound_at (lawful : w.Lawful env punctual) {n} (fold : FoldsTo w.log n p) : p.Sound env := by
  obtain ⟨r, course⟩ := lawful.course
  exact course.sound_at fold

theorem sound (lawful : w.Lawful env punctual) : w.storage.rows.Sound env :=
  lawful.sound_at lawful.faithful.committed

/-- What the leader starts the dispatch of a command from. -/
theorem startable (lawful : w.Lawful env punctual) (here : w.proc = .running next leader)
    (entry : entryAt w.log next = some ⟨cause, ts, .command c⟩)
    (inTime : punctual → ¬c.Late w.storage.rows) : Startable env w.storage.rows c punctual := by
  have proc := lawful.proc
  rw [here] at proc
  obtain ⟨-, waiting⟩ := proc
  obtain ⟨next, rfl⟩ : ∃ n, next = n + 1 := ⟨next - 1, by have := (entryAt_eq_some entry).1; omega⟩
  rw [entryAt_succ] at entry
  have sound : c.Sound w.storage.rows :=
    lawful.commands _ (List.mem_of_getElem? entry) c rfl _
      (FoldsTo.whole.mp (lawful.faithful.running here))
  refine ⟨lawful.sound, lawful.bounded, ?_, inTime⟩
  cases c with
  | activateTask p =>
    have asked : p.task.name ∈ activations (w.log.drop next) := by
      obtain ⟨inside, got⟩ := List.getElem?_eq_some_iff.mp entry
      rw [List.drop_eq_getElem_cons inside, got]
      exact List.mem_cons_self
    obtain ⟨k, suffix, -⟩ := waiting.below _ asked
    exact ⟨by rw [suffix]; exact Option.some_ne_none k, waiting.fresh _ asked⟩
  | _ => exact sound

theorem dispatch (lawful : w.Lawful env punctual) {d : Decision} {produced : Produced}
    (faithful' : World.Faithful { w with
      log := w.log ++ produced.batch next d.noopAt
      proc := .committing next { leader with definitions := definitions } produced.rows
        (w.log.length + (produced.batch next d.noopAt).length) })
    (here : w.proc = .running next leader)
    (entry : entryAt w.log next = some ⟨cause, ts, .command c⟩)
    (answer : Draft.Lawful env (.of w.storage.rows c punctual)
      ⟨produced.rows, produced.entries, definitions⟩) (sound : produced.Sound next) :
    World.Lawful env punctual { w with
      log := w.log ++ produced.batch next d.noopAt
      proc := .committing next { leader with definitions := definitions } produced.rows
        (w.log.length + (produced.batch next d.noopAt).length) } := by
  have whole := FoldsTo.whole.mp (lawful.faithful.running here)
  have rowsSound := lawful.sound
  obtain ⟨r, course⟩ := lawful.course
  have proc := lawful.proc
  rw [here] at proc
  obtain ⟨coherent, waiting⟩ := proc
  have closing : Course env punctual produced.rows [⟨some next, d.noopAt, .noop⟩] produced.rows :=
    .ofQuiet (by simp [Entry.event?]) rfl
  have batch : Course env punctual w.storage.rows (produced.batch next d.noopAt) produced.rows :=
    answer.course.append closing
  have reached : Course env punctual .empty w.log w.storage.rows := by
    have fromStart : Course env punctual .empty (w.log ++ []) r := by rwa [List.append_nil]
    cases fromStart.rest whole with
    | nil same => exact course.content rfl same.symm
  have grown := reached.append batch
  refine ⟨faithful', ⟨_, grown⟩, lawful.bounded, ?_, ?_, ?_, ?_⟩
  · intro e member ev isEvent
    rcases List.mem_append.mp member with old | new
    · exact lawful.named e old ev isEvent
    · rcases List.mem_append.mp new with new | closed
      · exact answer.named e new ev isEvent
      · cases List.mem_singleton.mp closed
        cases isEvent
  · intro e member c' isCommand p fold
    -- the fold of the grown log is the transaction that was committed, the counter aside
    obtain ⟨q₁, replays, same⟩ := grown.mirrors
    obtain ⟨q₂, replays', same'⟩ := fold
    rw [replays.unique replays'] at same
    have same : produced.rows.content = p.content := same.symm.trans same'
    suffices sound : c'.Sound produced.rows from
      sound.mono (Projection.Evolves.content same : Projection.Evolves env _ _)
    rcases List.mem_append.mp member with old | new
    · have before := lawful.commands e old c' isCommand _ whole
      exact batch.keeps (I := fun p => c'.Sound p) rowsSound
        (fun _ _ evolves sound => Command.Sound.mono evolves sound) before
    · rcases List.mem_append.mp new with new | closed
      · exact answer.commands e new c' isCommand
      · cases List.mem_singleton.mp closed
        cases isCommand
  · refine lawful.announced.append (.append ?_ ?_)
    · exact answer.announced.announcedLog fun e member => (sound.answers e member).2
    · exact .of_none (by simp [activations])
  · refine ⟨answer.coherent, answer.bounded, ?_⟩
    obtain ⟨next, rfl⟩ : ∃ n, next = n + 1 := ⟨next - 1, by have := (entryAt_eq_some entry).1; omega⟩
    rw [entryAt_succ] at entry
    obtain ⟨inside, got⟩ := List.getElem?_eq_some_iff.mp entry
    rw [Nat.add_sub_cancel, List.drop_eq_getElem_cons inside, got] at waiting
    have waiting' := Waiting.answered waiting rfl answer
    show Waiting produced.rows ((w.log ++ (produced.entries ++ _)).drop (next + 1))
    rw [List.drop_append_of_le_length inside, ← List.append_assoc]
    exact waiting'.silent rfl

theorem clientAppend (lawful : w.Lawful env punctual) (client : c.isClient = true)
    (faithful' : World.Faithful { w with
      log := w.log ++ [⟨none, at_, .command c⟩, ⟨none, noopAt, .noop⟩] }) :
    World.Lawful env punctual { w with
      log := w.log ++ [⟨none, at_, .command c⟩, ⟨none, noopAt, .noop⟩] } := by
  obtain ⟨r, course⟩ := lawful.course
  have noEvents : ∀ e ∈ ([⟨none, at_, .command c⟩, ⟨none, noopAt, .noop⟩] : List Entry),
      e.event? = none := by simp [Entry.event?]
  have quiet : activations [⟨none, at_, .command c⟩, ⟨none, noopAt, .noop⟩] = [] :=
    Command.client_asks_nothing client
  refine ⟨faithful', ⟨r, course.append (.ofQuiet noEvents rfl)⟩, lawful.bounded, ?_, ?_, ?_, ?_⟩
  · intro e member ev isEvent
    rcases List.mem_append.mp member with old | new
    · exact lawful.named e old ev isEvent
    · rw [noEvents e new] at isEvent
      cases isEvent
  · intro e member c' isCommand p fold
    rcases List.mem_append.mp member with old | new
    · obtain ⟨q, replays, same⟩ := fold
      obtain ⟨q', first, rest⟩ := replays.split
      have same' : q' = q := (Replays.quiet noEvents).unique rest
      exact lawful.commands e old c' isCommand p ⟨q', first, same' ▸ same⟩
    · simp only [List.mem_cons, List.not_mem_nil, or_false] at new
      rcases new with rfl | rfl
      · cases isCommand
        exact Command.client_sound client
      · cases isCommand
  · refine lawful.announced.append (.of_none fun e member => ?_)
    refine List.filterMap_eq_nil_iff.mpr fun x there => ?_
    cases List.mem_singleton.mp there
    exact List.filterMap_eq_nil_iff.mp quiet _ member
  · have proc := lawful.proc
    have placed := lawful.faithful.placed.proc
    cases here : w.proc with
    | stopped | recovering =>
      rw [here] at proc
      exact proc
    | running next leader =>
      rw [here] at proc placed
      refine ⟨proc.1, ?_⟩
      show Waiting _ ((w.log ++ _).drop (next - 1))
      rw [List.drop_append_of_le_length (by have := placed.2.1; omega)]
      exact proc.2.silent quiet
    | committing next leader rows last =>
      rw [here] at proc placed
      obtain ⟨first, answer⟩ := placed
      obtain ⟨ts, closed⟩ := answer.closed
      have inside := (entryAt_eq_some closed).2
      have whole := answer.whole
      have nonempty := answer.nonempty
      refine ⟨proc.1, proc.2.1, ?_⟩
      show Waiting _ ((w.log ++ _).drop next)
      rw [List.drop_append_of_le_length (by omega)]
      exact proc.2.2.silent quiet

theorem recover (lawful : w.Lawful env punctual) {b pos inflight inflight' s}
    (faithful' : World.Faithful { w with
      storage := s
      proc := .recovering definitions (pos + 1) inflight' }) (spared : w.Spared env (.recover b))
    (here : w.proc = .recovering definitions pos inflight) (entry : entryAt w.log pos = some e)
    (replayed : replayEntry b pos e w.storage inflight = some (s, inflight')) :
    World.Lawful env punctual { w with
      storage := s
      proc := .recovering definitions (pos + 1) inflight' } := by
  have proc := lawful.proc
  have tracks := lawful.faithful.proc
  have reading := lawful.faithful.placed.proc
  rw [here] at proc tracks reading
  obtain ⟨coherent, bounded⟩ := proc
  unfold replayEntry at replayed
  split at replayed
  case h_1 ev isEvent =>
    obtain ⟨rows, folded, same⟩ := Option.map_eq_some_iff.mp replayed
    cases same
    have isEvent : e.event? = some ev := by simp [Entry.event?, isEvent]
    refine { lawful with faithful := faithful', proc := ⟨coherent, ?_⟩ }
    rintro _ ⟨⟩
    obtain ⟨-, effect⟩ := foldInflight_ok (spared _ _ _ _ _ here entry isEvent) folded
    rw [effect]
    -- the rows folded into are the fold of the log so far
    have sound := lawful.sound_at (Spica.Tracks.current tracks reading)
    have before : (inflight.getD w.storage.rows).Bounded := by
      cases opened : inflight with
      | none => exact lawful.bounded
      | some rows => exact bounded rows opened
    exact before.apply sound.owned (lawful.named e (mem_of_entryAt entry) ev isEvent) _
  case h_2 =>
    split at replayed
    · cases replayed
      exact { lawful with faithful := faithful', proc := ⟨coherent, by simp⟩ }
    case h_2 rows =>
      cases replayed
      obtain ⟨r, course⟩ := lawful.course
      obtain ⟨es, moved⟩ := course.between lawful.faithful.committed faithful'.committed
        (Nat.le_of_lt reading.above)
      exact { lawful with
        faithful := faithful'
        bounded := (bounded rows rfl).committed _ _
        proc := ⟨moved.coherent lawful.sound coherent,
          by simp⟩ }
  all_goals
    cases replayed
    exact { lawful with faithful := faithful', proc := ⟨coherent, bounded⟩ }

theorem step (lawful : w.Lawful env punctual) (debug : env.debug = true)
    (spared : w.Spared env a) (inTime : punctual → w.Punctual a)
    (moved : World.step env w a = some w') : w'.Lawful env punctual := by
  have faithful' := lawful.faithful.step spared moved
  have placed := lawful.faithful.placed
  have proc := lawful.proc
  cases step_inv moved with
  | clientAppend client => exact lawful.clientAppend client faithful'
  | @boot keep definitions here =>
    rw [here] at proc
    refine { lawful with faithful := faithful', proc := ⟨?_, by simp⟩ }
    cases keep with
    | true => exact proc
    | false => exact Coherent.empty
  | recovered here tail =>
    have reading := placed.proc
    rw [here] at proc reading
    refine { lawful with faithful := faithful', proc := ⟨proc.1, ?_⟩ }
    exact .of_none (lawful.announced.none_left placed.boundary (reading.finished placed.ended tail))
  | recover here entry replayed => exact lawful.recover faithful' spared here entry replayed
  | dispatch here entry decided =>
    rw [here] at proc
    have can := lawful.startable here entry fun on => inTime on _ _ _ _ _ here entry
    have answer := processCommand_lawful debug can proc.1 (spared _ _ _ _ _ here entry) decided
    exact lawful.dispatch faithful' here entry answer (processCommand_sound decided)
  | @skip next leader e here entry passed =>
    rw [here] at proc
    refine { lawful with faithful := faithful', proc := ⟨proc.1, ?_⟩ }
    obtain ⟨next, rfl⟩ : ∃ n, next = n + 1 :=
      ⟨next - 1, by have := (entryAt_eq_some entry).1; omega⟩
    rw [entryAt_succ] at entry
    obtain ⟨inside, -⟩ := List.getElem?_eq_some_iff.mp entry
    have waiting : Waiting w.storage.rows (w.log.drop next) := proc.2
    rw [List.drop_eq_getElem_cons inside] at waiting
    exact waiting.tail
  | commit here =>
    have answer := placed.proc
    rw [here] at proc answer
    obtain ⟨coherent, bounded, waiting⟩ := proc
    obtain ⟨first, answer⟩ := answer
    obtain ⟨r, course⟩ := lawful.course
    obtain ⟨es, moved⟩ := course.between lawful.faithful.committed faithful'.committed
      (answer.above.trans (by have := answer.nonempty; dsimp only [Storage.commit]; omega))
    exact { lawful with
      faithful := faithful'
      bounded := bounded.committed _ _
      proc := ⟨moved.coherent lawful.sound coherent,
        waiting.committed _ _⟩ }
  | stop =>
    refine { lawful with faithful := faithful', proc := ?_ }
    have moved : w.stop = some _ := moved
    unfold World.stop at moved
    cases here : w.proc with
    | stopped => simp [here] at moved
    | recovering =>
      rw [here] at proc
      simp only [here, Option.some.injEq, World.mk.injEq, Proc.stopped.injEq] at moved
      exact moved.2.2.1 ▸ proc.1
    | running =>
      rw [here] at proc
      simp only [here, Option.some.injEq, World.mk.injEq, Proc.stopped.injEq] at moved
      exact moved.2.2.1 ▸ proc.1
    | committing =>
      rw [here] at proc
      simp only [here, Option.some.injEq, World.mk.injEq, Proc.stopped.injEq] at moved
      exact moved.2.2.1 ▸ proc.1
  | follow => exact { lawful with faithful := faithful' }
  | followerRestart => exact { lawful with faithful := faithful' }

end Lawful

end World

end Spica
