import Spica.Outcome.Dispatch
import Spica.Refinement

/-! # What a run of the leader amounts to

The loop of the leader, its recovery and its restarts, seen from the log alone. In general a log
grows by client commands and by answers to commands that are anywhere in it, given from the rows
the whole log folds to; without a stop every command is answered once, in order. An invariant of
the rows, the log and the commands still to be answered is proved over these two, and moved to the
states of the system by `Annals.of_run` and `World.Kept.of_run`.
-/

namespace Spica

open Log

variable {machines machines' : MachineCache} {d : Decision} {produced : Produced} {e : Entry}
    {ok : World → Action → Prop} {l : Ledger} {s : Storage} {at_ noopAt : Timestamp} {proc : Proc}

/-! ## The answers of the leader -/

/-- The answers the leader can commit for the command at a position: those of a dispatch, or a
    refusal. -/
inductive Answer (env : Env) (M : Machines) (n : Nat) (c : Command) (p : Projection) :
    List Entry → Projection → Prop
  | outcome {ds es q} (outcome : Outcome env M p q c ds) (writes : Writes n p ds es q) :
      Answer env M n c p es q
  | refused (ts : Timestamp) (r : Reject) : Answer env M n c p [⟨some n, ts, .reject r⟩] p

section answers

variable {env : Env} {M : Machines} {n cause : Nat} {c : Command} {p q : Projection}
  {ds : List Deed} {es : List Entry}

theorem Writes.mirrors (writes : Writes cause p ds es q) : Mirrors p es q := by
  induction writes with
  | nil => exact .quiet (by simp) rfl
  | @take p q ds es _ ih =>
    obtain ⟨q', replays, same⟩ := ih
    have uncounted : (p.putNextGeneratedSeq (p.nextGeneratedSeq + 1)).content = p.content := rfl
    obtain ⟨q'', replays', same'⟩ := replays.content uncounted
    exact ⟨q'', replays', same'.symm.trans same⟩
  | event ts folds _ ih =>
    obtain ⟨q', replays, same⟩ := ih
    exact ⟨q', .event rfl folds replays, same⟩
  | command ts _ ih | reject ts _ ih =>
    obtain ⟨q', replays, same⟩ := ih
    exact ⟨q', .skip rfl replays, same⟩

theorem Writes.answers (writes : Writes cause p ds es q) : ∀ e ∈ es, e.Answers cause := by
  induction writes with
  | nil => simp
  | take _ ih => exact ih
  | event ts _ _ ih | command ts _ ih | reject ts _ ih =>
    intro e there
    rcases List.mem_cons.mp there with rfl | later
    · exact ⟨rfl, rfl⟩
    · exact ih e later

/-- The counter only grows. -/
theorem Writes.counter_le (writes : Writes cause p ds es q) :
    p.nextGeneratedSeq ≤ q.nextGeneratedSeq := by
  induction writes with
  | nil => exact le_rfl
  | @take p q ds es _ ih => exact Nat.le_of_succ_le ih
  | @event p q ds es e ts _ _ ih =>
    rw [e.apply_counter] at ih
    exact (e.le_raised _).trans ih
  | command _ _ ih | reject _ _ ih => exact ih

theorem processCommand_answer (ff : d.FaultFree)
    (ran : processCommand env n c p machines d = (some produced, machines')) :
    Answer env (fun _ _ => True) n c p produced.entries produced.rows := by
  rcases processCommand_inv ran with ⟨i, before, after, once⟩ | refused
  · obtain ⟨ds, outcome, writes⟩ := dispatchOnce_outcome (M := fun _ _ => True) (ff.1 i).1
      ⟨fun _ _ _ => trivial, fun _ _ _ _ _ => trivial⟩ once
    exact .outcome outcome writes
  · obtain ⟨ts, r, rfl⟩ := refused
    exact .refused ts r

/-- It is enough that no failure of a call is swallowed. -/
theorem processCommand_spared (spared : d.Spared env n c p machines)
    (ran : processCommand env n c p machines d = (some produced, machines')) :
    Answer env (fun _ _ => True) n c p produced.entries produced.rows := by
  rcases attemptFrom_faultless spared ran with
    ⟨machines, a, -, ff, -, once⟩ | ⟨ts, r, entries, same⟩
  · obtain ⟨ds, outcome, writes⟩ := dispatchOnce_outcome (M := fun _ _ => True) ff
      ⟨fun _ _ _ => trivial, fun _ _ _ _ _ => trivial⟩ (Prod.ext once rfl)
    exact .outcome outcome writes
  · rw [entries, same]
    exact .refused ts r

end answers

/-! ## Whatever the restarts -/

/-- A relation of answers: the position of the command, the command, the rows it is answered from,
    the entries of the answer and the rows it leaves. -/
abbrev Answering : Type := Nat → Command → Projection → List Entry → Projection → Prop

/-- The answers are batches of entries that account for the rows. -/
structure Answering.Sound (A : Answering) : Prop where
  answers : ∀ {n c p es q}, A n c p es q → ∀ e ∈ es, e.Answers n
  mirrors : ∀ {n c p es q}, A n c p es q → Mirrors p es q
  counter_le : ∀ {n c p es q}, A n c p es q → p.nextGeneratedSeq ≤ q.nextGeneratedSeq

theorem Answer.sound (env : Env) (M : Machines) : Answering.Sound (Answer env M) where
  answers := by
    rintro n c p es q (⟨-, writes⟩ | ⟨ts, r⟩)
    · exact writes.answers
    · simp [Entry.Answers, Entry.isNoop]
  mirrors := by
    rintro n c p es q (⟨-, writes⟩ | ⟨ts, r⟩)
    · exact writes.mirrors
    · exact .quiet (by simp [Entry.event?]) rfl
  counter_le := by
    rintro n c p es q (⟨-, writes⟩ | ⟨ts, r⟩)
    · exact writes.counter_le
    · exact le_rfl

/-- The logs that clients and answers can build, with the rows they come to. A restart may make
    the leader answer any command of the log, again or for the first time. -/
inductive Annals (A : Answering) : List Entry → Projection → Prop
  | empty : Annals A [] .empty
  | client {log p c} (at_ noopAt : Timestamp) (past : Annals A log p) (client : c.isClient = true) :
      Annals A (log ++ [⟨none, at_, .command c⟩, ⟨none, noopAt, .noop⟩]) p
  | answer {log es p q r n cause ts c} (noopAt : Timestamp) (past : Annals A log p)
      (entry : entryAt log n = some ⟨cause, ts, .command c⟩) (same : p.content = q.content)
      (answers : A n c q es r) : Annals A (log ++ (es ++ [⟨some n, noopAt, .noop⟩])) r

/-- Every answer the leader gives in a run is one of the relation. -/
def World.AnswersBy (env : Env) (ok : World → Action → Prop) (A : Answering) : Prop :=
  ∀ {w : World} {next : Nat} {leader : Leader} {cause : Option Nat} {ts : Timestamp} {c : Command}
    {d : Decision} {produced : Produced} {definitions : MachineCache},
    Run.Reach (World.step env) ok init w → ok w (.dispatch d) → w.proc = .running next leader →
    entryAt w.log next = some ⟨cause, ts, .command c⟩ →
    processCommand env next c w.storage.rows leader.definitions d = (some produced, definitions) →
    A next c w.storage.rows produced.entries produced.rows

/-- Two folds of one log differ in the counter only. -/
theorem Mirrors.unique {p q r es} (one : Mirrors p es q) (other : Mirrors p es r) :
    q.content = r.content := by
  obtain ⟨q', replays, same⟩ := one
  obtain ⟨r', replays', same'⟩ := other
  rw [← same, ← same', replays.unique replays']

/-- A batch ends where an old one did, or where the new one does. -/
theorem Boundary.split {log es n} (ends : Boundary (log ++ (es ++ [e])) n)
    (opens : ∀ x ∈ es, x.isNoop = false) :
    Boundary log n ∧ n ≤ log.length ∨ n = log.length + (es.length + 1) := by
  rcases ends with rfl | ⟨x, found, noop⟩
  · exact .inl ⟨.inl rfl, Nat.zero_le _⟩
  by_cases old : n ≤ log.length
  · rw [entryAt_append old] at found
    exact .inl ⟨.inr ⟨x, found, noop⟩, old⟩
  obtain ⟨k, rfl⟩ : ∃ k, n = log.length + (k + 1) := ⟨n - log.length - 1, by omega⟩
  rw [entryAt_append_right] at found
  by_cases inside : k < es.length
  · rw [List.getElem?_append_left inside] at found
    simp [opens x (List.mem_of_getElem? found)] at noop
  · have := (List.getElem?_eq_some_iff.mp found).1
    simp only [List.length_append, List.length_singleton] at this
    exact .inr (by omega)

namespace Annals

variable {A : Answering} {log : List Entry} {p q : Projection} {n : Nat}

theorem mirrors (sound : A.Sound) (annals : Annals A log p) : Mirrors .empty log p := by
  induction annals with
  | empty => exact .quiet (by simp) rfl
  | client at_ noopAt _ _ ih => exact ih.append (.quiet (by simp [Entry.event?]) rfl)
  | answer noopAt _ _ same answers ih =>
    exact (ih.content_right same).append
      ((sound.mirrors answers).append (.quiet (by simp [Entry.event?]) rfl))

/-- Cut off at the end of a batch, a log is one that clients and answers can build. -/
theorem at_boundary (sound : A.Sound) (annals : Annals A log p) (ends : Boundary log n) :
    ∃ q, Annals A (log.take n) q := by
  induction annals with
  | empty => exact ⟨_, by simpa using empty⟩
  | @client log p c at_ noopAt past client ih =>
    have ends : Boundary (log ++ ([⟨none, at_, .command c⟩] ++ [⟨none, noopAt, .noop⟩])) n := ends
    rcases ends.split (by simp [Entry.isNoop]) with ⟨old, inside⟩ | rfl
    · rw [List.take_append_of_le_length inside]
      exact ih old
    · rw [List.take_of_length_le (by simp)]
      exact ⟨p, past.client at_ noopAt client⟩
  | @answer log es p q r m cause ts c noopAt past entry same answers ih =>
    rcases ends.split fun e there => (sound.answers answers e there).2 with ⟨old, inside⟩ | rfl
    · rw [List.take_append_of_le_length inside]
      exact ih old
    · rw [List.take_of_length_le (by simp)]
      exact ⟨r, past.answer noopAt entry same answers⟩

/-- The rows a reader of the log has committed are those of annals, the counter aside. -/
theorem of_fold (sound : A.Sound) (annals : Annals A log p) (ends : Boundary log n)
    (fold : FoldsTo log n q) : ∃ q', Annals A (log.take n) q' ∧ q'.content = q.content := by
  obtain ⟨q', past⟩ := annals.at_boundary sound ends
  exact ⟨q', past, (past.mirrors sound).unique fold⟩

/-- The log of every run without faults is built by clients and answers. -/
theorem of_run {env w} (sound : A.Sound) (spared : ∀ w a, ok w a → World.Spared env w a)
    (answering : World.AnswersBy env ok A) (run : Run.Reach (World.step env) ok World.init w) :
    ∃ p, Annals A w.log p := by
  induction run with
  | refl => exact ⟨_, .empty⟩
  | @tail w w' run move ih =>
    obtain ⟨a, good, moved⟩ := move
    obtain ⟨p, annals⟩ := ih
    have faithful := World.Faithful.reach (Run.Reach.weaken run spared)
    cases World.step_inv moved with
    | clientAppend client => exact ⟨p, annals.client _ _ client⟩
    | dispatch here entry decided =>
      have current := FoldsTo.whole.mp (faithful.running here)
      have same := (annals.mirrors sound).unique current
      exact ⟨_, annals.answer _ entry same (answering run good here entry decided)⟩
    | _ => exact ⟨p, annals⟩

end Annals

/-! ## Without a stop -/

def Entry.command? (e : Entry) : Option Command :=
  match e.payload with
  | .command c => some c
  | _ => none

/-- The commands among the entries. -/
def commandsOf (es : List Entry) : List Command := es.filterMap Entry.command?

/-- A log, the rows it has come to, and the commands still to be answered, in order. -/
structure Ledger where
  log : List Entry
  rows : Projection
  queue : List Command

namespace Ledger

/-- A client appends a command, or the leader answers the first one of the queue. -/
inductive Step (A : Answering) : Ledger → Ledger → Prop
  | client {log p queue c} (at_ noopAt : Timestamp) (client : c.isClient = true) :
      Step A ⟨log, p, queue⟩
        ⟨log ++ [⟨none, at_, .command c⟩, ⟨none, noopAt, .noop⟩], p, queue ++ [c]⟩
  | answer {log es p q rest c n} (noopAt : Timestamp) (answers : A n c p es q) :
      Step A ⟨log, p, c :: rest⟩
        ⟨log ++ (es ++ [⟨some n, noopAt, .noop⟩]), q, rest ++ commandsOf es⟩

def Reach (A : Answering) : Ledger → Prop :=
  Relation.ReflTransGen (Step A) ⟨[], .empty, []⟩

/-- What holds of the empty ledger and survives every step holds of every ledger reached. -/
theorem Reach.keeps {A} {I : Ledger → Prop} (reach : Reach A l) (start : I ⟨[], .empty, []⟩)
    (kept : ∀ {l l'}, I l → Step A l l' → I l') : I l := by
  induction reach with
  | refl => exact start
  | tail _ step ih => exact kept ih step

end Ledger

/-- Nothing has been answered yet. -/
structure Ledger.Fresh (l : Ledger) (s : Storage) : Prop where
  storage : s = .empty
  quiet : ∀ e ∈ l.log, e.event? = none
  rows : l.rows = .empty
  queue : l.queue = commandsOf l.log

/-- The leader's loop is where the ledger is. -/
def Proc.Shows (s : Storage) (l : Ledger) : Proc → Prop
  | .stopped _ => l.Fresh s
  | .recovering _ _ inflight => l.Fresh s ∧ inflight = none
  | .running next _ =>
    l.rows = s.rows ∧ 0 < next ∧ l.queue = commandsOf (l.log.drop (next - 1))
  | .committing next _ rows _ =>
    l.rows = rows ∧ s.rows.nextGeneratedSeq ≤ rows.nextGeneratedSeq ∧
      l.queue = commandsOf (l.log.drop next)

/-- The leader's loop and its storage are each where some ledger is, that of the storage having no
    event behind the committed position. -/
structure World.Kept (A : Answering) (w : World) : Prop where
  current : ∃ l, Ledger.Reach A l ∧ l.log = w.log ∧ w.proc.Shows w.storage l
  stored : ∃ l, Ledger.Reach A l ∧ l.rows = w.storage.rows ∧ (∃ es, w.log = l.log ++ es) ∧
    QuietBetween w.log w.storage.lastProcessedPosition l.log.length

/-- A run without faults and without a stop. -/
def Action.Steady (a : Action) : Prop := a.FaultFree ∧ a ≠ .stop

theorem commandsOf_append (es fs : List Entry) :
    commandsOf (es ++ fs) = commandsOf es ++ commandsOf fs := List.filterMap_append ..

/-- A command at the read position is the first of the queue. -/
theorem commandsOf_drop {log n cause ts c} (entry : entryAt log n = some ⟨cause, ts, .command c⟩) :
    commandsOf (log.drop (n - 1)) = c :: commandsOf (log.drop n) := by
  obtain ⟨above, inside⟩ := entryAt_eq_some entry
  obtain ⟨n, rfl⟩ : ∃ k, n = k + 1 := ⟨n - 1, by omega⟩
  rw [entryAt_succ] at entry
  have head : log.drop n = ⟨cause, ts, .command c⟩ :: log.drop (n + 1) := by
    rw [List.drop_eq_getElem_cons (by omega), (List.getElem?_eq_some_iff.mp entry).2]
  rw [Nat.add_sub_cancel, head]
  rfl

/-- Any other entry is passed over. -/
theorem commandsOf_drop_other {log n} (entry : entryAt log n = some e)
    (other : e.isCommand = false) : commandsOf (log.drop (n - 1)) = commandsOf (log.drop n) := by
  obtain ⟨above, inside⟩ := entryAt_eq_some entry
  obtain ⟨n, rfl⟩ : ∃ k, n = k + 1 := ⟨n - 1, by omega⟩
  rw [entryAt_succ] at entry
  have head : log.drop n = e :: log.drop (n + 1) := by
    rw [List.drop_eq_getElem_cons (by omega), (List.getElem?_eq_some_iff.mp entry).2]
  have passed : e.command? = none := by
    unfold Entry.isCommand at other
    unfold Entry.command?
    cases payload : e.payload <;> simp_all
  rw [Nat.add_sub_cancel, head, commandsOf, List.filterMap_cons_none passed]
  rfl

theorem Ledger.Fresh.client {c} (fresh : l.Fresh s) :
    Fresh ⟨l.log ++ [⟨none, at_, .command c⟩, ⟨none, noopAt, .noop⟩], l.rows, l.queue ++ [c]⟩ s where
  storage := fresh.storage
  quiet e there := by
    rcases List.mem_append.mp there with old | new
    · exact fresh.quiet e old
    · simp only [List.mem_cons, List.not_mem_nil, or_false] at new
      rcases new with rfl | rfl <;> rfl
  rows := fresh.rows
  queue := by
    rw [fresh.queue, commandsOf_append]
    rfl

theorem Proc.Shows.client {c} (shows_ : proc.Shows s l)
    (placed : proc.Placed l.log s.lastProcessedPosition) :
    proc.Shows s
      ⟨l.log ++ [⟨none, at_, .command c⟩, ⟨none, noopAt, .noop⟩], l.rows, l.queue ++ [c]⟩ := by
  have appended : commandsOf [⟨none, at_, .command c⟩, ⟨none, noopAt, .noop⟩] = [c] := rfl
  cases proc with
  | stopped definitions => exact Ledger.Fresh.client shows_
  | recovering definitions pos inflight => exact ⟨shows_.1.client, shows_.2⟩
  | running next leader =>
    obtain ⟨rows, above, queue⟩ := shows_
    have inside := placed.2.1
    refine ⟨rows, above, ?_⟩
    rw [List.drop_append_of_le_length (by omega), commandsOf_append, appended, queue]
  | committing next leader rows last =>
    obtain ⟨current, counter, queue⟩ := shows_
    obtain ⟨first, answer⟩ := placed
    obtain ⟨ts, closed⟩ := answer.closed
    have inside := (entryAt_eq_some closed).2
    have := answer.whole
    have := answer.nonempty
    refine ⟨current, counter, ?_⟩
    rw [List.drop_append_of_le_length (by omega), commandsOf_append, appended, queue]

/-- An entry without an event commits nothing. -/
theorem replayEntry_quiet {b pos s' inflight} (quiet : e.event? = none)
    (replayed : replayEntry b pos e s none = some (s', inflight)) : s' = s ∧ inflight = none := by
  unfold replayEntry at replayed
  cases payload : e.payload with
  | event ev => simp [Entry.event?, payload] at quiet
  | noop | command | reject =>
    rw [payload] at replayed
    cases replayed
    exact ⟨rfl, rfl⟩

namespace World

variable {env : Env} {w w' : World} {a : Action} {A : Answering}

theorem init_kept : init.Kept A where
  current := ⟨_, .refl, rfl, rfl, by simp, rfl, rfl⟩
  stored := ⟨_, .refl, rfl, ⟨[], rfl⟩, .empty (by simp [init])⟩

/-- The log grows, and storage keeps still. -/
theorem Kept.grows (kept : w.Kept A) {es}
    (current : ∃ l, Ledger.Reach A l ∧ l.log = w.log ++ es ∧ proc.Shows w.storage l) :
    Kept A { w with log := w.log ++ es, proc := proc } where
  current := current
  stored := by
    obtain ⟨l, reach, rows, ⟨fs, split⟩, quiet⟩ := kept.stored
    refine ⟨l, reach, rows, ⟨fs ++ es, by rw [← List.append_assoc, ← split]⟩, ?_⟩
    exact (Between.append (by rw [split]; simp)).mpr quiet

theorem Kept.step (kept : w.Kept A) (sound : A.Sound) (run : Run.Reach (World.step env) ok init w)
    (steady : ∀ w a, ok w a → a.Steady) (answering : AnswersBy env ok A) (good : ok w a)
    (moved : World.step env w a = some w') : w'.Kept A := by
  have placed := Placed.reach run
  obtain ⟨⟨log, p, queue⟩, reach, same, shown⟩ := kept.current
  obtain rfl : log = w.log := same
  cases step_inv moved with
  | clientAppend client =>
    exact kept.grows ⟨_, reach.tail (.client _ _ client), rfl, shown.client placed.proc⟩
  | boot here =>
    rw [here] at shown
    exact ⟨⟨_, reach, rfl, shown, rfl⟩, kept.stored⟩
  | recovered here =>
    rw [here] at shown
    obtain ⟨fresh, -⟩ := shown
    have bottom : w.storage.lastProcessedPosition = 0 := by rw [fresh.storage]; rfl
    refine ⟨⟨_, reach, rfl, ?_, Nat.succ_pos _, ?_⟩, kept.stored⟩
    · rw [fresh.storage]
      exact fresh.rows
    · rw [bottom]
      exact fresh.queue
  | recover here entry replayed =>
    rw [here] at shown
    obtain ⟨fresh, rfl⟩ := shown
    obtain ⟨rfl, rfl⟩ := replayEntry_quiet (fresh.quiet _ (mem_of_entryAt entry)) replayed
    exact ⟨⟨_, reach, rfl, fresh, rfl⟩, kept.stored⟩
  | dispatch here entry decided =>
    rw [here] at shown
    obtain ⟨rows, above, waiting⟩ := shown
    have answers := answering run good here entry decided
    rw [commandsOf_drop entry] at waiting
    cases rows
    cases waiting
    refine kept.grows ⟨_, reach.tail (.answer _ answers), rfl, rfl, ?_, ?_⟩
    · exact sound.counter_le answers
    · have inside := (entryAt_eq_some entry).2
      show commandsOf _ ++ commandsOf _ = commandsOf _
      rw [List.drop_append_of_le_length inside, commandsOf_append, commandsOf_append]
      simp [commandsOf, Entry.command?]
  | skip here entry passed =>
    rw [here] at shown
    obtain ⟨rows, above, waiting⟩ := shown
    rw [commandsOf_drop_other entry passed] at waiting
    exact ⟨⟨_, reach, rfl, rows, Nat.succ_pos _, waiting⟩, kept.stored⟩
  | @commit next leader rows last here =>
    have appended := placed.proc
    rw [here] at shown appended
    obtain ⟨current, counter, waiting⟩ := shown
    obtain ⟨first, answer⟩ := appended
    obtain rfl : p = rows := current
    have committed : (w.storage.commit p last).rows = p := by
      unfold Storage.commit
      rw [Nat.max_eq_right counter]
    refine ⟨⟨_, reach, rfl, committed.symm, Nat.succ_pos _, waiting⟩, ?_⟩
    exact ⟨_, reach, committed.symm, ⟨[], (List.append_nil _).symm⟩, answer.rest⟩
  | stop => exact absurd rfl (steady _ _ good).2
  | follow | followerRestart => exact ⟨⟨_, reach, rfl, shown⟩, kept.stored⟩

theorem Kept.of_run (sound : A.Sound) (steady : ∀ w a, ok w a → a.Steady)
    (answering : AnswersBy env ok A) (run : Run.Reach (World.step env) ok init w) : w.Kept A := by
  induction run with
  | refl => exact init_kept
  | tail run move ih =>
    obtain ⟨a, good, moved⟩ := move
    exact ih.step sound run steady answering good moved

end World

end Spica
