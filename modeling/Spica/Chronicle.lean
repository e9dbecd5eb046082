import Spica.Ledger

/-! # Runs with restarts

What a run amounts to when the leader may stop and come back. As without a stop, the ledger grows
by client commands and by answers to the first command of the queue. A restart puts the leader
back behind the last event of the log: the commands written before that are never read again, and
those after it are queued once more, answered or not. The rows are what the log folds to, but the
name counter may fall back, as far as the highest name an event has borne.
-/

namespace Spica

open Log

variable {c : Command} {proc : Proc} {s : Storage} {ok : World → Action → Prop}

/-! ## The counter of a replay -/

/-- Replaying the entries comes to the rows, whose counter is past every name born on the way. -/
def Advances (p : Projection) (es : List Entry) (q : Projection) : Prop :=
  ∃ r, Replays p es r ∧ r.content = q.content ∧ r.nextGeneratedSeq ≤ q.nextGeneratedSeq

theorem Event.raised_mono (e : Event) {m n} (le : m ≤ n) : e.raised m ≤ e.raised n := by
  unfold Event.raised Projection.raised
  split
  · split
    · exact le
    · omega
  · exact le

/-- A replay that starts from a higher counter ends with a higher one. -/
theorem Replays.mono {p p' q es} (same : p.content = p'.content)
    (le : p.nextGeneratedSeq ≤ p'.nextGeneratedSeq) (all : Replays p es q) :
    ∃ q', Replays p' es q' ∧ q.content = q'.content ∧
      q.nextGeneratedSeq ≤ q'.nextGeneratedSeq := by
  induction es generalizing p p' with
  | nil =>
    obtain rfl : p = q := Replays.nil.unique all
    exact ⟨p', .nil, same, le⟩
  | cons e es ih =>
    cases isEvent : e.event? with
    | none =>
      obtain ⟨q', rest, same, le⟩ := ih same le (Replays.skip_inv isEvent all)
      exact ⟨q', .skip isEvent rest, same, le⟩
    | some ev =>
      obtain ⟨folds, rest⟩ := Replays.event_inv isEvent all
      have raised : (ev.apply e.timestamp p).nextGeneratedSeq ≤
          (ev.apply e.timestamp p').nextGeneratedSeq := by
        rw [ev.apply_counter, ev.apply_counter]
        exact ev.raised_mono le
      obtain ⟨q', rest, same', le⟩ := ih (Event.apply_content same) raised rest
      exact ⟨q', .event isEvent ((Event.folds_content same).mp folds) rest, same', le⟩

/-- The counter never falls while events are replayed. -/
theorem Replays.counter_le {p q es} (all : Replays p es q) :
    p.nextGeneratedSeq ≤ q.nextGeneratedSeq := by
  induction es generalizing p with
  | nil =>
    obtain rfl : p = q := Replays.nil.unique all
    exact le_rfl
  | cons e es ih =>
    cases isEvent : e.event? with
    | none => exact ih (Replays.skip_inv isEvent all)
    | some ev =>
      have rest := ih (Replays.event_inv isEvent all).2
      rw [ev.apply_counter] at rest
      exact (ev.le_raised _).trans rest

namespace Advances

variable {p q r : Projection} {es fs : List Entry} {e : Entry} {ev : Event}

theorem quiet (noEvents : ∀ e ∈ es, e.event? = none) (same : p.content = q.content)
    (le : p.nextGeneratedSeq ≤ q.nextGeneratedSeq) : Advances p es q :=
  ⟨p, .quiet noEvents, same, le⟩

theorem mirrors (advances : Advances p es q) : Mirrors p es q := by
  obtain ⟨r, replays, same, -⟩ := advances
  exact ⟨r, replays, same⟩

theorem append (first : Advances p es q) (rest : Advances q fs r) : Advances p (es ++ fs) r := by
  obtain ⟨q', first, same, le⟩ := first
  obtain ⟨r', rest, same', le'⟩ := rest
  -- replay the rest from where the first replay really ends, with the lower counter
  obtain ⟨r'', rest', same''⟩ := rest.content same.symm
  obtain ⟨r₃, again, -, lower⟩ := rest'.mono same le
  obtain rfl : r' = r₃ := rest.unique again
  exact ⟨r'', first.append rest', same''.symm.trans same', lower.trans le'⟩

theorem content_right (advances : Advances p es q) (same : q.content = r.content)
    (le : q.nextGeneratedSeq ≤ r.nextGeneratedSeq) : Advances p es r := by
  obtain ⟨q', replays, same', le'⟩ := advances
  exact ⟨q', replays, same'.trans same, le'.trans le⟩

theorem event (isEvent : e.event? = some ev) (folds : ev.Folds p) :
    Advances p [e] (ev.apply e.timestamp p) := ⟨_, .event isEvent folds .nil, rfl, le_rfl⟩

/-- Entries without an event at the end do not count. -/
theorem of_append_quiet (advances : Advances p (es ++ fs) q)
    (noEvents : ∀ e ∈ fs, e.event? = none) : Advances p es q := by
  obtain ⟨r, replays, same, le⟩ := advances
  obtain ⟨r', first, rest⟩ := replays.split
  obtain rfl : r' = r := (Replays.quiet noEvents).unique rest
  exact ⟨r', first, same, le⟩

end Advances

theorem Writes.advances {cause p q ds es} (writes : Writes cause p ds es q) : Advances p es q := by
  induction writes with
  | nil => exact ⟨_, .nil, rfl, le_rfl⟩
  | @take p q ds es _ ih =>
    have first : Advances p [] (p.putNextGeneratedSeq (p.nextGeneratedSeq + 1)) :=
      ⟨p, .nil, rfl, Nat.le_succ _⟩
    exact first.append ih
  | @event p q ds es e ts folds _ ih =>
    have first : Advances p [⟨some cause, ts, .event e⟩] (e.apply ts p) := .event rfl folds
    exact first.append ih
  | @command p q ds es c ts _ ih =>
    have first : Advances p [⟨some cause, ts, .command c⟩] p :=
      .quiet (by simp [Entry.event?]) rfl le_rfl
    exact first.append ih
  | @reject p q ds es r ts _ ih =>
    have first : Advances p [⟨some cause, ts, .reject r⟩] p :=
      .quiet (by simp [Entry.event?]) rfl le_rfl
    exact first.append ih

theorem Answer.advances {env M n p q es} (answer : Answer env M n c p es q) : Advances p es q := by
  cases answer with
  | outcome _ writes => exact writes.advances
  | refused => exact .quiet (by simp [Entry.event?]) rfl le_rfl

/-! ## Turns -/

/-- The answers bring the rows on, and are batches. -/
structure Answering.Advancing (A : Answering) : Prop where
  answers : ∀ {n c p es q}, A n c p es q → ∀ e ∈ es, e.Answers n
  advances : ∀ {n c p es q}, A n c p es q → Advances p es q

/-- The ledger grows, or the leader comes back to it after a stop. -/
inductive Ledger.Turn (A : Answering) : Ledger → Ledger → Prop
  | step {l l'} (step : Ledger.Step A l l') : Turn A l l'
  | restart {log p q queue n} (ends : Boundary log n) (quiet : QuietBetween log n log.length)
      (folds : Advances .empty log q) : Turn A ⟨log, p, queue⟩ ⟨log, q, commandsOf (log.drop n)⟩

namespace Ledger

def Turns (A : Answering) : Ledger → Prop := Relation.ReflTransGen (Turn A) ⟨[], .empty, []⟩

namespace Turns

variable {A : Answering} {l : Ledger}

/-- What holds of the empty ledger and survives every turn holds of every ledger reached. -/
theorem keeps {I : Ledger → Prop} (turns : Turns A l) (start : I ⟨[], .empty, []⟩)
    (kept : ∀ {l l'}, Turns A l → I l → Turn A l l' → I l') : I l := by
  induction turns with
  | refl => exact start
  | tail past turn ih => exact kept past ih turn

theorem advances (sound : A.Advancing) (turns : Turns A l) : Advances .empty l.log l.rows := by
  refine turns.keeps (I := fun l => Advances .empty l.log l.rows)
    (.quiet (by simp) rfl le_rfl) fun _ folded turn => ?_
  cases turn with
  | restart _ _ folds => exact folds
  | step step =>
    cases step with
    | client => exact folded.append (.quiet (by simp [Entry.event?]) rfl le_rfl)
    | answer _ answers =>
      exact folded.append
        ((sound.advances answers).append (.quiet (by simp [Entry.event?]) rfl le_rfl))

/-- Cut off at the end of a batch, the log was the whole log of an earlier ledger. -/
theorem at_boundary (sound : A.Advancing) (turns : Turns A l) {n} (ends : Boundary l.log n) :
    ∃ l', Turns A l' ∧ l'.log = l.log.take n := by
  induction turns with
  | refl => exact ⟨_, .refl, by simp⟩
  | @tail l l' past turn ih =>
    cases turn with
    | restart => exact ih ends
    | step step =>
      cases step with
      | @client log p queue c at_ noopAt client =>
        have ends : Boundary (log ++ ([⟨none, at_, .command c⟩] ++ [⟨none, noopAt, .noop⟩]))
            n := ends
        rcases ends.split (by simp [Entry.isNoop]) with ⟨old, inside⟩ | rfl
        · rw [List.take_append_of_le_length inside]
          exact ih old
        · exact ⟨_, past.tail (.step (.client at_ noopAt client)),
            (List.take_of_length_le (by simp)).symm⟩
      | @answer log es p q rest c m noopAt answers =>
        rcases ends.split fun e there => (sound.answers answers e there).2
          with ⟨old, inside⟩ | rfl
        · rw [List.take_append_of_le_length inside]
          exact ih old
        · exact ⟨_, past.tail (.step (.answer noopAt answers)),
            (List.take_of_length_le (by simp)).symm⟩

end Turns

end Ledger

/-! ## The runs of the system -/

/-- The leader's loop is where the ledger is, if it is under way. -/
def Proc.Follows (s : Storage) (l : Ledger) : Proc → Prop
  | .stopped _ | .recovering _ _ _ => True
  | .running next _ => l.rows = s.rows ∧ 0 < next ∧ l.queue = commandsOf (l.log.drop (next - 1))
  | .committing next _ rows _ =>
    l.rows = rows ∧ s.rows.nextGeneratedSeq ≤ rows.nextGeneratedSeq ∧
      l.queue = commandsOf (l.log.drop next)

/-- The log is that of a ledger, and what storage and recovery hold are parts of its fold. -/
structure World.Chronicled (A : Answering) (w : World) : Prop where
  current : ∃ l, Ledger.Turns A l ∧ l.log = w.log ∧ w.proc.Follows w.storage l
  stored : Advances .empty (w.log.take w.storage.lastProcessedPosition) w.storage.rows
  open_ : ∀ definitions pos rows, w.proc = .recovering definitions pos (some rows) →
    Advances .empty (w.log.take (pos - 1)) rows

theorem Proc.Follows.client {l at_ noopAt} (follows : proc.Follows s l)
    (placed : proc.Placed l.log s.lastProcessedPosition) :
    proc.Follows s
      ⟨l.log ++ [⟨none, at_, .command c⟩, ⟨none, noopAt, .noop⟩], l.rows, l.queue ++ [c]⟩ := by
  cases proc with
  | stopped | recovering => trivial
  | running next leader =>
    have shown : (Proc.running next leader).Shows s l := follows
    exact shown.client placed
  | committing next leader rows last =>
    have shown : (Proc.committing next leader rows last).Shows s l := follows
    exact shown.client placed

namespace World

variable {env : Env} {w w' : World} {a : Action} {A : Answering}

theorem init_chronicled : init.Chronicled A where
  current := ⟨_, .refl, rfl, trivial⟩
  stored := .quiet (by simp [init]) rfl le_rfl
  open_ := by simp [init]

/-- Storage and recovery keep still while the log grows. -/
theorem Chronicled.grows (chronicled : w.Chronicled A) (placed : w.Placed) {es}
    (current : ∃ l, Ledger.Turns A l ∧ l.log = w.log ++ es ∧ proc.Follows w.storage l)
    (still : ∀ definitions pos rows, proc = .recovering definitions pos (some rows) →
      proc = w.proc) : Chronicled A { w with log := w.log ++ es, proc := proc } where
  current := current
  stored := by
    show Advances .empty ((w.log ++ es).take w.storage.lastProcessedPosition) _
    rw [List.take_append_of_le_length placed.boundary.le]
    exact chronicled.stored
  open_ definitions pos rows here := by
    have same := still definitions pos rows here
    have here : w.proc = .recovering definitions pos (some rows) := same ▸ here
    have reading := placed.proc
    rw [here] at reading
    have inside := Reading.inside reading
    show Advances .empty ((w.log ++ es).take (pos - 1)) rows
    rw [List.take_append_of_le_length (by omega)]
    exact chronicled.open_ definitions pos rows here

/-- Recovery reads one entry. -/
theorem Chronicled.recover (chronicled : w.Chronicled A) (placed : w.Placed)
    {b definitions pos inflight inflight' e} (spared : w.Spared env (.recover b))
    (here : w.proc = .recovering definitions pos inflight) (entry : entryAt w.log pos = some e)
    (replayed : replayEntry b pos e w.storage inflight = some (s, inflight')) :
    Chronicled A { w with
      storage := s
      proc := .recovering definitions (pos + 1) inflight' } := by
  have reading := placed.proc
  rw [here] at reading
  have above := Reading.above reading
  obtain ⟨pos, rfl⟩ : ∃ n, pos = n + 1 := ⟨pos - 1, by omega⟩
  have taken := take_succ_of_entryAt entry
  have before : Advances .empty (w.log.take pos) (inflight.getD w.storage.rows) := by
    cases opened : inflight with
    | none =>
      obtain ⟨es, prefix_, noEvents⟩ := Between.take_eq (by omega) (Reading.quiet reading opened)
      rw [Nat.add_sub_cancel] at prefix_
      rw [prefix_]
      exact chronicled.stored.append (.quiet noEvents rfl le_rfl)
    | some rows => exact chronicled.open_ definitions (pos + 1) rows (opened ▸ here)
  obtain ⟨l, turns, log, -⟩ := chronicled.current
  have passed (noEvent : e.event? = none) : Advances .empty (w.log.take (pos + 1))
      (inflight.getD w.storage.rows) := by
    rw [taken]
    exact before.append (.quiet (by simpa using noEvent) rfl le_rfl)
  unfold replayEntry at replayed
  split at replayed
  case h_1 ev isEvent =>
    obtain ⟨rows, folded, same⟩ := Option.map_eq_some_iff.mp replayed
    cases same
    have isEvent : e.event? = some ev := by simp [Entry.event?, isEvent]
    obtain ⟨folds, effect⟩ := foldInflight_ok (spared _ _ _ _ _ here entry isEvent) folded
    refine ⟨⟨l, turns, log, trivial⟩, chronicled.stored, ?_⟩
    rintro _ _ _ ⟨⟩
    show Advances .empty (w.log.take (pos + 1)) rows
    rw [taken, effect]
    exact before.append (.event isEvent folds)
  case h_2 isNoop =>
    split at replayed
    · cases replayed
      exact ⟨⟨l, turns, log, trivial⟩, chronicled.stored, by simp⟩
    case h_2 rows =>
      cases replayed
      refine ⟨⟨l, turns, log, trivial⟩, ?_, by simp⟩
      have passed := passed (by simp [Entry.event?, isNoop])
      exact passed.content_right rfl (Nat.le_max_right _ _)
  case h_3 isCommand =>
    cases replayed
    refine ⟨⟨l, turns, log, trivial⟩, chronicled.stored, ?_⟩
    rintro _ _ _ ⟨⟩
    exact passed (by simp [Entry.event?, isCommand])
  case h_4 isReject =>
    cases replayed
    refine ⟨⟨l, turns, log, trivial⟩, chronicled.stored, ?_⟩
    rintro _ _ _ ⟨⟩
    exact passed (by simp [Entry.event?, isReject])

theorem Chronicled.step (chronicled : w.Chronicled A) (sound : A.Advancing)
    (run : Run.Reach (World.step env) ok init w) (spared : ∀ w a, ok w a → World.Spared env w a)
    (answering : AnswersBy env ok A) (good : ok w a) (moved : World.step env w a = some w') :
    w'.Chronicled A := by
  have placed := Placed.reach run
  obtain ⟨⟨log, p, queue⟩, turns, same, follows⟩ := chronicled.current
  obtain rfl : log = w.log := same
  have stored := chronicled.stored
  cases step_inv moved with
  | clientAppend client =>
    exact chronicled.grows placed
      ⟨_, turns.tail (.step (.client _ _ client)), rfl, follows.client placed.proc⟩
      fun _ _ _ _ => rfl
  | boot => exact ⟨⟨_, turns, rfl, trivial⟩, stored, by simp⟩
  | recovered here tail =>
    have reading := placed.proc
    rw [here] at reading
    have quiet := Reading.finished reading placed.ended tail
    obtain ⟨es, whole, noEvents⟩ := Between.take_eq placed.boundary.le quiet
    have folds : Advances .empty w.log w.storage.rows := by
      rw [List.take_length] at whole
      rw [whole]
      exact stored.append (.quiet noEvents rfl le_rfl)
    refine ⟨⟨_, turns.tail (.restart placed.boundary quiet folds), rfl, rfl, Nat.succ_pos _, rfl⟩,
      stored, by simp⟩
  | recover here entry replayed =>
    exact chronicled.recover placed (spared _ _ good) here entry replayed
  | dispatch here entry decided =>
    rw [here] at follows
    obtain ⟨rows, above, waiting⟩ := follows
    have answers := answering run good here entry decided
    rw [commandsOf_drop entry] at waiting
    cases rows
    cases waiting
    refine chronicled.grows placed ⟨_, turns.tail (.step (.answer _ answers)), rfl, rfl, ?_, ?_⟩
      (by simp)
    · obtain ⟨r, replays, -, le⟩ := sound.advances answers
      exact (replays.counter_le).trans le
    · have inside := (entryAt_eq_some entry).2
      show commandsOf _ ++ commandsOf _ = commandsOf _
      rw [List.drop_append_of_le_length inside, commandsOf_append, commandsOf_append]
      simp [commandsOf, Entry.command?]
  | skip here entry passed =>
    rw [here] at follows
    obtain ⟨rows, above, waiting⟩ := follows
    rw [commandsOf_drop_other entry passed] at waiting
    exact ⟨⟨_, turns, rfl, rows, Nat.succ_pos _, waiting⟩, stored, by simp⟩
  | @commit next leader rows last here =>
    have appended := placed.proc
    rw [here] at follows appended
    obtain ⟨current, counter, waiting⟩ := follows
    obtain ⟨first, answer⟩ := appended
    obtain rfl : p = rows := current
    have committed : (w.storage.commit p last).rows = p := by
      unfold Storage.commit
      rw [Nat.max_eq_right counter]
    obtain ⟨ts, closed⟩ := answer.closed
    obtain ⟨es, whole, noEvents⟩ := Between.take_eq (entryAt_eq_some closed).2 answer.rest
    refine ⟨⟨_, turns, rfl, committed.symm, Nat.succ_pos _, waiting⟩, ?_, by simp⟩
    have folds : Advances .empty w.log p := turns.advances sound
    rw [List.take_length] at whole
    rw [whole] at folds
    show Advances .empty (w.log.take last) (w.storage.commit p last).rows
    rw [committed]
    exact folds.of_append_quiet noEvents
  | stop => exact ⟨⟨_, turns, rfl, trivial⟩, stored, by simp⟩
  | follow | followerRestart => exact ⟨⟨_, turns, rfl, follows⟩, stored, chronicled.open_⟩

/-- Every run in which no failure is swallowed is a chronicle. -/
theorem Chronicled.of_run (sound : A.Advancing) (spared : ∀ w a, ok w a → World.Spared env w a)
    (answering : AnswersBy env ok A) (run : Run.Reach (World.step env) ok init w) :
    w.Chronicled A := by
  induction run with
  | refl => exact init_chronicled
  | tail run move ih =>
    obtain ⟨a, good, moved⟩ := move
    exact ih.step sound run spared answering good moved

/-- What storage has committed is where a ledger was when its batch was answered. -/
theorem Chronicled.committed (chronicled : w.Chronicled A) (sound : A.Advancing)
    (placed : w.Placed) : ∃ l, Ledger.Turns A l ∧
      l.log = w.log.take w.storage.lastProcessedPosition ∧
      l.rows.content = w.storage.rows.content := by
  obtain ⟨l, turns, log, -⟩ := chronicled.current
  obtain ⟨l', turns', log'⟩ := turns.at_boundary sound (log ▸ placed.boundary)
  rw [log] at log'
  refine ⟨l', turns', log', ?_⟩
  have one := (turns'.advances sound).mirrors
  rw [log'] at one
  exact one.unique chronicled.stored.mirrors

end World

end Spica
