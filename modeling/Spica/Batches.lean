import Spica.Emission
import Spica.Stream
import Spica.Lib.Run

/-! # Batches and watermarks

Where the readers of the log stand relative to its batches, in every run and whatever fails. A
committed position is always the Noop of a batch; between it and a reader there is either no
event at all, or the open batch the reader's transaction holds.
-/

namespace Spica

open Log

/-- No event after position `a` up to position `b`. -/
abbrev QuietBetween (log : List Entry) (a b : Nat) : Prop := Between (·.event? = none) log a b

/-- No Noop after position `a` up to position `b`. -/
abbrev OpenBetween (log : List Entry) (a b : Nat) : Prop := Between (·.isNoop = false) log a b

/-- A batch ends at the position, or nothing is before it. -/
def Boundary (log : List Entry) (pos : Nat) : Prop :=
  pos = 0 ∨ ∃ e, entryAt log pos = some e ∧ e.isNoop = true

theorem Boundary.le {log pos} (ends : Boundary log pos) : pos ≤ log.length := by
  rcases ends with rfl | ⟨e, found, -⟩
  · omega
  · exact (entryAt_eq_some found).2

theorem Boundary.append {log es pos} (ends : Boundary log pos) : Boundary (log ++ es) pos := by
  rcases ends with rfl | ⟨e, found, noop⟩
  · exact .inl rfl
  · exact .inr ⟨e, by rw [entryAt_append (entryAt_eq_some found).2, found], noop⟩

/-- A reader about to read `pos` of the log, whose storage is committed up to `committed`. -/
structure Reading (log : List Entry) (committed pos : Nat) (inflight : Option Projection) :
    Prop where
  boundary : Boundary log committed
  above : committed < pos
  inside : pos ≤ log.length + 1
  quiet : inflight = none → QuietBetween log committed (pos - 1)
  /-- an open transaction holds the batch being read, from its first event on, and no event
      before that one is uncommitted -/
  opened : inflight ≠ none →
    ∃ k, committed ≤ k ∧ k + 1 < pos ∧ QuietBetween log committed k ∧
      OpenBetween log k (pos - 1) ∧ ∃ e, entryAt log (k + 1) = some e ∧ e.event? ≠ none

namespace Reading

variable {log es : List Entry} {committed pos : Nat} {inflight inflight' : Option Projection}
  {s s' : Storage} {b : Backend} {e : Entry}

theorem start (boundary : Boundary log committed) : Reading log committed (committed + 1) none where
  boundary := boundary
  above := by omega
  inside := by have := boundary.le; omega
  quiet _ := .empty (by omega)
  opened some := absurd rfl some

theorem append (reading : Reading log committed pos inflight) :
    Reading (log ++ es) committed pos inflight where
  boundary := reading.boundary.append
  above := reading.above
  inside := by have := reading.inside; simp; omega
  quiet none := (Between.append (by have := reading.inside; omega)).mpr (reading.quiet none)
  opened some := by
    have inside := reading.inside
    obtain ⟨k, above, below, quiet, opened, e, found, isEvent⟩ := reading.opened some
    exact ⟨k, above, below, (Between.append (by omega)).mpr quiet,
      (Between.append (by omega)).mpr opened, e, by rw [entryAt_append (by omega), found], isEvent⟩

/-- Passing over an entry that is neither an event nor a Noop, or a Noop with nothing open. -/
theorem pass (reading : Reading log committed pos inflight) (entry : entryAt log pos = some e)
    (noEvent : e.event? = none) (closes : inflight ≠ none → e.isNoop = false) :
    Reading log committed (pos + 1) inflight := by
  have above := reading.above
  obtain ⟨pos, rfl⟩ : ∃ n, pos = n + 1 := ⟨pos - 1, by omega⟩
  have only : ∀ P : Entry → Prop, P e → ∀ e', entryAt log (pos + 1) = some e' → P e' := by
    intro P holds e' found
    rw [entry] at found
    cases found
    exact holds
  refine ⟨reading.boundary, by omega, by have := (entryAt_eq_some entry).2; omega, ?_, ?_⟩
  · intro none
    exact (reading.quiet none).succ (only _ noEvent)
  · intro some
    obtain ⟨k, above, below, quiet, opened, first⟩ := reading.opened some
    exact ⟨k, above, by omega, quiet, opened.succ (only _ (closes some)), first⟩

/-- Folding an event into the open batch, or opening one with it. -/
theorem fold {rows} (reading : Reading log committed pos inflight)
    (entry : entryAt log pos = some e) (isEvent : e.event? ≠ none) :
    Reading log committed (pos + 1) (some rows) := by
  have above := reading.above
  obtain ⟨pos, rfl⟩ : ∃ n, pos = n + 1 := ⟨pos - 1, by omega⟩
  have only : ∀ e', entryAt log (pos + 1) = some e' → e'.isNoop = false := by
    intro e' found
    rw [entry] at found
    cases found
    exact e.not_noop_of_event isEvent
  refine ⟨reading.boundary, by omega, by have := (entryAt_eq_some entry).2; omega,
    fun none => (by cases none), fun _ => ?_⟩
  by_cases none : inflight = none
  · exact ⟨pos, by omega, by omega, reading.quiet none, Between.succ (.empty (by omega)) only,
      e, entry, isEvent⟩
  · obtain ⟨k, above, below, quiet, opened, first⟩ := reading.opened none
    exact ⟨k, above, by omega, quiet, opened.succ only, first⟩

/-- One entry, whatever it is. -/
theorem replayEntry (reading : Reading log s.lastProcessedPosition pos inflight)
    (entry : entryAt log pos = some e)
    (replayed : Spica.replayEntry b pos e s inflight = some (s', inflight')) :
    Reading log s'.lastProcessedPosition (pos + 1) inflight' := by
  unfold Spica.replayEntry at replayed
  split at replayed
  case h_1 ev isEvent =>
    obtain ⟨rows, -, same⟩ := Option.map_eq_some_iff.mp replayed
    cases same
    exact reading.fold entry (by simp [Entry.event?, isEvent])
  case h_2 isNoop =>
    split at replayed
    · cases replayed
      exact reading.pass entry (by simp [Entry.event?, isNoop]) (absurd rfl)
    · cases replayed
      exact .start (.inr ⟨e, entry, by simp [Entry.isNoop, isNoop]⟩)
  case h_3 c isCommand =>
    cases replayed
    exact reading.pass entry (by simp [Entry.event?, isCommand])
      fun _ => by simp [Entry.isNoop, isCommand]
  case h_4 r isReject =>
    cases replayed
    exact reading.pass entry (by simp [Entry.event?, isReject])
      fun _ => by simp [Entry.isNoop, isReject]

end Reading

/-! ## The whole system -/

/-- The answer to the command at `next`, appended after position `first` and closed at `last`,
    with no uncommitted event before it. -/
structure Appended (log : List Entry) (committed next first last : Nat) : Prop where
  above : committed ≤ first
  whole : next ≤ first
  nonempty : first + 1 < last
  quiet : QuietBetween log committed first
  answers : Between (·.Answers next) log first (last - 1)
  closed : ∃ ts, entryAt log last = some ⟨some next, ts, .noop⟩
  rest : QuietBetween log last log.length

/-- Where the leader's loop stands. -/
def Proc.Placed (log : List Entry) (committed : Nat) : Proc → Prop
  | .stopped _ => True
  | .recovering _ pos inflight => Reading log committed pos inflight
  | .running next leader =>
    leader.watermark = committed ∧ next ≤ log.length + 1 ∧ QuietBetween log committed log.length
  | .committing next _ _ last => ∃ first, Appended log committed next first last

structure World.Placed (w : World) : Prop where
  ended : Boundary w.log w.log.length
  boundary : Boundary w.log w.storage.lastProcessedPosition
  proc : w.proc.Placed w.log w.storage.lastProcessedPosition
  follower : Reading w.log w.follower.storage.lastProcessedPosition w.follower.pos
    w.follower.inflight

section steps

variable {log es : List Entry} {a committed next first last pos : Nat} {proc : Proc}

theorem QuietBetween.extend (quiet : QuietBetween log a log.length)
    (new : ∀ e ∈ es, e.event? = none) : QuietBetween (log ++ es) a (log ++ es).length :=
  ((Between.append le_rfl).mpr quiet).trans (.appended new le_rfl)

theorem Boundary.closed {e} (noop : e.isNoop = true) :
    Boundary (log ++ (es ++ [e])) (log ++ (es ++ [e])).length := by
  refine .inr ⟨e, ?_, noop⟩
  have : (log ++ (es ++ [e])).length = log.length + (es.length + 1) := by simp
  rw [this, entryAt_append_right]
  simp

theorem Appended.extend (answer : Appended log committed next first last)
    (new : ∀ e ∈ es, e.event? = none) : Appended (log ++ es) committed next first last := by
  obtain ⟨ts, closed⟩ := answer.closed
  have inside := (entryAt_eq_some closed).2
  have nonempty := answer.nonempty
  exact {
    above := answer.above
    whole := answer.whole
    nonempty := nonempty
    quiet := (Between.append (by omega)).mpr answer.quiet
    answers := (Between.append (by omega)).mpr answer.answers
    closed := ⟨ts, by rw [entryAt_append inside, closed]⟩
    rest := answer.rest.extend new }

/-- A client's append disturbs no reader. -/
theorem Proc.Placed.extend (placed : proc.Placed log committed)
    (new : ∀ e ∈ es, e.event? = none) : proc.Placed (log ++ es) committed := by
  cases proc with
  | stopped => trivial
  | recovering => exact Reading.append placed
  | running next leader =>
    obtain ⟨applied, inside, quiet⟩ := placed
    exact ⟨applied, by simp; omega, quiet.extend new⟩
  | committing =>
    obtain ⟨first, answer⟩ := placed
    exact ⟨first, answer.extend new⟩

/-- At the end of the log recovery leaves no event uncommitted. -/
theorem Reading.finished {inflight} (reading : Reading log committed pos inflight)
    (ended : Boundary log log.length) (tail : entryAt log pos = none) :
    QuietBetween log committed log.length := by
  have above := reading.above
  have inside := reading.inside
  have past := (entryAt_eq_none (by omega)).mp tail
  by_cases none : inflight = none
  · exact (reading.quiet none).narrow le_rfl (by omega)
  · -- the log ends in a Noop, so no batch is open there
    obtain ⟨k, -, below, quiet, opened, -⟩ := reading.opened none
    rcases ended with empty | ⟨e, found, noop⟩
    · omega
    · have := opened log.length e (by omega) (by omega) found
      simp [noop] at this

/-- The batch the leader has just appended. -/
theorem Appended.intro {produced : Produced} {noopAt} (sound : produced.Sound next)
    (inside : next ≤ log.length) (below : committed ≤ log.length)
    (quiet : QuietBetween log committed log.length) :
    Appended (log ++ produced.batch next noopAt) committed next log.length
      (log.length + (produced.batch next noopAt).length) := by
  have filled : 0 < produced.entries.length := List.length_pos_iff.mpr sound.nonempty
  refine {
    above := below
    whole := inside
    nonempty := by simp [Produced.batch]; omega
    quiet := (Between.append le_rfl).mpr quiet
    answers := ?_
    closed := ⟨noopAt, ?_⟩
    rest := .empty (by simp) }
  · have answers : Between (·.Answers next) (log ++ produced.entries) log.length
        (log.length + produced.entries.length) := .appended sound.answers le_rfl
    have kept : Between (·.Answers next) (log ++ produced.entries ++ [⟨some next, noopAt, .noop⟩])
        log.length (log.length + produced.entries.length) :=
      (Between.append (by simp)).mpr answers
    simpa [Produced.batch, ← Nat.add_assoc] using kept
  · have : (produced.batch next noopAt).length = produced.entries.length + 1 := by
      simp [Produced.batch]
    rw [this, entryAt_append_right]
    simp [Produced.batch]

end steps

namespace World

variable {env : Env} {w w' : World} {a : Action}

theorem init_placed : init.Placed where
  ended := .inl rfl
  boundary := .inl rfl
  proc := trivial
  follower := .start (.inl rfl)

theorem Placed.step (placed : w.Placed) (moved : w.step env a = some w') : w'.Placed := by
  obtain ⟨ended, boundary, proc, follower⟩ := placed
  cases step_inv moved with
  | @clientAppend c at_ noopAt =>
    have ended : Boundary (w.log ++ ([⟨none, at_, .command c⟩] ++ [⟨none, noopAt, .noop⟩])) _ :=
      .closed rfl
    refine ⟨ended, boundary.append, proc.extend ?_, follower.append⟩
    simp [Entry.event?]
  | boot => exact ⟨ended, boundary, .start boundary, follower⟩
  | recovered here tail =>
    rw [here] at proc
    exact ⟨ended, boundary,
      ⟨rfl, Nat.succ_le_succ boundary.le, proc.finished ended tail⟩, follower⟩
  | recover here entry replayed =>
    rw [here] at proc
    have reading := Reading.replayEntry proc entry replayed
    exact ⟨ended, reading.boundary, reading, follower⟩
  | dispatch here entry decided =>
    rw [here] at proc
    obtain ⟨-, -, quiet⟩ := proc
    exact ⟨.closed rfl, boundary.append, ⟨_, .intro (processCommand_sound decided)
      (entryAt_eq_some entry).2 boundary.le quiet⟩, follower.append⟩
  | skip here entry =>
    rw [here] at proc
    obtain ⟨applied, -, quiet⟩ := proc
    exact ⟨ended, boundary, ⟨applied, Nat.succ_le_succ (entryAt_eq_some entry).2, quiet⟩,
      follower⟩
  | commit here =>
    rw [here] at proc
    obtain ⟨first, answer⟩ := proc
    obtain ⟨ts, closed⟩ := answer.closed
    have inside : first ≤ w.log.length :=
      (Nat.le_of_lt (by have := answer.nonempty; omega)).trans (entryAt_eq_some closed).2
    exact ⟨ended, .inr ⟨_, closed, rfl⟩,
      ⟨rfl, Nat.succ_le_succ (answer.whole.trans inside), answer.rest⟩, follower⟩
  | stop => exact ⟨ended, boundary, trivial, follower⟩
  | follow entry replayed => exact ⟨ended, boundary, proc, follower.replayEntry entry replayed⟩
  | followerRestart => exact ⟨ended, boundary, proc, .start follower.boundary⟩

theorem Placed.reach {ok} (run : Run.Reach (World.step env) ok init w) : w.Placed :=
  run.keeps (fun _ _ _ placed _ moved => placed.step moved) init_placed

end World

end Spica
