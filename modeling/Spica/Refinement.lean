import Spica.Faults

/-! # The projection is a function of the log

While storage calls succeed, what the leader commits eagerly, what recovery rebuilds and what a
follower replicates are one thing: the events of a Noop-ended prefix of the log, folded in order
from the empty store. The generated-name counter is left out.
-/

namespace Spica

open Log

/-- The projection is the fold of the log's events up to a position. -/
def FoldsTo (log : List Entry) (n : Nat) (p : Projection) : Prop :=
  Mirrors .empty (log.take n) p

namespace FoldsTo

variable {log es : List Entry} {a b n : Nat} {p : Projection} {e : Entry} {ev : Event}

theorem append (inside : n ≤ log.length) : FoldsTo (log ++ es) n p ↔ FoldsTo log n p := by
  unfold FoldsTo
  rw [List.take_append_of_le_length inside]

theorem whole : FoldsTo log log.length p ↔ Mirrors .empty log p := by simp [FoldsTo]

/-- A stretch without events leaves the fold where it was. -/
theorem quiet (fold : FoldsTo log a p) (order : a ≤ b) (none : QuietBetween log a b) :
    FoldsTo log b p := by
  obtain ⟨es, taken, noEvents⟩ := Between.take_eq order none
  unfold FoldsTo
  rw [taken]
  exact Mirrors.append fold (.quiet noEvents rfl)

theorem event (fold : FoldsTo log n p) (entry : entryAt log (n + 1) = some e)
    (isEvent : e.event? = some ev) (folds : ev.Folds p) :
    FoldsTo log (n + 1) (ev.apply e.timestamp p) := by
  unfold FoldsTo
  rw [take_succ_of_entryAt entry]
  exact Mirrors.append fold ⟨_, .event isEvent folds .nil, rfl⟩

/-- An event of a log that folds as a whole folds where it stands. -/
theorem folds_next (whole : ∃ q, Replays .empty log q) (fold : FoldsTo log n p)
    (entry : entryAt log (n + 1) = some e) (isEvent : e.event? = some ev) : ev.Folds p := by
  obtain ⟨q, whole⟩ := whole
  rw [← List.take_append_drop (n + 1) log, take_succ_of_entryAt entry, List.append_assoc] at whole
  obtain ⟨q', first, rest⟩ := whole.split
  obtain ⟨q'', first', same⟩ := fold
  rw [first.unique first'] at rest
  exact (Event.folds_content same).mp (Replays.event_inv isEvent rest).1

end FoldsTo

/-- A reader's storage and open transaction are folds of the log, each up to its own place. -/
structure Tracks (log : List Entry) (s : Storage) (pos : Nat) (inflight : Option Projection) :
    Prop where
  committed : FoldsTo log s.lastProcessedPosition s.rows
  inflight : ∀ rows, inflight = some rows → FoldsTo log (pos - 1) rows

namespace Tracks

variable {log es : List Entry} {s s' : Storage} {pos : Nat} {open_ open_' : Option Projection}
  {b : Backend} {e : Entry}

theorem append (tracks : Tracks log s pos open_)
    (reading : Reading log s.lastProcessedPosition pos open_) : Tracks (log ++ es) s pos open_ where
  committed := (FoldsTo.append reading.boundary.le).mpr tracks.committed
  inflight rows some := by
    have inside := reading.inside
    exact (FoldsTo.append (by omega)).mpr (tracks.inflight rows some)

/-- The rows the next event is folded into. -/
theorem current (tracks : Tracks log s pos open_)
    (reading : Reading log s.lastProcessedPosition pos open_) :
    FoldsTo log (pos - 1) (open_.getD s.rows) := by
  cases isOpen : open_ with
  | none =>
    have above := reading.above
    exact tracks.committed.quiet (by omega) (reading.quiet isOpen)
  | some rows => exact tracks.inflight rows isOpen

theorem replayEntry (tracks : Tracks log s pos open_)
    (reading : Reading log s.lastProcessedPosition pos open_) (entry : entryAt log pos = some e)
    (spared : ∀ ev, e.event? = some ev → ev.Spared b e.timestamp (open_.getD s.rows))
    (replayed : Spica.replayEntry b pos e s open_ = some (s', open_')) :
    Tracks log s' (pos + 1) open_' := by
  have above := reading.above
  have current := tracks.current reading
  obtain ⟨pos, rfl⟩ : ∃ n, pos = n + 1 := ⟨pos - 1, by omega⟩
  have passed (noEvent : e.event? = none) : ∀ rows, FoldsTo log pos rows →
      FoldsTo log (pos + 1) rows := by
    intro rows fold
    refine fold.quiet (by omega) (Between.succ (.empty le_rfl) fun e' found => ?_)
    rw [entry] at found
    cases found
    exact noEvent
  unfold Spica.replayEntry at replayed
  split at replayed
  case h_1 ev isEvent =>
    obtain ⟨rows, folded, same⟩ := Option.map_eq_some_iff.mp replayed
    cases same
    have isEvent : e.event? = some ev := by simp [Entry.event?, isEvent]
    obtain ⟨folds, effect⟩ := foldInflight_ok (spared ev isEvent) folded
    refine ⟨tracks.committed, fun rows some => ?_⟩
    cases some
    rw [effect]
    exact current.event entry isEvent folds
  case h_2 isNoop =>
    have passed := passed (by simp [Entry.event?, isNoop])
    split at replayed
    · cases replayed
      exact ⟨tracks.committed, by simp⟩
    case h_2 rows =>
      cases replayed
      exact ⟨passed rows (tracks.inflight rows rfl), by simp⟩
  case h_3 isCommand =>
    cases replayed
    exact ⟨tracks.committed, fun rows some =>
      passed (by simp [Entry.event?, isCommand]) rows (tracks.inflight rows some)⟩
  case h_4 isReject =>
    cases replayed
    exact ⟨tracks.committed, fun rows some =>
      passed (by simp [Entry.event?, isReject]) rows (tracks.inflight rows some)⟩

/-- Reading an entry of a log that folds as a whole never fails. -/
theorem replayEntry_isSome (tracks : Tracks log s pos open_)
    (reading : Reading log s.lastProcessedPosition pos open_) (ff : b.FaultFree)
    (entry : entryAt log pos = some e) (whole : ∃ q, Replays .empty log q) :
    ∃ s' open_', Spica.replayEntry b pos e s open_ = some (s', open_') := by
  have above := reading.above
  have current := tracks.current reading
  obtain ⟨pos, rfl⟩ : ∃ n, pos = n + 1 := ⟨pos - 1, by omega⟩
  unfold Spica.replayEntry
  cases payload : e.payload with
  | event ev =>
    have isEvent : e.event? = some ev := by simp [Entry.event?, payload]
    have folds := FoldsTo.folds_next whole current entry isEvent
    obtain ⟨m, ran⟩ := dispatchEvent_computes e.timestamp folds b ff 0
    exact ⟨s, _, by simp only [foldInflight, ran]; rfl⟩
  | noop =>
    cases open_ with
    | none => exact ⟨_, _, rfl⟩
    | some rows => exact ⟨_, _, rfl⟩
  | command | reject => exact ⟨_, _, rfl⟩

end Tracks

/-! ## The whole system -/

/-- The transactions the leader's loop holds are folds of the log. -/
def Proc.Tracks (log : List Entry) (s : Storage) : Proc → Prop
  | .stopped _ | .running _ _ => True
  | .recovering _ pos inflight => Spica.Tracks log s pos inflight
  | .committing _ _ rows last => FoldsTo log last rows

structure World.Faithful (w : World) : Prop where
  placed : w.Placed
  whole : ∃ q, Replays .empty w.log q
  committed : FoldsTo w.log w.storage.lastProcessedPosition w.storage.rows
  proc : w.proc.Tracks w.log w.storage
  follower : Tracks w.log w.follower.storage w.follower.pos w.follower.inflight

theorem Proc.Tracks.extend {log es s} {proc : Proc} (tracks : proc.Tracks log s)
    (placed : proc.Placed log s.lastProcessedPosition) : proc.Tracks (log ++ es) s := by
  cases proc with
  | stopped | running => trivial
  | recovering => exact Spica.Tracks.append tracks placed
  | committing =>
    obtain ⟨first, answer⟩ := placed
    obtain ⟨ts, closed⟩ := answer.closed
    exact (FoldsTo.append (entryAt_eq_some closed).2).mpr tracks

namespace World

variable {env : Env} {w w' : World} {a : Action}

theorem init_faithful : init.Faithful where
  placed := init_placed
  whole := ⟨_, .nil⟩
  committed := Mirrors.quiet (by simp [init]) rfl
  proc := trivial
  follower := ⟨Mirrors.quiet (by simp [init]) rfl, by simp [init, Follower.boot]⟩

/-- The leader's storage is the fold of the whole log while it runs. -/
theorem Faithful.running {next leader} (faithful : w.Faithful)
    (here : w.proc = .running next leader) : FoldsTo w.log w.log.length w.storage.rows := by
  have placed := faithful.placed.proc
  rw [here] at placed
  exact faithful.committed.quiet faithful.placed.boundary.le placed.2.2

/-- The answer the leader appends brings its transaction to the end of the log. -/
theorem Faithful.answered {next leader c d produced machines machines'} (faithful : w.Faithful)
    (here : w.proc = .running next leader) (spared : d.Spared env next c w.storage.rows machines)
    (decided : processCommand env next c w.storage.rows machines d = (some produced, machines')) :
    Mirrors .empty (w.log ++ produced.batch next d.noopAt) produced.rows := by
  have current := FoldsTo.whole.mp (faithful.running here)
  have closing : Mirrors produced.rows [⟨some next, d.noopAt, .noop⟩] produced.rows :=
    .quiet (by simp [Entry.event?]) rfl
  exact current.append ((attemptFrom_faultless spared decided).mirrors.append closing)

theorem Faithful.step (faithful : w.Faithful) (spared : w.Spared env a)
    (moved : World.step env w a = some w') : w'.Faithful := by
  have placed' := faithful.placed.step moved
  have placed := faithful.placed
  have whole := faithful.whole
  have committed := faithful.committed
  have proc := faithful.proc
  have follower := faithful.follower
  cases step_inv moved with
  | clientAppend =>
    obtain ⟨q, whole⟩ := whole
    exact ⟨placed', ⟨q, whole.append (.quiet (by simp [Entry.event?]))⟩,
      (FoldsTo.append placed.boundary.le).mpr committed, proc.extend placed.proc,
      follower.append placed.follower⟩
  | boot => exact ⟨placed', whole, committed, ⟨committed, by simp⟩, follower⟩
  | recovered here tail => exact ⟨placed', whole, committed, trivial, follower⟩
  | recover here entry replayed =>
    have reading := placed.proc
    rw [here] at proc reading
    have tracks := Spica.Tracks.replayEntry proc reading entry
      (spared _ _ _ _ · here entry) replayed
    exact ⟨placed', whole, tracks.committed, tracks, follower⟩
  | dispatch here entry decided =>
    have answered := faithful.answered here (spared _ _ _ _ _ here entry) decided
    obtain ⟨q, replays, -⟩ := id answered
    refine ⟨placed', ⟨q, replays⟩, (FoldsTo.append placed.boundary.le).mpr committed, ?_,
      follower.append placed.follower⟩
    have reached := FoldsTo.whole.mpr answered
    rwa [List.length_append] at reached
  | skip here entry => exact ⟨placed', whole, committed, trivial, follower⟩
  | commit here =>
    rw [here] at proc
    exact ⟨placed', whole, proc, trivial, follower⟩
  | stop => exact ⟨placed', whole, committed, trivial, follower⟩
  | follow entry replayed =>
    exact ⟨placed', whole, committed, proc,
      follower.replayEntry placed.follower entry (spared _ · entry) replayed⟩
  | followerRestart =>
    exact ⟨placed', whole, committed, proc, ⟨follower.committed, by simp [Follower.boot]⟩⟩

theorem Faithful.reach (run : Run.Reach (World.step env) (World.Spared env) init w) :
    w.Faithful :=
  run.keeps (fun _ _ _ faithful spared moved => faithful.step spared moved) init_faithful

/-! ## Prefixes, recovery and replication -/

/-- A step that moves the watermark passes over no uncommitted event before the batch it
    commits: every earlier Noop ends a prefix whose events were all committed before. -/
theorem Placed.watermark_moved (placed : w.Placed) (moved : World.step env w a = some w')
    (raised : w'.storage.lastProcessedPosition ≠ w.storage.lastProcessedPosition) {n e}
    (entry : entryAt w'.log n = some e) (noop : e.isNoop = true)
    (below : n < w'.storage.lastProcessedPosition) :
    w'.log = w.log ∧ QuietBetween w.log w.storage.lastProcessedPosition n := by
  cases step_inv moved with
  | recover here entry' replayed =>
    refine ⟨rfl, ?_⟩
    have reading := placed.proc
    rw [here] at reading
    unfold replayEntry at replayed
    split at replayed
    · obtain ⟨rows, -, same⟩ := Option.map_eq_some_iff.mp replayed
      cases same
      exact absurd rfl raised
    · split at replayed
      · cases replayed
        exact absurd rfl raised
      · cases replayed
        obtain ⟨k, -, -, quiet, opened, -⟩ := Reading.opened reading (by simp)
        refine quiet.narrow le_rfl ?_
        by_contra past
        have := opened n e (by omega) (Nat.le_sub_one_of_lt below) entry
        simp [noop] at this
    all_goals
      cases replayed
      exact absurd rfl raised
  | commit here =>
    refine ⟨rfl, ?_⟩
    have answer := placed.proc
    rw [here] at answer
    obtain ⟨first, answer⟩ := answer
    refine answer.quiet.narrow le_rfl ?_
    by_contra past
    have := (answer.answers n e (by omega) (Nat.le_sub_one_of_lt below) entry).2
    simp [noop] at this
  | _ => exact absurd rfl raised

/-- A run without storage faults. -/
abbrev Runs (env : Env) : World → World → Prop :=
  Run.Reach (World.step env) fun _ a => a.FaultFree

theorem Runs.spared {w₀} (run : Runs env w₀ w) :
    Run.Reach (World.step env) (World.Spared env) w₀ w :=
  run.weaken fun _ _ ff => ff.spared

/-- Every Noop-ended prefix whose events are all committed was, at some point of the run, exactly
    what the leader had committed. -/
theorem committed_prefix (run : Runs env init w) {n e} (entry : entryAt w.log n = some e)
    (noop : e.isNoop = true) (applied : QuietBetween w.log w.storage.lastProcessedPosition n) :
    ∃ w₀, Runs env init w₀ ∧ Runs env w₀ w ∧ w₀.storage.lastProcessedPosition ≤ n ∧
      FoldsTo w.log n w₀.storage.rows := by
  induction run with
  | refl =>
    have := (entryAt_eq_some entry).1
    have := (entryAt_eq_some entry).2
    simp [init] at this
    omega
  | @tail w w' run move ih =>
    obtain ⟨a, ff, moved⟩ := id move
    have run' : Runs env init w' := run.tail move
    have placed := Placed.reach run
    have faithful' := Faithful.reach (Runs.spared run')
    -- the new state itself, unless the prefix ends below its watermark
    by_cases above : w'.storage.lastProcessedPosition ≤ n
    · exact ⟨w', run', .refl, above, faithful'.committed.quiet above applied⟩
    -- otherwise the prefix was already all committed before the step
    obtain ⟨es, grown⟩ := log_grows moved
    have old : n ≤ w.log.length ∧ QuietBetween w.log w.storage.lastProcessedPosition n := by
      by_cases raised : w'.storage.lastProcessedPosition = w.storage.lastProcessedPosition
      · have inside := placed.boundary.le
        exact ⟨by omega, .empty (by omega)⟩
      · obtain ⟨same, quiet⟩ := placed.watermark_moved moved raised entry noop (by omega)
        rw [same] at entry
        exact ⟨(entryAt_eq_some entry).2, quiet⟩
    rw [grown, entryAt_append old.1] at entry
    obtain ⟨w₀, start, rest, below, fold⟩ := ih entry old.2
    refine ⟨w₀, start, rest.tail move, below, ?_⟩
    rw [grown]
    exact (FoldsTo.append old.1).mpr fold

/-- Recovery always finishes, and leaves the fold of the whole log committed. -/
theorem recovery_finishes (faithful : w.Faithful) {definitions pos inflight}
    (here : w.proc = .recovering definitions pos inflight) {b} (ff : b.FaultFree) :
    ∃ w', Run.Reach (World.step env) (fun _ a => a = .recover b) w w' ∧ w'.log = w.log ∧
      (∃ next leader, w'.proc = .running next leader) ∧
      FoldsTo w.log w.log.length w'.storage.rows := by
  have reading := faithful.placed.proc
  rw [here] at reading
  have inside := reading.inside
  -- on the number of entries still to be read
  induction left : w.log.length + 1 - pos generalizing w pos inflight with
  | zero =>
    have tail : entryAt w.log pos = none := (entryAt_eq_none (by omega)).mpr (by omega)
    have moved : World.step env w (.recover b) = some { w with
        proc := .running (w.storage.lastProcessedPosition + 1)
          ⟨w.storage.lastProcessedPosition, definitions⟩ } := by
      simp [step, recover, here, tail]
    exact ⟨_, .single ⟨_, rfl, moved⟩, rfl, ⟨_, _, rfl⟩,
      (faithful.step (Action.FaultFree.spared (a := .recover b) ff) moved).running rfl⟩
  | succ left ih =>
    have above := reading.above
    obtain ⟨e, entry⟩ : ∃ e, entryAt w.log pos = some e := by
      refine Option.ne_none_iff_exists'.mp fun none => ?_
      have := (entryAt_eq_none (by omega)).mp none
      omega
    have tracks := faithful.proc
    rw [here] at tracks
    obtain ⟨s, inflight', replayed⟩ :=
      Spica.Tracks.replayEntry_isSome tracks reading ff entry faithful.whole
    have moved : World.step env w (.recover b) = some { w with
        storage := s
        proc := .recovering definitions (pos + 1) inflight' } := by
      simp [step, recover, here, entry, replayed]
    have faithful' := faithful.step (Action.FaultFree.spared (a := .recover b) ff) moved
    have reading' : Reading w.log s.lastProcessedPosition (pos + 1) inflight' :=
      faithful'.placed.proc
    obtain ⟨w', run, log, running, fold⟩ :=
      ih faithful' rfl reading' reading'.inside (by dsimp only; omega)
    exact ⟨w', .head ⟨_, rfl, moved⟩ run, log, running, fold⟩

/-- A follower can always read on to the end of the log, where it holds the same fold. -/
theorem follower_catches_up (faithful : w.Faithful) {b} (ff : b.FaultFree) :
    ∃ w', Run.Reach (World.step env) (fun _ a => a = .follow b) w w' ∧ w'.log = w.log ∧
      FoldsTo w.log w.log.length w'.follower.storage.rows := by
  have inside := faithful.placed.follower.inside
  induction left : w.log.length + 1 - w.follower.pos generalizing w with
  | zero =>
    have tail : entryAt w.log w.follower.pos = none :=
      (entryAt_eq_none (by omega)).mpr (by omega)
    exact ⟨w, .refl, rfl, faithful.follower.committed.quiet faithful.placed.follower.boundary.le
      (faithful.placed.follower.finished faithful.placed.ended tail)⟩
  | succ left ih =>
    have above := faithful.placed.follower.above
    obtain ⟨e, entry⟩ : ∃ e, entryAt w.log w.follower.pos = some e := by
      refine Option.ne_none_iff_exists'.mp fun none => ?_
      have := (entryAt_eq_none (by omega)).mp none
      omega
    obtain ⟨s, inflight', replayed⟩ :=
      faithful.follower.replayEntry_isSome faithful.placed.follower ff entry faithful.whole
    have moved : World.step env w (.follow b) =
        some { w with follower := ⟨s, w.follower.pos + 1, inflight'⟩ } := by
      simp [step, follow, entry, replayed]
    have faithful' := faithful.step (Action.FaultFree.spared (a := .follow b) ff) moved
    obtain ⟨w', run, log, fold⟩ :=
      ih faithful' faithful'.placed.follower.inside (by dsimp only; omega)
    exact ⟨w', .head ⟨_, rfl, moved⟩ run, log, fold⟩

/-- At every point of a run, each projection held anywhere is a fold of the log. -/
structure ProjectionOfLog (env : Env) (w : World) : Prop where
  /-- a Noop-ended prefix whose events are all committed is what the leader had committed at some
      point of a run that leads here -/
  prefixes : ∀ n e, entryAt w.log n = some e → e.isNoop = true →
    QuietBetween w.log w.storage.lastProcessedPosition n →
    ∃ w₀, Runs env init w₀ ∧ Runs env w₀ w ∧ w₀.storage.lastProcessedPosition ≤ n ∧
      FoldsTo w.log n w₀.storage.rows
  /-- while the leader runs, that is every Noop-ended prefix -/
  running : ∀ next leader, w.proc = .running next leader →
    QuietBetween w.log w.storage.lastProcessedPosition w.log.length ∧
      FoldsTo w.log w.log.length w.storage.rows
  /-- whole batches are committed, never a part of one -/
  committed : Boundary w.log w.storage.lastProcessedPosition ∧
    FoldsTo w.log w.storage.lastProcessedPosition w.storage.rows
  /-- the working overlay of an appended batch, about to be committed -/
  overlay : ∀ next leader rows last, w.proc = .committing next leader rows last →
    Boundary w.log last ∧ FoldsTo w.log last rows
  /-- recovery reaches the fold of the whole log -/
  recovery : ∀ definitions pos inflight b, w.proc = .recovering definitions pos inflight →
    b.FaultFree → ∃ w', Run.Reach (World.step env) (fun _ a => a = .recover b) w w' ∧
      w'.log = w.log ∧ (∃ next leader, w'.proc = .running next leader) ∧
      FoldsTo w.log w.log.length w'.storage.rows
  /-- so does a follower, which commits whole batches too -/
  follower : Boundary w.log w.follower.storage.lastProcessedPosition ∧
    FoldsTo w.log w.follower.storage.lastProcessedPosition w.follower.storage.rows ∧
    ∀ b : Backend, b.FaultFree →
      ∃ w', Run.Reach (World.step env) (fun _ a => a = .follow b) w w' ∧ w'.log = w.log ∧
        FoldsTo w.log w.log.length w'.follower.storage.rows

/-- The projection is a function of the log. -/
theorem projection_of_log (run : Runs env init w) : ProjectionOfLog env w := by
  have faithful := Faithful.reach run.spared
  exact {
    prefixes := fun _ _ entry noop applied => committed_prefix run entry noop applied
    running := fun next leader here => by
      have placed := faithful.placed.proc
      rw [here] at placed
      exact ⟨placed.2.2, faithful.running here⟩
    committed := ⟨faithful.placed.boundary, faithful.committed⟩
    overlay := fun next leader rows last here => by
      have placed := faithful.placed.proc
      have tracks := faithful.proc
      rw [here] at placed tracks
      obtain ⟨first, answer⟩ := placed
      obtain ⟨ts, closed⟩ := answer.closed
      exact ⟨.inr ⟨_, closed, rfl⟩, tracks⟩
    recovery := fun _ _ _ _ here ff => recovery_finishes faithful here ff
    follower := ⟨faithful.placed.follower.boundary, faithful.follower.committed,
      fun _ ff => follower_catches_up faithful ff⟩ }

open Scenario in
/-- An execution run to its end, on a log of 26 entries. -/
theorem projection_of_log_pass :
    (after true (single pass) oneExecution).log.length = 26 ∧
      ProjectionOfLog (host true (single pass)) (after true (single pass) oneExecution) :=
  ⟨by decide +kernel, projection_of_log (reach_after fun _ => oneExecution_calm)⟩

end World

end Spica
