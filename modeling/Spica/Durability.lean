import Spica.Emission
import Spica.Mirrored
import Spica.Names
import Spica.Tailing

/-! # The engine over the durable store and log runs as over memory

Memory never fails, so the runs compared are those without storage faults. While no row written and
no entry appended holds a null in an optional field, the engine takes the same steps over the
durable store and log as over memory, and both answer every read alike.
-/

namespace Spica

open Serde Log

variable {machines machines' : MachineCache} {a : Attempt} {produced : Produced} {as : List Attempt}

/-! ## What may be written -/

section whole

variable [Wire.Texts]

section attempts

variable (env : Env) (cause : Nat) (command : Command) (rows : Projection)

/-- The attempt makes whole writes only. -/
def Attempt.Whole (machines : MachineCache) (a : Attempt) : Prop :=
  a.beginFault = none →
    (dispatchCommand command).Along Handler.interpret (Op.Whole a.toBackend a.clock)
      (a.ctx env cause) (.start rows machines)

instance (machines : MachineCache) (a : Attempt) :
    Decidable (a.Whole env cause command rows machines) := inferInstanceAs (Decidable (_ → _))

/-- So do the attempts that are made. -/
def WholeFrom : List Attempt → MachineCache → Prop
  | [], _ => True
  | a :: later, machines =>
    a.Whole env cause command rows machines ∧
    ∀ e machines', dispatchOnce env cause command rows machines a =
      (.error (.unexpected e), machines') → WholeFrom later machines'

def Decision.Whole (machines : MachineCache) (d : Decision) : Prop :=
  WholeFrom env cause command rows (List.ofFn d.attempts) machines

end attempts

/-- The fold of the event makes whole writes only. -/
def Event.Whole (b : Backend) (ts : Timestamp) (rows : Projection) (e : Event) : Prop :=
  (dispatchEvent ts e).Along Txn.interpret (fun o _ => o.Whole) b ⟨rows, 0⟩

instance (b : Backend) (ts : Timestamp) (rows : Projection) (e : Event) :
    Decidable (e.Whole b ts rows) := inferInstanceAs (Decidable (Prog.Along ..))

/-- The entry the stream keeps at a position. -/
def Entry.stamped (n : Nat) (e : Entry) : Streams.Entry EntryPayload :=
  { Stored.unstamped e with streamId := Stored.streamId, entryId := n }

/-- The entry's values are those of the source's types, and no optional field holds a null. -/
def Entry.WholeAt (n : Nat) (e : Entry) : Prop :=
  Wire.entry.Valid (e.stamped n) ∧ e.payload.NullFree

instance (n : Nat) (e : Entry) : Decidable (e.WholeAt n) := inferInstanceAs (Decidable (_ ∧ _))

/-- So are the entries of a batch behind the log. -/
def WholeBatch (log batch : List Entry) : Prop :=
  ∀ (i : Nat) (e : Entry), batch[i]? = some e → e.WholeAt (log.length + (i + 1))

instance (log batch : List Entry) : Decidable (WholeBatch log batch) :=
  decidable_of_iff (∀ x ∈ batch.zipIdx, x.1.WholeAt (log.length + (x.2 + 1))) (by
    simp [WholeBatch, List.mem_zipIdx_iff_getElem?]
    exact forall_comm)

/-- No storage call of the step fails, and no row it writes and no entry it appends holds a null in
    an optional field. -/
def World.Whole (env : Env) (w : World) : Action → Prop
  | .clientAppend c at_ noopAt =>
    WholeBatch w.log [⟨none, at_, .command c⟩, ⟨none, noopAt, .noop⟩]
  | .dispatch d => d.FaultFree ∧ ∀ next leader cause ts c, w.proc = .running next leader →
      entryAt w.log next = some ⟨cause, ts, .command c⟩ →
      d.Whole env next c w.storage.rows leader.definitions ∧
      ∀ produced definitions,
        processCommand env next c w.storage.rows leader.definitions d = (some produced, definitions) →
        WholeBatch w.log (produced.batch next d.noopAt)
  | .recover b => b.FaultFree ∧ ∀ definitions pos inflight e ev,
      w.proc = .recovering definitions pos inflight → entryAt w.log pos = some e →
      e.event? = some ev → ev.Whole b e.timestamp (inflight.getD w.storage.rows)
  | .follow b => b.FaultFree ∧ ∀ e ev, entryAt w.log w.follower.pos = some e →
      e.event? = some ev →
      ev.Whole b e.timestamp (w.follower.inflight.getD w.follower.storage.rows)
  | _ => True

end whole

/-! ## The counter -/

theorem mintGeneratedSeq_counter {b} (ff : b.FaultFree) (s : TxnState) :
    s.rows.nextGeneratedSeq ≤ (mintGeneratedSeq.run Txn.interpret b s).2.rows.nextGeneratedSeq := by
  rw [mintGeneratedSeq_run, ff, ff]
  exact Nat.le_succ _

/-- Without faults an operation does not lower the counter. -/
theorem Handler.interpret_counter {c} (ff : c.toBackend.FaultFree) (o : Op) {w w' a}
    (ran : interpret o c w = (.ok a, w')) :
    w.txn.rows.nextGeneratedSeq ≤ w'.txn.rows.nextGeneratedSeq := by
  cases o with
  | ask q onFault =>
    have moved : w' = { w with txn := ((Txn.ask q).run Txn.interpret c.toBackend w.txn).2 } :=
      (congrArg Prod.snd ran).symm
    rw [Txn.run_ask] at moved
    rw [moved]
  | peek q =>
    have moved : w' = { w with txn := ((Txn.peek q).run Txn.interpret c.toBackend w.txn).2 } :=
      (congrArg Prod.snd ran).symm
    rw [Txn.run_peek] at moved
    rw [moved]
  | nextGeneratedSeq =>
    have moved : w' = { w with txn := (mintGeneratedSeq.run Txn.interpret c.toBackend w.txn).2 } :=
      (congrArg Prod.snd ran).symm
    rw [moved]
    exact mintGeneratedSeq_counter ff w.txn
  | appendEvent e =>
    obtain ⟨r, txn, folded, noPanic, rfl⟩ := appendEvent_ok ran
    obtain ⟨-, rows⟩ := dispatchEvent_ok ff folded noPanic
    show _ ≤ txn.rows.nextGeneratedSeq
    rw [rows, e.apply_counter]
    exact e.le_raised _
  | _ =>
    cases ran
    exact Nat.le_refl _

theorem dispatchOnce_counter {env cause command rows} (ff : a.toBackend.FaultFree)
    (done : dispatchOnce env cause command rows machines a = (.ok produced, machines')) :
    rows.nextGeneratedSeq ≤ produced.rows.nextGeneratedSeq := by
  unfold dispatchOnce at done
  split at done
  · cases done
  split at done
  · cases done
  next w ran =>
    split at done
    · cases done
    cases done
    exact (dispatchCommand command).run_moves
      (R := fun w w' => w.txn.rows.nextGeneratedSeq ≤ w'.txn.rows.nextGeneratedSeq)
      (fun _ => Nat.le_refl _) (fun _ _ _ => Nat.le_trans)
      (fun o _ _ _ ran => Handler.interpret_counter ff o ran) ran

theorem rejectCommand_rows {cause command rows d type reason}
    (done : rejectCommand cause command rows d type reason = some produced) :
    produced.rows = rows := by
  unfold rejectCommand at done
  split at done
  · cases done
  · cases done
    rfl

theorem attemptFrom_counter {env cause command rows d} (ff : ∀ a ∈ as, a.toBackend.FaultFree)
    (done : attemptFrom env cause command rows d as machines = (some produced, machines')) :
    rows.nextGeneratedSeq ≤ produced.rows.nextGeneratedSeq := by
  induction as generalizing machines with
  | nil => cases done
  | cons a later ih =>
    rw [attemptFrom] at done
    split at done
    next once =>
      cases done
      exact dispatchOnce_counter (ff a List.mem_cons_self) once
    next => cases done
    next =>
      rw [rejectCommand_rows (congrArg Prod.fst done)]
    next =>
      split at done
      · rw [rejectCommand_rows (congrArg Prod.fst done)]
      · exact ih (fun a there => ff a (List.mem_cons_of_mem _ there)) done

namespace Stored

variable [Wire.Texts] {env : Env}

/-! ## The leader -/

/-- The same entries, and rows that are read back alike. -/
structure Produced.Mirrors (x' : Produced) (x : Spica.Produced) : Prop where
  entries : x'.entries = x.entries
  rows : Holds x.rows x'.rows

section leader

variable {cause : Nat} {command : Command} {rows : Projection} {rows' : Rows} {d : Decision}

/-- An attempt fails alike over both stores, or succeeds alike. -/
theorem dispatchOnce_mirrors (holds : Holds rows rows')
    (whole : a.Whole env cause command rows machines) :
    (∃ e m, Spica.dispatchOnce env cause command rows machines a = (.error e, m) ∧
      dispatchOnce env cause command rows' machines a = (.error e, m)) ∨
    ∃ x x' m, Spica.dispatchOnce env cause command rows machines a = (.ok x, m) ∧
      dispatchOnce env cause command rows' machines a = (.ok x', m) ∧ x'.Mirrors x := by
  unfold Spica.dispatchOnce dispatchOnce
  cases begun : a.beginFault with
  | some e => exact .inl ⟨_, _, rfl, rfl⟩
  | none =>
    have start : (Work.start rows' machines).Mirrors (.start rows machines) :=
      ⟨⟨holds, rfl⟩, rfl, rfl, rfl, rfl, rfl⟩
    obtain ⟨same, after⟩ := (dispatchCommand command).run_simulates
      (R := fun w w' => Work.Mirrors w' w) (r := a.ctx env cause)
      (fun o _ _ mirrors whole => Handler.interpret_mirrors o mirrors whole)
      (whole begun) start
    dsimp only
    rcases first : (dispatchCommand command).run Spica.Handler.interpret (a.ctx env cause)
      (.start rows machines) with ⟨e | u, w⟩
    · rcases second : (dispatchCommand command).run Handler.interpret (a.ctx env cause)
        (.start rows' machines) with ⟨e' | u', w'⟩
      · rw [first, second] at same after
        cases same
        exact .inl ⟨_, _, rfl, congrArg _ after.machines⟩
      · rw [first, second] at same
        cases same
    · rcases second : (dispatchCommand command).run Handler.interpret (a.ctx env cause)
        (.start rows' machines) with ⟨e' | u', w'⟩
      · rw [first, second] at same
        cases same
      · rw [first, second] at same after
        dsimp only
        rw [after.out, after.machines]
        split
        · exact .inl ⟨_, _, rfl, rfl⟩
        · exact .inr ⟨_, _, _, rfl, rfl, rfl, after.txn.rows⟩

theorem rejectCommand_mirrors (holds : Holds rows rows') (type : RejectionType) (reason : String) :
    Option.Rel Produced.Mirrors (rejectCommand cause command rows' d type reason)
      (Spica.rejectCommand cause command rows d type reason) := by
  unfold rejectCommand Spica.rejectCommand
  cases d.rejectFault with
  | some e => exact .none
  | none => exact .some ⟨rfl, holds⟩

theorem attemptFrom_mirrors (holds : Holds rows rows')
    (whole : WholeFrom env cause command rows as machines) :
    Option.Rel Produced.Mirrors (attemptFrom env cause command rows' d as machines).1
        (Spica.attemptFrom env cause command rows d as machines).1 ∧
      (attemptFrom env cause command rows' d as machines).2 =
        (Spica.attemptFrom env cause command rows d as machines).2 := by
  induction as generalizing machines with
  | nil => exact ⟨.none, rfl⟩
  | cons a later ih =>
    rw [attemptFrom, Spica.attemptFrom]
    rcases dispatchOnce_mirrors holds whole.1 with
      ⟨e, m, first, second⟩ | ⟨x, x', m, first, second, mirrors⟩
    · rw [first, second]
      cases e with
      | rejected type reason => exact ⟨rejectCommand_mirrors holds type reason, rfl⟩
      | panicked msg => exact ⟨.none, rfl⟩
      | unexpected e =>
        dsimp only
        split
        · exact ⟨rejectCommand_mirrors holds _ _, rfl⟩
        · exact ih (whole.2 e m first)
    · rw [first, second]
      exact ⟨.some mirrors, rfl⟩

end leader

/-! ## The log -/

/-- Each entry is kept as its JSON, stamped with its position, and is read back as itself. -/
structure LogMirrors (j : List Json) (log : List Entry) : Prop where
  written : j = (Streams.stamp streamId 1 (log.map unstamped)).map Wire.entry.write
  back : ∀ (i : Nat) (e : Entry), log[i]? = some e → e.WholeAt (i + 1)

variable {j : List Json} {log es : List Entry}

theorem LogMirrors.length (mirrors : LogMirrors j log) : j.length = log.length := by
  rw [mirrors.written, List.length_map, Streams.length_stamp, List.length_map]

omit [Wire.Texts] in
theorem toLog_stamped (n : Nat) (e : Entry) : (e.stamped n).toLog = e := by
  obtain ⟨cause, ts, payload⟩ := e
  cases cause <;> rfl

/-- A position is read as in memory. -/
theorem LogMirrors.readEntry (mirrors : LogMirrors j log) (n : Nat) :
    readEntry j n = entryAt log n := by
  cases n with
  | zero => rfl
  | succ n =>
    have kept : (Streams.stamp streamId 1 (log.map unstamped))[n]? =
        log[n]?.map fun e => e.stamped (n + 1) := by
      have at_ : (1 : Int) + n = ((n + 1 : Nat) : Int) := by omega
      rw [Streams.stamp_getElem?, List.getElem?_map, Option.map_map, at_]
      rfl
    unfold Stored.readEntry
    rw [entryAt_succ, entryAt_succ, mirrors.written, List.getElem?_map, kept]
    cases found : log[n]? with
    | none => rfl
    | some e =>
      obtain ⟨valid, free⟩ := mirrors.back n e found
      have read : Wire.entry.read (Wire.entry.write (e.stamped (n + 1))) =
          .ok (e.stamped (n + 1)) :=
        (Wire.read_write_iff _ valid).mpr ((Wire.entry_back_iff _).mpr free)
      rw [Option.map_some, Option.map_some, Option.bind_some, read]
      exact congrArg some (toLog_stamped (n + 1) e)

theorem LogMirrors.append (mirrors : LogMirrors j log) (whole : WholeBatch log es) :
    LogMirrors (append j es) (log ++ es) where
  written := by
    rw [Stored.append, mirrors.length, List.map_append, Streams.stamp_append, List.map_append,
      ← mirrors.written, List.length_map, Int.add_comm]
  back i e found := by
    by_cases inside : i < log.length
    · rw [List.getElem?_append_left inside] at found
      exact mirrors.back i e found
    · rw [List.getElem?_append_right (by omega)] at found
      have there := whole _ e found
      rwa [show log.length + (i - log.length + 1) = i + 1 by omega] at there

/-! ## Replay -/

structure Storage.Mirrors (s' : Storage) (s : Spica.Storage) : Prop where
  rows : Holds s.rows s'.rows
  position : s'.lastProcessedPosition = s.lastProcessedPosition

/-- Open transactions that are read alike, the counter not behind the committed one. -/
def Inflight (s : Spica.Storage) : Option Rows → Option Projection → Prop :=
  Option.Rel fun rows' rows =>
    Holds rows rows' ∧ s.rows.nextGeneratedSeq ≤ rows.nextGeneratedSeq

theorem Storage.mirrors_commit {s : Spica.Storage} {rows rows'} (holds : Holds rows rows')
    (counter : s.rows.nextGeneratedSeq ≤ rows.nextGeneratedSeq) (pos : Nat) :
    (Storage.commit rows' pos).Mirrors (s.commit rows pos) where
  rows := by
    show Holds { rows with
      nextGeneratedSeq := max s.rows.nextGeneratedSeq rows.nextGeneratedSeq } rows'
    rw [max_eq_right counter]
    exact holds
  position := rfl

section replay

variable {b : Backend} {s : Spica.Storage} {s' : Storage} {open_ : Option Projection}
  {open_' : Option Rows}

theorem Inflight.rows (mirrors : s'.Mirrors s) (inflight : Inflight s open_' open_) :
    Holds (open_.getD s.rows) (open_'.getD s'.rows) ∧
      s.rows.nextGeneratedSeq ≤ (open_.getD s.rows).nextGeneratedSeq := by
  cases inflight with
  | none => exact ⟨mirrors.rows, Nat.le_refl _⟩
  | some both => exact both

theorem foldInflight_mirrors (ff : b.FaultFree) {ts e} (whole : e.Whole b ts (open_.getD s.rows))
    (mirrors : s'.Mirrors s) (inflight : Inflight s open_' open_) :
    Inflight s (foldInflight b s' open_' ts e) (Spica.foldInflight b s open_ ts e) := by
  obtain ⟨holds, counter⟩ := inflight.rows mirrors
  unfold foldInflight Spica.foldInflight
  dsimp only
  have start : TxnState.Mirrors ⟨open_'.getD s'.rows, 0⟩ ⟨open_.getD s.rows, 0⟩ := ⟨holds, rfl⟩
  obtain ⟨same, after⟩ := Txn.run_mirrors (dispatchEvent ts e) whole start
  rcases first : (dispatchEvent ts e).run Spica.Txn.interpret b ⟨open_.getD s.rows, 0⟩
    with ⟨r, t⟩
  rcases second : (dispatchEvent ts e).run Txn.interpret b ⟨open_'.getD s'.rows, 0⟩
    with ⟨r', t'⟩
  rw [first, second] at same after
  cases same
  cases r with
  | error e => exact .none
  | ok u =>
    obtain ⟨-, rows⟩ := dispatchEvent_ok ff first (by rintro msg ⟨⟩)
    refine .some ⟨after.rows, ?_⟩
    rw [rows, e.apply_counter]
    exact Nat.le_trans counter (e.le_raised _)

/-- An entry is replayed alike. -/
theorem replayEntry_mirrors (ff : b.FaultFree) {e : Entry}
    (whole : ∀ ev, e.event? = some ev → ev.Whole b e.timestamp (open_.getD s.rows))
    (mirrors : s'.Mirrors s) (inflight : Inflight s open_' open_) (pos : Nat) :
    Option.Rel (fun x' x => Storage.Mirrors x'.1 x.1 ∧ Inflight x.1 x'.2 x.2)
      (replayEntry b pos e s' open_') (Spica.replayEntry b pos e s open_) := by
  obtain ⟨cause, ts, payload⟩ := e
  cases payload with
  | command c => exact .some ⟨mirrors, inflight⟩
  | reject r => exact .some ⟨mirrors, inflight⟩
  | event ev =>
    have folded := foldInflight_mirrors ff (whole ev rfl) mirrors inflight
    show Option.Rel _ ((foldInflight b s' open_' ts ev).map fun rows => (s', some rows))
      ((Spica.foldInflight b s open_ ts ev).map fun rows => (s, some rows))
    cases first : foldInflight b s' open_' ts ev <;>
      cases second : Spica.foldInflight b s open_ ts ev <;> rw [first, second] at folded <;>
      cases folded
    · exact .none
    · next both => exact .some ⟨mirrors, .some both⟩
  | noop =>
    cases inflight with
    | none => exact .some ⟨mirrors, .none⟩
    | some both => exact .some ⟨Storage.mirrors_commit both.1 both.2 pos, .none⟩

end replay

/-! ## The whole system -/

inductive Proc.Mirrors (s : Spica.Storage) : Proc → Spica.Proc → Prop
  | stopped (definitions : MachineCache) : Mirrors s (.stopped definitions) (.stopped definitions)
  | recovering (definitions : MachineCache) (pos : Nat) {open_' open_}
      (inflight : Inflight s open_' open_) :
      Mirrors s (.recovering definitions pos open_') (.recovering definitions pos open_)
  | running (next : Nat) (leader : Leader) : Mirrors s (.running next leader) (.running next leader)
  | committing (next : Nat) (leader : Leader) {rows' rows} (last : Nat) (holds : Holds rows rows')
      (counter : s.rows.nextGeneratedSeq ≤ rows.nextGeneratedSeq) :
      Mirrors s (.committing next leader rows' last) (.committing next leader rows last)

structure Follower.Mirrors (f' : Follower) (f : Spica.Follower) : Prop where
  storage : f'.storage.Mirrors f.storage
  pos : f'.pos = f.pos
  inflight : Inflight f.storage f'.inflight f.inflight

/-- The engine is at the same place, and every row and entry is read back as it is in memory. -/
structure World.Mirrors (w' : World) (w : Spica.World) : Prop where
  log : LogMirrors w'.log w.log
  storage : w'.storage.Mirrors w.storage
  proc : w'.proc.Mirrors w.storage w.proc
  follower : w'.follower.Mirrors w.follower

theorem Follower.mirrors_boot {s' s} (mirrors : s'.Mirrors s) :
    (Follower.boot s').Mirrors (.boot s) where
  storage := mirrors
  pos := congrArg (· + 1) mirrors.position
  inflight := .none

theorem World.init_mirrors : World.init.Mirrors .init where
  log := ⟨rfl, fun _ _ found => by cases found⟩
  storage := ⟨.empty, rfl⟩
  proc := .stopped ∅
  follower := Follower.mirrors_boot ⟨.empty, rfl⟩

namespace World

variable {w' : World} {w : Spica.World}

theorem recover_mirrors {b} (mirrors : w'.Mirrors w) (whole : w.Whole env (.recover b)) :
    Option.Rel Mirrors (w'.recover b) (w.recover b) := by
  obtain ⟨ff, whole⟩ := whole
  unfold recover Spica.World.recover
  cases here' : w'.proc <;> cases here : w.proc <;> have proc := mirrors.proc <;>
    rw [here', here] at proc <;> cases proc
  case stopped.stopped | running.running | committing.committing => exact .none
  case recovering.recovering definitions pos open_' open_ inflight =>
    dsimp only
    rw [mirrors.log.readEntry]
    cases found : entryAt w.log pos with
    | none =>
      refine .some { mirrors with proc := ?_ }
      dsimp only
      rw [mirrors.storage.position]
      exact .running _ _
    | some e =>
      have replayed := replayEntry_mirrors ff (whole _ _ _ e · here found) mirrors.storage
        inflight pos
      dsimp only
      cases first : replayEntry b pos e w'.storage open_' <;>
        cases second : Spica.replayEntry b pos e w.storage open_ <;>
        rw [first, second] at replayed <;> cases replayed
      · exact .none
      · next both => exact .some { mirrors with storage := both.1, proc := .recovering _ _ both.2 }

theorem follow_mirrors {b} (mirrors : w'.Mirrors w) (whole : w.Whole env (.follow b)) :
    Option.Rel Mirrors (w'.follow b) (w.follow b) := by
  obtain ⟨ff, whole⟩ := whole
  unfold follow Spica.World.follow
  rw [mirrors.log.readEntry, mirrors.follower.pos]
  cases found : entryAt w.log w.follower.pos with
  | none => exact .none
  | some e =>
    have replayed := replayEntry_mirrors ff (whole e · found) mirrors.follower.storage
      mirrors.follower.inflight w.follower.pos
    dsimp only
    cases first : replayEntry b w.follower.pos e w'.follower.storage w'.follower.inflight <;>
      cases second : Spica.replayEntry b w.follower.pos e w.follower.storage
        w.follower.inflight <;>
      rw [first, second] at replayed <;> cases replayed
    · exact .none
    · next both => exact .some { mirrors with follower := ⟨both.1, rfl, both.2⟩ }

theorem dispatch_mirrors {d} (mirrors : w'.Mirrors w) (whole : w.Whole env (.dispatch d)) :
    Option.Rel Mirrors (w'.dispatch env d) (w.dispatch env d) := by
  obtain ⟨ff, whole⟩ := whole
  unfold dispatch Spica.World.dispatch
  cases here' : w'.proc <;> cases here : w.proc <;> have proc := mirrors.proc <;>
    rw [here', here] at proc <;> cases proc
  case stopped.stopped | recovering.recovering | committing.committing => exact .none
  case running.running next leader =>
    dsimp only
    rw [mirrors.log.readEntry]
    rcases found : entryAt w.log next with _ | ⟨cause, ts, c | e | r | _⟩
    case none | some.event | some.reject | some.noop => exact .none
    case some.command =>
      obtain ⟨writes, appends⟩ := whole next leader cause ts c here found
      obtain ⟨same, machines⟩ := attemptFrom_mirrors (d := d) mirrors.storage.rows writes
      have decided : Spica.processCommand env next c w.storage.rows leader.definitions d =
        Spica.attemptFrom env next c w.storage.rows d (List.ofFn d.attempts) leader.definitions := rfl
      dsimp only
      rcases first : processCommand env next c w'.storage.rows leader.definitions d
        with ⟨x', m'⟩
      rcases second : Spica.processCommand env next c w.storage.rows leader.definitions d with ⟨x, m⟩
      rw [← decided, second] at same machines
      rw [show attemptFrom env next c w'.storage.rows d (List.ofFn d.attempts)
        leader.definitions = (x', m') from first] at same machines
      obtain rfl : m' = m := machines
      cases same with
      | none => exact .none
      | @some x' x produced =>
        have batch : x'.batch next d.noopAt = x.batch next d.noopAt := by
          rw [Produced.batch, produced.entries]
          rfl
        have counter : w.storage.rows.nextGeneratedSeq ≤ x.rows.nextGeneratedSeq :=
          attemptFrom_counter (fun a there => by
            obtain ⟨i, rfl⟩ := List.mem_ofFn.mp there
            exact (ff.1 i).1) second
        dsimp only
        rw [batch, mirrors.log.length]
        exact .some { mirrors with
          log := mirrors.log.append (appends x _ second)
          proc := .committing _ _ _ produced.rows counter }

/-- A step does the same over the durable store and log as over memory. -/
theorem step_mirrors {a : Action} (mirrors : w'.Mirrors w)
    (whole : w.Whole env a) :
    Option.Rel Mirrors (w'.step env a) (w.step env a) := by
  cases a with
  | clientAppend c at_ noopAt =>
    simp only [step, Spica.World.step, clientAppend, Spica.World.clientAppend]
    split
    · exact .some { mirrors with log := mirrors.log.append whole }
    · exact .none
  | boot keep =>
    simp only [step, Spica.World.step, boot, Spica.World.boot]
    cases here' : w'.proc <;> cases here : w.proc <;> have proc := mirrors.proc <;>
      rw [here', here] at proc <;> cases proc
    case stopped.stopped definitions =>
      dsimp only
      rw [mirrors.storage.position]
      exact .some { mirrors with proc := .recovering _ _ .none }
    all_goals exact .none
  | recover b => exact recover_mirrors mirrors whole
  | dispatch d => exact dispatch_mirrors mirrors whole
  | skip =>
    simp only [step, Spica.World.step, skip, Spica.World.skip]
    cases here' : w'.proc <;> cases here : w.proc <;> have proc := mirrors.proc <;>
      rw [here', here] at proc <;> cases proc
    case running.running next leader =>
      dsimp only
      rw [mirrors.log.readEntry]
      rcases entryAt w.log next with _ | ⟨cause, ts, c | e | r | _⟩
      case none | some.command => exact .none
      case some.reject | some.noop => exact .some { mirrors with proc := .running _ _ }
      case some.event =>
        dsimp only
        split
        · exact .none
        · exact .some { mirrors with proc := .running _ _ }
    all_goals exact .none
  | commit =>
    simp only [step, Spica.World.step, commit, Spica.World.commit]
    cases here' : w'.proc <;> cases here : w.proc <;> have proc := mirrors.proc <;>
      rw [here', here] at proc <;> cases proc
    case committing.committing next leader rows' last rows counter holds =>
      exact .some { mirrors with
        storage := Storage.mirrors_commit holds counter last, proc := .running _ _ }
    all_goals exact .none
  | stop =>
    simp only [step, Spica.World.step, stop, Spica.World.stop]
    cases here' : w'.proc <;> cases here : w.proc <;> have proc := mirrors.proc <;>
      rw [here', here] at proc <;> cases proc
    case stopped.stopped => exact .none
    all_goals exact .some { mirrors with proc := .stopped _ }
  | follow b => exact follow_mirrors mirrors whole
  | followerRestart =>
    exact .some { mirrors with follower := Follower.mirrors_boot mirrors.follower.storage }

end World

end Stored

end Spica
