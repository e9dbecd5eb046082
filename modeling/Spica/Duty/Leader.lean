import Spica.Duty.Deeds
import Spica.Anonymous
import Spica.Faults

/-! # Every answer of the leader is lawful

The duties of the handlers, carried through the leader's attempts: whatever it commits for a
command is a lawful course from the rows it started from, as long as no storage failure is
swallowed.
-/

namespace Spica

variable {env : Env} {cause : Nat} {command : Command} {rows : Projection}
  {machines machines' : MachineCache} {produced : Produced} {d : Decision} {a : Attempt}
  {punctual : Prop}
variable {c : Ctx} {w w' : Work}

/-- An operation that fails leaves the machines it found. -/
theorem Handler.interpret_error_machines {e} (o : Op) (ran : interpret o c w = (.error e, w')) :
    w'.machines = w.machines := by
  have onTxn_machines {α : Type} (onFault : StorageError → Abort) (m : Txn α) :
      (onTxn onFault m c w).2.machines = w.machines := rfl
  cases o with
  | ask q onFault => exact (congrArg (·.2.machines) ran).symm.trans (onTxn_machines onFault _)
  | peek q => exact (congrArg (·.2.machines) ran).symm.trans (onTxn_machines storageFault _)
  | nextGeneratedSeq => exact (congrArg (·.2.machines) ran).symm.trans (onTxn_machines storageFault _)
  | appendEvent ev =>
    have ran : appendEvent ev c w = (.error e, w') := ran
    rw [appendEvent_run] at ran
    split at ran
    · cases ran
      rfl
    all_goals cases ran
  | appendCommand | reject | mint | now | env | evalJsonata | cached | cache => cases ran

theorem Handler.interpret_keeps_machines (o : Op) {r} (plain : o.caches = false)
    (ran : interpret o c w = (.ok r, w')) : w'.machines = w.machines := by
  cases o with
  | ask | peek | nextGeneratedSeq => exact (congrArg (·.2.machines) ran).symm
  | appendEvent ev =>
    obtain ⟨r, txn, -, -, rfl⟩ := appendEvent_ok ran
    rfl
  | cache => cases plain
  | appendCommand | reject | mint | now | env | evalJsonata | cached =>
    cases ran
    rfl

/-- The operation is no event of a new flow. -/
def Op.definesFlow : Op → Bool
  | .appendEvent e => e.definesFlow
  | _ => false

theorem Op.AnswersOnly.definesFlow {o : Op} (own : o.AnswersOnly command)
    (other : command.isCreateFlow = false) : o.definesFlow = false := by
  rcases own with named | ⟨ev, rfl, acks⟩
  · cases o with
    | appendEvent ev => cases ev <;> first | rfl | cases named
    | _ => rfl
  · cases ev with
    | flowCreated | flowVersionCreated =>
      cases command with
      | createFlow => cases other
      | _ => cases acks
    | _ => rfl

theorem Handler.interpret_versions (o : Op) {r} (other : o.definesFlow = false)
    (spared : o.Spared c.toBackend c.clock w) (ran : interpret o c w = (.ok r, w')) :
    w'.txn.rows.flowVersions = w.txn.rows.flowVersions := by
  have did := Handler.does_sound (c := c.withoutFaults) (fun _ => rfl) o
    (Handler.interpret_agree o spared ran)
  have rows {t : Draft} (same : w'.draft = t) : w'.txn.rows = t.rows := congrArg Draft.rows same
  cases o with
  | ask | peek | nextGeneratedSeq | env | cached => rw [rows did.2]; rfl
  | appendEvent ev =>
    obtain ⟨ts, -, same⟩ := did
    rw [rows same]
    exact ev.apply_flowVersions other _ ts
  | appendCommand | reject =>
    obtain ⟨ts, same⟩ := did
    rw [rows same]
    rfl
  | mint | now | evalJsonata | cache => rw [rows did]; rfl

/-- The cache is right about the versions of the rows, which no fold has touched. -/
def Work.Cached (env : Env) (rows : Projection) (w : Work) : Prop :=
  Coherent env rows w.machines ∧ w.txn.rows.flowVersions = rows.flowVersions

theorem Coherent.remember {version ver machine} (coherent : Coherent env rows machines)
    (found : rows.getFlowVersion version = some ver)
    (parsed : env.parse ver.definition = .ok machine) :
    Coherent env rows (machines.insert version machine) := by
  intro v m hit
  by_cases same : v = version
  · subst same
    rw [AList.lookup_insert] at hit
    cases hit
    exact ⟨ver, found, parsed⟩
  · rw [AList.lookup_insert_ne same] at hit
    exact coherent v m hit

/-- Looking up a version's machine leaves the cache right, whether it returns or fails. -/
theorem Work.Cached.looksUp {α : Type} {m} (cached : w.Cached c.env rows) (looks : LooksUp α m) :
    (m.run Handler.interpret c w).2.Cached c.env rows := by
  obtain ⟨coherent, versions⟩ := cached
  cases looks with
  | machineOr onFault version =>
    unfold machineOr
    rw [Prog.run_bind, Prog.run_perform, Eff.bind_of_ok (show Handler.interpret (.cached version) c w =
      (.ok (w.machines.lookup version), w) from rfl)]
    cases w.machines.lookup version with
    | some machine => exact ⟨coherent, versions⟩
    | none =>
      dsimp only
      rw [Prog.run_bind, Prog.run_perform]
      have moved : (Handler.interpret (.ask (.flowVersion version) onFault) c w).2 =
          { w with txn := { w.txn with calls := w.txn.calls + 1 } } := by
        show (Handler.onTxn onFault (Txn.ask (.flowVersion version)) c w).2 = _
        unfold Handler.onTxn
        rw [Txn.run_ask]
      rcases ran : Handler.interpret (.ask (.flowVersion version) onFault) c w with ⟨e | row, w'⟩
      · rw [Eff.bind_of_error ran]
        rw [ran] at moved
        obtain rfl := moved
        exact ⟨coherent, versions⟩
      · rw [Eff.bind_of_ok ran]
        have answer : row = w.txn.rows.getFlowVersion version := Handler.ask_answers ran
        rw [ran] at moved
        obtain rfl := moved
        cases row with
        | none => exact ⟨coherent, versions⟩
        | some ver =>
          have found : rows.getFlowVersion version = some ver := by
            rw [answer, Projection.getFlowVersion, Projection.getFlowVersion, versions]
          dsimp only [platform]
          rw [Prog.run_bind, Prog.run_perform, Eff.bind_of_ok (show Handler.interpret .env c _ =
            (.ok c.env, _) from rfl)]
          cases parsed : c.env.parse ver.definition with
          | error e => exact ⟨coherent, versions⟩
          | ok machine => exact ⟨coherent.remember found parsed, versions⟩

theorem flowCreate_caches (p : CreateFlow) : (FlowElement.create p).Uses (·.caches = false) := by
  refine .bind (.perform rfl) fun env => ?_
  split
  · trivial
  refine .bind (.perform rfl) fun known => ?_
  split
  · exact .perform rfl
  refine .bind (.perform rfl) fun flowUid => .bind (.perform rfl) fun versionUid => ?_
  refine .bind (.perform rfl) fun at_ => .bind (.perform rfl) fun _ => ?_
  exact .perform rfl

/-- However an attempt ends, the machines it leaves behind are what the versions parse to. -/
theorem dispatchOnce_coherent (spared : a.Spared env cause command rows machines)
    (coherent : Coherent env rows machines) :
    Coherent env rows (dispatchOnce env cause command rows machines a).2 := by
  unfold dispatchOnce
  cases begun : a.beginFault with
  | some e => exact coherent
  | none =>
    have ended : Coherent env rows ((dispatchCommand command).run Handler.interpret
        (a.ctx env cause) (.start rows machines)).2.machines := by
      cases creates : command.isCreateFlow with
      | false =>
        refine (dispatchCommand_answersOnly creates).ends
          (I := fun w => w.Cached env rows) (J := fun w => Coherent env rows w.machines)
          (fun w => And.left) ?_ ?_ ?_ ?_ ⟨coherent, rfl⟩ (spared begun)
        · rintro o w r w' ⟨own, plain⟩ spared ⟨coherent, versions⟩ ran
          refine ⟨?_, (Handler.interpret_versions o (own.definesFlow creates) spared ran).trans
            versions⟩
          rwa [Handler.interpret_keeps_machines o plain ran]
        · rintro o w e w' ⟨coherent, -⟩ ran
          rwa [Handler.interpret_error_machines o ran]
        · intro β m w r w' looks cached ran
          have kept := cached.looksUp (c := a.ctx env cause) looks
          rwa [ran] at kept
        · intro β m w e w' looks cached ran
          have kept := cached.looksUp (c := a.ctx env cause) looks
          rw [ran] at kept
          exact kept.1
      | true =>
        cases command with
        | createFlow p =>
          refine (Prog.Built.of_uses (S := fun _ _ => False) (flowCreate_caches p)).ends
            (I := fun w => Coherent env rows w.machines) (fun _ => id) ?_ ?_ ?_ ?_ coherent
            (spared begun)
          · intro o w r w' plain spared coherent ran
            rwa [Handler.interpret_keeps_machines o plain ran]
          · intro o w e w' coherent ran
            rwa [Handler.interpret_error_machines o ran]
          · intro β m w r w' given
            exact given.elim
          · intro β m w e w' given
            exact given.elim
        | _ => cases creates
    dsimp only
    split
    · next ran => rwa [ran] at ended
    · next ran =>
        rw [ran] at ended
        split <;> exact ended

/-- Where the dispatch of a command starts from. -/
def Start.of (rows : Projection) (command : Command) (punctual : Prop) : Start :=
  ⟨rows, command.definesFlow, command.activates, punctual⟩

/-- What the leader has to start from. -/
structure Startable (env : Env) (rows : Projection) (command : Command) (punctual : Prop) : Prop
    where
  sound : rows.Sound env
  bounded : rows.Bounded
  ready : command.Ready rows
  inTime : punctual → ¬command.Late rows

theorem Startable.begin (can : Startable env rows command punctual)
    (coherent : Coherent env rows machines) :
    Draft.Lawful env (.of rows command punctual) ⟨rows, [], machines⟩ where
  sound := can.sound
  course := .nil rfl
  named := by simp
  bounded := can.bounded
  coherent := coherent
  versions _ := rfl
  counter := le_rfl
  commands := by simp
  minted := by simp [activations]
  nodup := by simp [activations]
  tasks _ there := .inl there
  announced := by
    intro before e after split
    simp at split

theorem rejectCommand_lawful {type reason} (can : Startable env rows command punctual)
    (coherent : Coherent env rows machines)
    (ran : rejectCommand cause command rows d type reason = some produced) :
    Draft.Lawful env (.of rows command punctual) ⟨produced.rows, produced.entries, machines⟩ := by
  unfold rejectCommand at ran
  split at ran
  · cases ran
  · cases ran
    exact (can.begin coherent).reject _ cause _

theorem attemptFrom_lawful {attempts} (debug : env.debug = true)
    (can : Startable env rows command punctual) (coherent : Coherent env rows machines)
    (spared : SparedFrom env cause command rows attempts machines)
    (ran : attemptFrom env cause command rows d attempts machines = (some produced, machines')) :
    Draft.Lawful env (.of rows command punctual) ⟨produced.rows, produced.entries, machines'⟩ := by
  induction attempts generalizing machines with
  | nil => cases ran
  | cons a later ih =>
    obtain ⟨here, next⟩ := spared
    have coherent' := dispatchOnce_coherent here coherent
    unfold attemptFrom at ran
    split at ran
    case h_1 once =>
      cases ran
      rw [once] at coherent'
      have fine := dispatchOnce_withoutFaults here once
      obtain ⟨ds, outcome, writes⟩ := dispatchOnce_outcome (fun _ => rfl)
        ⟨coherent, fun version ver machine found parsed => ⟨ver, found, parsed⟩⟩ fine
      have lawful := outcome.lawful (s := ⟨rows, [], machines⟩)
        (t := ⟨produced.rows, [] ++ produced.entries, machines⟩) debug rfl rfl (can.begin coherent)
        can.ready rfl can.inTime writes.performs
      exact { lawful with coherent := coherent' }
    case h_2 => cases ran
    case h_3 failed =>
      rw [failed] at coherent'
      obtain ⟨rejected, rfl⟩ := Prod.mk.inj ran
      exact rejectCommand_lawful can coherent' rejected
    case h_4 failed =>
      rw [failed] at coherent'
      split at ran
      · obtain ⟨rejected, rfl⟩ := Prod.mk.inj ran
        exact rejectCommand_lawful can coherent' rejected
      · exact ih coherent' (next _ _ failed) ran

/-- Whatever the leader decides to commit is lawful. -/
theorem processCommand_lawful (debug : env.debug = true)
    (can : Startable env rows command punctual) (coherent : Coherent env rows machines)
    (spared : d.Spared env cause command rows machines)
    (ran : processCommand env cause command rows machines d = (some produced, machines')) :
    Draft.Lawful env (.of rows command punctual) ⟨produced.rows, produced.entries, machines'⟩ :=
  attemptFrom_lawful debug can coherent spared ran

end Spica
