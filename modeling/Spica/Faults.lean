import Spica.Answers
import Spica.Outcome.Runs

/-! # Storage faults and decisions

Most storage calls of a dispatch pass a failure on, which aborts the attempt. Some swallow it: a
read whose failure counts as an absent row, the read and the advance of the name counter, and
every call made while an emitted event is folded. As long as no fault hits a call of the second
kind, an attempt that returns returns what it would have returned without faults.
-/

namespace Spica

open Log Scenario

variable {s : TxnState} {caches : MachineCache → Prop} {attempts : List Attempt} {p : CreateFlow}

/-- The call is not failed, if its failure would be swallowed. -/
def Op.Spared (b : Backend) (clock : Nat → Timestamp) (o : Op) (w : Work) : Prop :=
  match o with
  | .peek _ => b.fault w.txn.calls = none
  | .nextGeneratedSeq => b.fault w.txn.calls = none ∧ b.fault (w.txn.calls + 1) = none
  | .appendEvent e =>
    (dispatchEvent (clock w.ticks) e).Along Txn.interpret (fun _ s => b.fault s.calls = none) b
      w.txn
  | _ => True

section spared

variable (env : Env) (cause : Nat) (command : Command) (rows : Projection)

/-- No fault of the attempt hits a call that swallows it. -/
def Attempt.Spared (machines : MachineCache) (a : Attempt) : Prop :=
  a.beginFault = none →
    (dispatchCommand command).Along Handler.interpret (Op.Spared a.toBackend a.clock)
      (a.ctx env cause) (.start rows machines)

/-- No fault of the attempts that are made hits a call that swallows it. -/
def SparedFrom : List Attempt → MachineCache → Prop
  | [], _ => True
  | a :: later, machines =>
    a.Spared env cause command rows machines ∧
    ∀ e machines', dispatchOnce env cause command rows machines a =
      (.error (.unexpected e), machines') → SparedFrom later machines'

def Decision.Spared (machines : MachineCache) (d : Decision) : Prop :=
  SparedFrom env cause command rows (List.ofFn d.attempts) machines

/-- The machine caches the leader holds as it makes the attempts. -/
def CacheHeld : List Attempt → MachineCache → MachineCache → Prop
  | [], _, _ => False
  | a :: later, machines, held =>
    held = machines ∨
      CacheHeld later (dispatchOnce env cause command rows machines a).2 held

/-- A batch some dispatch without faults produces from one of the given caches, or a single
    rejection with the projection unchanged. -/
def Faultless (caches : MachineCache → Prop) (produced : Produced) : Prop :=
  (∃ machines a, caches machines ∧ a.toBackend.FaultFree ∧ a.beginFault = none ∧
    (dispatchOnce env cause command rows machines a).1 = .ok produced) ∨
  (∃ ts r, produced.entries = [⟨some cause, ts, .reject r⟩] ∧ produced.rows = rows)

end spared

def Attempt.withoutFaults (a : Attempt) : Attempt :=
  { a with toBackend := a.toBackend.withoutFaults, beginFault := none }

namespace Txn

variable {b : Backend}

/-- A call that does not fail does not notice that others would. -/
theorem interpret_withoutFaults (o : TxnOp) (fine : b.fault s.calls = none) :
    interpret o b s = interpret o b.withoutFaults s := by
  have reads (q : Query) : read q b s = read q b.withoutFaults s := by
    simp [read, fine, Backend.withoutFaults]
  have writes (w : Write) : write w b s = write w b.withoutFaults s := by
    simp [write, fine, Backend.withoutFaults]
  cases o with
  | ask q =>
    show Eff.bind (read q) orFail b s = Eff.bind (read q) orFail b.withoutFaults s
    simp only [Eff.bind, reads q]
    rfl
  | peek q => exact reads q
  | put w =>
    show Eff.bind (write w) orFail b s = Eff.bind (write w) orFail b.withoutFaults s
    simp only [Eff.bind, writes w]
    rfl
  | tryPut w => exact writes w

end Txn

namespace Handler

variable {c : Ctx} {w w' : Work}

/-- A part of the transaction with the same run has the same outcome. -/
theorem onTxn_agree {α : Type} (onFault : StorageError → Abort) (m : Txn α) {r}
    (same : m.run Txn.interpret c.toBackend w.txn =
      m.run Txn.interpret c.toBackend.withoutFaults w.txn)
    (ran : onTxn onFault m c w = (.ok r, w')) :
    onTxn onFault m c.withoutFaults w = (.ok r, w') := by
  rw [← ran]
  unfold onTxn
  rw [same]
  rfl

theorem interpret_agree (o : Op) {r} (spared : o.Spared c.toBackend c.clock w)
    (ran : interpret o c w = (.ok r, w')) : interpret o c.withoutFaults w = (.ok r, w') := by
  cases o with
  | ask q onFault =>
    cases fault : c.fault w.txn.calls with
    | none =>
      have same := Txn.interpret_withoutFaults (.ask q) fault
      exact onTxn_agree onFault (Txn.ask q) (by simpa only [Prog.run_perform] using same) ran
    | some e =>
      -- the failure would have been passed on
      have failed : (onTxn onFault (Txn.ask q) c w).1 = .error (onFault e) := by
        unfold onTxn
        rw [Txn.run_ask]
        simp only [fault]
        rfl
      have returned : (onTxn onFault (Txn.ask q) c w).1 = .ok r := congrArg Prod.fst ran
      rw [failed] at returned
      cases returned
  | peek q =>
    have same := Txn.interpret_withoutFaults (.peek q) spared
    exact onTxn_agree storageFault (Txn.peek q) (by simpa only [Prog.run_perform] using same) ran
  | nextGeneratedSeq =>
    refine onTxn_agree storageFault mintGeneratedSeq ?_ ran
    rw [mintGeneratedSeq_run, mintGeneratedSeq_run]
    simp only [spared.1, spared.2, Backend.withoutFaults]
  | appendEvent e =>
    have same : (dispatchEvent (c.clock w.ticks) e).run Txn.interpret c.toBackend w.txn =
        (dispatchEvent (c.clock w.ticks) e).run Txn.interpret c.toBackend.withoutFaults w.txn :=
      Prog.run_congr (fun o s fine => Txn.interpret_withoutFaults o fine) _ spared
    have ran : appendEvent e c w = (.ok r, w') := ran
    show appendEvent e c.withoutFaults w = (.ok r, w')
    rw [appendEvent_run] at ran ⊢
    rw [← ran, same]
    rfl
  | appendCommand | reject | mint | now | env | evalJsonata | cached | cache => exact ran

end Handler

section leader

variable {env : Env} {cause : Nat} {command : Command} {rows : Projection}
  {machines machines' : MachineCache} {produced : Produced} {d : Decision} {a : Attempt}

theorem dispatchOnce_withoutFaults (spared : a.Spared env cause command rows machines)
    (ran : dispatchOnce env cause command rows machines a = (.ok produced, machines')) :
    dispatchOnce env cause command rows machines a.withoutFaults = (.ok produced, machines') := by
  obtain ⟨w, begun, returned, filled, rfl, rfl⟩ := dispatchOnce_inv ran
  have same : (dispatchCommand command).run Handler.interpret (a.withoutFaults.ctx env cause)
      (.start rows machines) = (.ok (), w) :=
    Prog.run_agree (fun o _ _ _ spared ran => Handler.interpret_agree o spared ran) _
      (spared begun) returned
  unfold dispatchOnce
  simp only [same]
  simp [Attempt.withoutFaults, filled]

theorem rejectCommand_faultless {type reason}
    (ran : rejectCommand cause command rows d type reason = some produced) :
    Faultless env cause command rows caches produced := by
  unfold rejectCommand at ran
  split at ran
  · cases ran
  · cases ran
    exact .inr ⟨_, _, rfl, rfl⟩

theorem Faultless.weaken {caches'} (faultless : Faultless env cause command rows caches produced)
    (more : ∀ m, caches m → caches' m) : Faultless env cause command rows caches' produced := by
  rcases faultless with ⟨m, a, held, rest⟩ | rejected
  · exact .inl ⟨m, a, more m held, rest⟩
  · exact .inr rejected

theorem attemptFrom_faultless (spared : SparedFrom env cause command rows attempts machines)
    (ran : attemptFrom env cause command rows d attempts machines = (some produced, machines')) :
    Faultless env cause command rows (CacheHeld env cause command rows attempts machines)
      produced := by
  induction attempts generalizing machines with
  | nil => cases ran
  | cons a later ih =>
    obtain ⟨here, next⟩ := spared
    unfold attemptFrom at ran
    split at ran
    case h_1 once =>
      cases ran
      have fine := dispatchOnce_withoutFaults here once
      exact .inl ⟨machines, a.withoutFaults, .inl rfl, fun _ => rfl, rfl, congrArg Prod.fst fine⟩
    case h_2 => cases ran
    case h_3 => exact rejectCommand_faultless (Prod.mk.inj ran).1
    case h_4 failed =>
      split at ran
      · exact rejectCommand_faultless (Prod.mk.inj ran).1
      · refine (ih (next _ _ failed) ran).weaken fun m held => .inr ?_
        rw [failed]
        exact held

/-- While no fault hits a call that swallows it, the batch the leader commits for a command is one
    that a dispatch without faults produces, or a single rejection. -/
theorem faults_change_no_decision (spared : d.Spared env cause command rows machines)
    (ran : processCommand env cause command rows machines d = (some produced, machines')) :
    Faultless env cause command rows
      (CacheHeld env cause command rows (List.ofFn d.attempts) machines) produced :=
  attemptFrom_faultless spared ran

theorem Attempt.spared_of_faultFree (ff : a.toBackend.FaultFree) :
    a.Spared env cause command rows machines := by
  refine fun _ => Prog.along_of_forall (fun o w => ?_) _ _
  cases o with
  | peek => exact ff _
  | nextGeneratedSeq => exact ⟨ff _, ff _⟩
  | appendEvent e => exact Prog.along_of_forall (fun _ s => ff (TxnState.calls s)) _ _
  | _ => trivial

theorem sparedFrom_of_forall
    (all : ∀ a ∈ attempts, ∀ machines, a.Spared env cause command rows machines) :
    SparedFrom env cause command rows attempts machines := by
  induction attempts generalizing machines with
  | nil => trivial
  | cons a later ih =>
    exact ⟨all a (by simp) machines,
      fun _ _ _ => ih fun a member => all a (by simp [member])⟩

/-- The first attempt cannot open its transaction; the others meet no fault. -/
def beginFails : Decision :=
  { decision with attempts := fun i =>
      if i.val = 0 then { attempt with beginFault := some (.backend "unavailable") }
      else attempt }

theorem beginFails_spared : beginFails.Spared env cause command rows machines := by
  refine sparedFrom_of_forall fun a member machines => ?_
  obtain ⟨i, rfl⟩ := List.mem_ofFn.mp member
  refine Attempt.spared_of_faultFree fun n => ?_
  unfold beginFails
  dsimp only
  split <;> rfl

theorem faults_change_no_decision_retry :
    ∃ produced machines,
      processCommand (host true (single pass)) 1 createFlow .empty ∅ beginFails =
        (some produced, machines) ∧
      Faultless (host true (single pass)) 1 createFlow .empty
        (CacheHeld (host true (single pass)) 1 createFlow .empty (List.ofFn beginFails.attempts) ∅)
        produced := by
  have answered : (processCommand (host true (single pass)) 1 createFlow .empty ∅
      beginFails).1.isSome = true := by decide +kernel
  rcases ran : processCommand (host true (single pass)) 1 createFlow .empty ∅ beginFails
    with ⟨decided, machines⟩
  rw [ran] at answered
  obtain ⟨produced, rfl⟩ := Option.isSome_iff_exists.mp answered
  exact ⟨produced, machines, rfl, faults_change_no_decision beginFails_spared ran⟩

end leader

/-! ## Runs of the whole system -/

/-- The call is not failed, if the applier that makes it would swallow the failure. -/
def TxnOp.Spared (b : Backend) (o : TxnOp) (s : TxnState) : Prop :=
  match o with
  | .peek _ | .tryPut _ => b.fault s.calls = none
  | .ask _ | .put _ => True

/-- No failure is swallowed while a reader folds the event. -/
def Event.Spared (b : Backend) (ts : Timestamp) (rows : Projection) (e : Event) : Prop :=
  (dispatchEvent ts e).Along Txn.interpret (TxnOp.Spared b) b ⟨rows, 0⟩

/-- No storage failure of the action is swallowed. -/
def World.Spared (env : Env) (w : World) : Action → Prop
  | .dispatch d => ∀ next leader cause ts c, w.proc = .running next leader →
      entryAt w.log next = some ⟨cause, ts, .command c⟩ →
      d.Spared env next c w.storage.rows leader.definitions
  | .recover b => ∀ definitions pos inflight e ev, w.proc = .recovering definitions pos inflight →
      entryAt w.log pos = some e → e.event? = some ev →
      ev.Spared b e.timestamp (inflight.getD w.storage.rows)
  | .follow b => ∀ e ev, entryAt w.log w.follower.pos = some e → e.event? = some ev →
      ev.Spared b e.timestamp (w.follower.inflight.getD w.follower.storage.rows)
  | _ => True

section system

variable {env : Env} {w : World} {a : Action} {b : Backend}

theorem Event.spared_of_faultFree (ff : b.FaultFree) (ts : Timestamp) (rows : Projection)
    (e : Event) : e.Spared b ts rows := by
  refine Prog.along_of_forall (fun o s => ?_) _ _
  cases o with
  | peek | tryPut => exact ff _
  | ask | put => trivial

theorem Decision.spared_of_faultFree {d : Decision} (ff : d.FaultFree) (env : Env) (cause : Nat)
    (command : Command) (rows : Projection) (machines : MachineCache) :
    d.Spared env cause command rows machines := by
  refine sparedFrom_of_forall fun a member machines => ?_
  obtain ⟨i, rfl⟩ := List.mem_ofFn.mp member
  exact Attempt.spared_of_faultFree (ff.1 i).1

theorem Action.FaultFree.spared (ff : a.FaultFree) : w.Spared env a := by
  cases a with
  | dispatch d =>
    intro next leader cause ts c _ _
    exact Decision.spared_of_faultFree ff ..
  | recover b =>
    intro _ _ _ e ev _ _ _
    exact ev.spared_of_faultFree ff ..
  | follow b =>
    intro e ev _ _
    exact ev.spared_of_faultFree ff ..
  | _ => trivial

/-- A call of an applier that returns does what it would do without faults. -/
theorem Txn.interpret_agree (o : TxnOp) {t r} (spared : o.Spared b s)
    (ran : interpret o b s = (.ok r, t)) : interpret o b.withoutFaults s = (.ok r, t) := by
  have fine (none : b.fault s.calls = none) : interpret o b.withoutFaults s = (.ok r, t) := by
    rw [← interpret_withoutFaults o none]
    exact ran
  cases o with
  | peek | tryPut => exact fine spared
  | ask q =>
    cases fault : b.fault s.calls with
    | none => exact fine fault
    | some e =>
      -- the failure would have been passed on
      have failed : ((Txn.ask q).run interpret b s).1 = .error (.storage e) := by
        rw [run_ask]
        simp only [fault]
      have returned : ((Txn.ask q).run interpret b s).1 = .ok r := by
        unfold Txn.ask
        rw [Prog.run_perform, ran]
      cases failed.symm.trans returned
  | put w =>
    cases fault : b.fault s.calls with
    | none => exact fine fault
    | some e =>
      -- the failure would have been passed on
      have failed : ((Txn.put w).run interpret b s).1 = .error (.storage e) := by
        rw [run_put]
        simp only [fault]
      have returned : ((Txn.put w).run interpret b s).1 = .ok r := by
        unfold Txn.put
        rw [Prog.run_perform, ran]
      cases failed.symm.trans returned

/-- What a reader folds is the event's effect. -/
theorem foldInflight_ok {s open_ ts e rows} (spared : e.Spared b ts (open_.getD s.rows))
    (folded : foldInflight b s open_ ts e = some rows) :
    e.Folds (open_.getD s.rows) ∧ rows = e.apply ts (open_.getD s.rows) := by
  unfold foldInflight at folded
  dsimp only at folded
  split at folded
  case h_1 txn ran =>
    cases folded
    have ran := Prog.run_agree (fun o _ _ _ => Txn.interpret_agree o) _ spared ran
    obtain ⟨folds, effect⟩ := dispatchEvent_ok (fun _ => rfl) ran (by simp)
    exact ⟨folds, effect⟩
  case h_2 => cases folded

theorem Faultless.mirrors {cause command rows produced}
    (faultless : Faultless env cause command rows caches produced) :
    Mirrors rows produced.entries produced.rows := by
  rcases faultless with ⟨machines, a, -, ff, -, ran⟩ | ⟨ts, r, entries, same⟩
  · exact (dispatchOnce_ok (Prod.ext ran rfl)).2 ff
  · rw [entries, same]
    exact .quiet (by simp [Entry.event?]) rfl

end system

/-! ## A swallowed fault -/

/-- Without faults a flow's name that is taken is refused, and nothing else happens. -/
theorem createFlow_taken {env cause rows machines machines' a produced f}
    (ff : a.toBackend.FaultFree) (taken : rows.getFlowByName p.name = some f)
    (ran : dispatchOnce env cause (.createFlow p) rows machines a = (.ok produced, machines')) :
    ∃ ts r, produced.entries = [⟨some cause, ts, .reject r⟩] ∧ produced.rows = rows := by
  have gives : (FlowElement.create p).Runs (Handler.does env cause) ⟨rows, [], machines⟩ () _ :=
    dispatchOnce_gives ff ran
  unfold FlowElement.create at gives
  rw [platform_then] at gives
  cases parsed : env.parse p.definition with
  | error e =>
    rw [parsed] at gives
    exact gives.elim
  | ok m =>
    simp only [parsed, peekFlowByName_then, taken, emitReject_gives] at gives
    obtain ⟨ts, same⟩ := gives
    exact ⟨ts, _, congrArg Draft.out same, congrArg Draft.rows same⟩

/-- A batch with an event in it, decided for a flow's name that is taken, is a fault's doing. -/
theorem createFlow_taken_faulty {env cause rows machines d}
    (taken : (rows.getFlowByName p.name).isSome = true)
    (eventful : (processCommand env cause (.createFlow p) rows machines d).1.any
      (fun produced => produced.entries.any (fun e => e.event?.isSome)) = true) :
    ∃ produced, (processCommand env cause (.createFlow p) rows machines d).1 = some produced ∧
      ¬ Faultless env cause (.createFlow p) rows caches produced := by
  obtain ⟨f, taken⟩ := Option.isSome_iff_exists.mp taken
  obtain ⟨produced, decided, eventful⟩ := (Option.any_eq_true _ _).mp eventful
  refine ⟨produced, decided, fun faultless => ?_⟩
  have refused : ∃ ts r, produced.entries = [⟨some cause, ts, .reject r⟩] ∧
      produced.rows = rows := by
    rcases faultless with ⟨machines, a, -, ff, -, ran⟩ | rejected
    · exact createFlow_taken ff taken (Prod.ext ran rfl)
    · exact rejected
  obtain ⟨ts, r, entries, -⟩ := refused
  simp [entries, Entry.event?] at eventful

/-- The first storage call of every attempt fails. -/
def firstCallFails : Decision :=
  { decision with attempts := fun _ => { attempt with
      fault := fun n => if n = 0 then some (.backend "unavailable") else none } }

/-- A flow exists and its name is used again. The existence read fails, is taken for an unused
    name, and the batch that is committed creates the flow anew. -/
theorem fault_overwrites_flow :
    ∃ w, Run.Reach (World.step (host true (single pass))) (fun _ a => a.FaultFree) .init w ∧
      ∃ produced, (processCommand (host true (single pass)) 6 createFlow w.storage.rows ∅
          firstCallFails).1 = some produced ∧
        ¬ Faultless (host true (single pass)) 6 createFlow w.storage.rows (fun _ => True)
          produced :=
  ⟨World.idle, World.idle_reach fun _ => World.idleActions_calm,
    createFlow_taken_faulty (by decide +kernel) (by decide +kernel)⟩

end Spica
