import Spica.Emission

/-! # Reasoning about handlers

What a handler does to the projection when no storage call fails. The state is a draft: the
projection with everything emitted so far folded in, and the entries themselves. What the outside
decides (clock, identities, expression results, the order of an unordered answer) is left open, so
a fact about every run of a handler holds of every dispatch.
-/

namespace Spica

/-- A dispatch under way. -/
structure Draft where
  rows : Projection
  out : List Entry
  machines : MachineCache

def Work.draft (w : Work) : Draft := ⟨w.txn.rows, w.out, w.machines⟩

namespace Draft

/-- An entry is emitted. -/
def emit (s : Draft) (cause : Nat) (ts : Timestamp) (payload : EntryPayload) : Draft :=
  { s with out := s.out ++ [⟨some cause, ts, payload⟩] }

/-- An event is emitted, and folded with its own timestamp. -/
def fold (s : Draft) (cause : Nat) (ts : Timestamp) (e : Event) : Draft :=
  { s.emit cause ts (.event e) with rows := e.apply ts s.rows }

/-- A name suffix is taken. -/
def take (s : Draft) : Draft :=
  { s with rows := s.rows.putNextGeneratedSeq (s.rows.nextGeneratedSeq + 1) }

/-- A parsed machine is remembered. -/
def remember (s : Draft) (version : ObjectRef .flowVersion) (machine : StateMachine) : Draft :=
  { s with machines := s.machines.insert version machine }

end Draft

/-- The possible answers to a read. -/
def Query.Answers (p : Projection) : (q : Query) → q.Ret → Prop
  | .execution r, a => a = p.getExecution r
  | .thread r, a => a = p.getThread r
  | .vars r, a => a = p.getVariables r
  | .activity r, a => a = p.getActivity r
  | .task r, a => a = p.getTask r
  | .children r, a => a.Perm (p.getChildren r)
  | .activatableTasks resource now limit, a =>
    ∃ all : List Task, all.Perm (p.claimable resource now) ∧ a = all.take limit
  | .flowByName name, a => a = p.getFlowByName name
  | .flowVersion r, a => a = p.getFlowVersion r
  | .nextGeneratedSeq, a => a = p.nextGeneratedSeq

theorem Query.answers_eval (q : Query) (refs : Order RawObjectRef) (tasks : Order ObjectName)
    (p : Projection) : q.Answers p (q.eval refs tasks p) := by
  cases q with
  | children r => exact refs.perm _
  | activatableTasks resource now limit => exact ⟨_, (scanned_perm tasks p.tasks).filter _, rfl⟩
  | _ => rfl

namespace Handler

/-- A read that returns is answered from the rows, whatever storage does. -/
theorem ask_answers {c q onFault w w' a} (ran : interpret (.ask q onFault) c w = (.ok a, w')) :
    q.Answers w.txn.rows a := by
  have run : onTxn onFault (Txn.ask q) c w = (.ok a, w') := ran
  unfold onTxn at run
  rw [Txn.run_ask] at run
  cases fault : c.fault w.txn.calls with
  | some e =>
    simp only [fault] at run
    cases run
  | none =>
    simp only [fault] at run
    cases run
    exact q.answers_eval _ _ _

/-- What each operation can do. -/
def does (env : Env) (cause : Nat) : (o : Op) → Draft → o.Ret → Draft → Prop
  | .ask q _, s, a, t => q.Answers s.rows a ∧ t = s
  | .peek q, s, r, t => (∃ a, q.Answers s.rows a ∧ r = .ok a) ∧ t = s
  | .appendEvent e, s, _, t => ∃ ts, e.Folds s.rows ∧ t = s.fold cause ts e
  | .appendCommand c, s, _, t => ∃ ts, t = s.emit cause ts (.command c)
  | .reject r, s, _, t => ∃ ts, t = s.emit cause ts (.reject r)
  | .nextGeneratedSeq, s, n, t => n = s.rows.nextGeneratedSeq ∧ t = s.take
  | .mint, s, _, t => t = s
  | .now, s, _, t => t = s
  | .env, s, a, t => a = env ∧ t = s
  | .evalJsonata _ _ _, s, _, t => t = s
  | .cached version, s, a, t => a = s.machines.lookup version ∧ t = s
  | .cache version machine, s, _, t => t = s.remember version machine

/-- A handler's runs without faults. -/
abbrev Gives {α : Type} (env : Env) (cause : Nat) (m : Handler α) (s : Draft) (a : α) (t : Draft) :
    Prop := m.Runs (does env cause) s a t

theorem does_sound {c} (ff : c.toBackend.FaultFree) (o : Op) {w w' a}
    (ran : interpret o c w = (.ok a, w')) : does c.env c.cause o w.draft a w'.draft := by
  cases o with
  | ask q onFault =>
    refine ⟨ask_answers ran, ?_⟩
    have run : onTxn onFault (Txn.ask q) c w = (.ok a, w') := ran
    unfold onTxn at run
    rw [Txn.run_ask] at run
    simp only [ff w.txn.calls] at run
    cases run
    rfl
  | peek q =>
    have run : onTxn storageFault (Txn.peek q) c w = (.ok a, w') := ran
    unfold onTxn at run
    rw [Txn.run_peek] at run
    simp only [ff w.txn.calls] at run
    cases run
    exact ⟨⟨_, q.answers_eval _ _ _, rfl⟩, rfl⟩
  | nextGeneratedSeq =>
    have run : onTxn storageFault mintGeneratedSeq c w = (.ok a, w') := ran
    unfold onTxn at run
    rw [mintGeneratedSeq_run] at run
    simp only [ff w.txn.calls, ff (w.txn.calls + 1)] at run
    cases run
    exact ⟨rfl, rfl⟩
  | appendEvent e =>
    obtain ⟨r, txn, folded, noPanic, rfl⟩ := appendEvent_ok ran
    obtain ⟨folds, effect⟩ := dispatchEvent_ok ff folded noPanic
    refine ⟨c.clock w.ticks, folds, ?_⟩
    simp [Draft.fold, Draft.emit, Work.draft, effect]
  | appendCommand | reject =>
    cases ran
    exact ⟨c.clock w.ticks, rfl⟩
  | mint | now | evalJsonata | cache =>
    cases ran
    rfl
  | env | cached =>
    cases ran
    exact ⟨rfl, rfl⟩

theorem gives_of_run {c} (ff : c.toBackend.FaultFree) {α : Type} (m : Handler α) {w w' a}
    (ran : m.run interpret c w = (.ok a, w')) : Gives c.env c.cause m w.draft a w'.draft :=
  (Prog.runs_sound Work.draft (I := fun _ => True)
    (fun o _ _ _ _ ran => ⟨does_sound ff o ran, trivial⟩) m trivial ran).1

end Handler

/-- A dispatch without faults that answers is one of the command's runs. -/
theorem dispatchOnce_gives {env cause command rows machines machines' a produced}
    (ff : a.toBackend.FaultFree)
    (ran : dispatchOnce env cause command rows machines a = (.ok produced, machines')) :
    Handler.Gives env cause (dispatchCommand command) ⟨rows, [], machines⟩ ()
      ⟨produced.rows, produced.entries, machines'⟩ := by
  obtain ⟨w, -, returned, -, rfl, rfl⟩ := dispatchOnce_inv ran
  have ff : (a.ctx env cause).toBackend.FaultFree := ff
  exact Handler.gives_of_run (w := .start rows machines) ff _ returned

end Spica
