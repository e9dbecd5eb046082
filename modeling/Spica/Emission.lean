import Spica.Replay
import Spica.Leader

/-! # What a dispatch emits

Whatever a handler does, a dispatch that returns has only added entries caused by its command,
no Noop among them; and when no storage call failed, its working transaction is the replay of
the events among those entries, the counter aside.
-/

namespace Spica

/-- Entries of an answer: caused by the command, not a Noop. -/
def Entry.Answers (cause : Nat) (e : Entry) : Prop := e.causeId = some cause ∧ e.isNoop = false

/-- The second projection is the first one with the entries replayed, the counter aside. -/
def Mirrors (p : Projection) (es : List Entry) (p' : Projection) : Prop :=
  ∃ q, Replays p es q ∧ q.content = p'.content

namespace Mirrors

variable {p q r : Projection} {es fs : List Entry}

theorem quiet (noEvents : ∀ e ∈ es, e.event? = none) (same : p.content = q.content) :
    Mirrors p es q := ⟨p, .quiet noEvents, same⟩

theorem append (first : Mirrors p es q) (rest : Mirrors q fs r) : Mirrors p (es ++ fs) r := by
  obtain ⟨q', first, same⟩ := first
  obtain ⟨r', rest, same'⟩ := rest
  obtain ⟨r'', rest, same''⟩ := rest.content same.symm
  exact ⟨r'', first.append rest, same''.symm.trans same'⟩

theorem content_right (mirrors : Mirrors p es q) (same : q.content = r.content) :
    Mirrors p es r := by
  obtain ⟨q', replays, same'⟩ := mirrors
  exact ⟨q', replays, same'.trans same⟩

end Mirrors

namespace Handler

/-- A part of a dispatch: what it adds to the answer, and how the transaction follows. -/
def Grows (c : Ctx) (w w' : Work) : Prop :=
  ∃ es, w'.out = w.out ++ es ∧ (∀ e ∈ es, e.Answers c.cause) ∧
    (c.toBackend.FaultFree → Mirrors w.txn.rows es w'.txn.rows)

variable {c : Ctx} {w w' w'' : Work} {α : Type} {a : α}

theorem Grows.refl (w : Work) : Grows c w w :=
  ⟨[], by simp, by simp, fun _ => .quiet (by simp) rfl⟩

theorem Grows.trans (first : Grows c w w') (rest : Grows c w' w'') : Grows c w w'' := by
  obtain ⟨es, out, caused, mirrors⟩ := first
  obtain ⟨fs, out', caused', mirrors'⟩ := rest
  refine ⟨es ++ fs, by rw [out', out, List.append_assoc], ?_, fun ff =>
    (mirrors ff).append (mirrors' ff)⟩
  intro e member
  rcases List.mem_append.mp member with member | member
  · exact caused e member
  · exact caused' e member

/-- Nothing emitted, and at most the counter moved. -/
theorem Grows.silent (out : w'.out = w.out) (same : w.txn.rows.content = w'.txn.rows.content) :
    Grows c w w' := ⟨[], by simp [out], by simp, fun _ => .quiet (by simp) same⟩

/-! ## One operation -/

theorem mintGeneratedSeq_content (b : Backend) (s : TxnState) :
    (mintGeneratedSeq.run Txn.interpret b s).2.rows.content = s.rows.content := by
  rw [mintGeneratedSeq_run]
  cases b.fault (s.calls + 1) <;> rfl

/-- An emitted event is stamped, folded with that stamp and pushed. -/
theorem appendEvent_ok {e u} (ran : appendEvent e c w = (.ok u, w')) :
    ∃ r txn, (dispatchEvent (c.clock w.ticks) e).run Txn.interpret c.toBackend w.txn = (r, txn) ∧
      (∀ msg, r ≠ .error (.panicked msg)) ∧
      w' = { w with
        ticks := w.ticks + 1
        txn := txn
        out := w.out ++ [⟨some c.cause, c.clock w.ticks, .event e⟩] } := by
  rw [appendEvent_run] at ran
  split at ran
  · cases ran
  all_goals
    cases ran
    exact ⟨_, _, ‹_›, by simp, rfl⟩

theorem interpret_grows (o : Op) {a} (ran : interpret o c w = (.ok a, w')) : Grows c w w' := by
  cases o with
  | ask q onFault =>
    have moved : w' = { w with txn := ((Txn.ask q).run Txn.interpret c.toBackend w.txn).2 } :=
      (congrArg Prod.snd ran).symm
    rw [Txn.run_ask] at moved
    subst moved
    exact .silent rfl rfl
  | peek q =>
    have moved : w' = { w with txn := ((Txn.peek q).run Txn.interpret c.toBackend w.txn).2 } :=
      (congrArg Prod.snd ran).symm
    rw [Txn.run_peek] at moved
    subst moved
    exact .silent rfl rfl
  | nextGeneratedSeq =>
    have moved : w' = { w with txn := (mintGeneratedSeq.run Txn.interpret c.toBackend w.txn).2 } :=
      (congrArg Prod.snd ran).symm
    subst moved
    exact .silent rfl (mintGeneratedSeq_content _ _).symm
  | appendEvent e =>
    obtain ⟨r, txn, folded, noPanic, rfl⟩ := appendEvent_ok ran
    refine ⟨_, rfl, by simp [Entry.Answers, Entry.isNoop], fun ff => ?_⟩
    obtain ⟨folds, effect⟩ := dispatchEvent_ok ff folded noPanic
    exact ⟨_, .event rfl folds .nil, congrArg Projection.content effect.symm⟩
  | appendCommand | reject =>
    cases ran
    refine ⟨_, rfl, by simp [Entry.Answers, Entry.isNoop], fun _ => .quiet ?_ rfl⟩
    simp [Entry.event?]
  | mint | now | env | evalJsonata | cached | cache =>
    cases ran
    exact .silent rfl rfl

/-- What holds of every operation holds of a whole dispatch. -/
theorem run_grows (m : Handler α) (ran : m.run interpret c w = (.ok a, w')) : Grows c w w' :=
  Prog.run_moves Grows.refl (fun _ _ _ => .trans) (fun o _ _ _ => interpret_grows o) m ran

end Handler

/-! ## The answer to a command -/

/-- What every answer of the leader is, whatever fails. -/
structure Produced.Sound (produced : Produced) (cause : Nat) : Prop where
  nonempty : produced.entries ≠ []
  answers : ∀ e ∈ produced.entries, e.Answers cause

variable {env : Env} {cause : Nat} {command : Command} {rows : Projection}
  {machines machines' : MachineCache} {produced : Produced} {d : Decision}

/-- An attempt that produces a batch is a dispatch that returned, having emitted something. -/
theorem dispatchOnce_inv {a}
    (ran : dispatchOnce env cause command rows machines a = (.ok produced, machines')) :
    ∃ w, a.beginFault = none ∧ (dispatchCommand command).run Handler.interpret (a.ctx env cause)
        (.start rows machines) = (.ok (), w) ∧ w.out ≠ [] ∧ produced = ⟨w.out, w.txn.rows⟩ ∧
      machines' = w.machines := by
  unfold dispatchOnce at ran
  split at ran
  · cases ran
  case h_2 begun =>
    split at ran
    · cases ran
    case h_2 w returned =>
      split at ran
      · cases ran
      case isFalse filled =>
        cases ran
        exact ⟨w, begun, returned, by simpa using filled, rfl, rfl⟩

theorem dispatchOnce_ok {a}
    (ran : dispatchOnce env cause command rows machines a = (.ok produced, machines')) :
    produced.Sound cause ∧
      (a.toBackend.FaultFree → Mirrors rows produced.entries produced.rows) := by
  obtain ⟨w, -, returned, filled, rfl, -⟩ := dispatchOnce_inv ran
  obtain ⟨es, out, answers, mirrors⟩ := Handler.run_grows _ returned
  have out : w.out = es := out
  subst out
  exact ⟨⟨filled, answers⟩, mirrors⟩

/-- A single rejection, and nothing folded. -/
def Produced.IsRefusal (produced : Produced) (cause : Nat) (rows : Projection) : Prop :=
  ∃ ts r, produced = ⟨[⟨some cause, ts, .reject r⟩], rows⟩

theorem Produced.IsRefusal.sound (refusal : produced.IsRefusal cause rows) :
    produced.Sound cause := by
  obtain ⟨ts, r, rfl⟩ := refusal
  exact ⟨by simp, by simp [Entry.Answers, Entry.isNoop]⟩

theorem rejectCommand_refuses {type reason}
    (ran : rejectCommand cause command rows d type reason = some produced) :
    produced.IsRefusal cause rows := by
  unfold rejectCommand at ran
  split at ran
  · cases ran
  · cases ran
    exact ⟨_, _, rfl⟩

/-- An answer is that of one of the attempts, or a refusal. -/
theorem attemptFrom_inv {attempts}
    (ran : attemptFrom env cause command rows d attempts machines = (some produced, machines')) :
    (∃ a ∈ attempts, ∃ before after,
      dispatchOnce env cause command rows before a = (.ok produced, after)) ∨
    produced.IsRefusal cause rows := by
  induction attempts generalizing machines with
  | nil => cases ran
  | cons a later ih =>
    unfold attemptFrom at ran
    split at ran
    case h_1 once =>
      cases ran
      exact .inl ⟨a, by simp, _, _, once⟩
    case h_2 => cases ran
    case h_3 => exact .inr (rejectCommand_refuses (Prod.mk.inj ran).1)
    case h_4 =>
      split at ran
      · exact .inr (rejectCommand_refuses (Prod.mk.inj ran).1)
      · rcases ih ran with ⟨a, member, once⟩ | refusal
        · exact .inl ⟨a, by simp [member], once⟩
        · exact .inr refusal

theorem processCommand_inv
    (ran : processCommand env cause command rows machines d = (some produced, machines')) :
    (∃ i before after,
      dispatchOnce env cause command rows before (d.attempts i) = (.ok produced, after)) ∨
    produced.IsRefusal cause rows := by
  refine (attemptFrom_inv ran).imp_left ?_
  rintro ⟨a, member, before, after, once⟩
  obtain ⟨i, rfl⟩ := List.mem_ofFn.mp member
  exact ⟨i, before, after, once⟩

theorem processCommand_sound
    (ran : processCommand env cause command rows machines d = (some produced, machines')) :
    produced.Sound cause := by
  rcases processCommand_inv ran with ⟨i, before, after, once⟩ | refusal
  · exact (dispatchOnce_ok once).1
  · exact refusal.sound

end Spica
