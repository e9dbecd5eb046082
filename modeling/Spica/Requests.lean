import Spica.Anonymous
import Spica.Hook

/-! # Which request an answer is for

The command of a client carries the identity of a request, and the events that tell its outcome
echo it. Four handlers emit such events; everything else a dispatch does answers no request. A
handler refuses a command by ending in an error, and its attempt is thrown away with everything
it emitted and minted; only the creation of a flow whose name is taken answers with a rejection of
its own. So an answer with a rejection in it is that rejection alone, and it commits the rows it
found.
-/

namespace Spica

/-- The request an entry names. -/
def Entry.requestId (e : Entry) : Option RequestId :=
  match e.payload with
  | .event ev => ev.requestId
  | .command c => c.requestId
  | .reject r => some r.requestId
  | .noop => none

/-- The entry names no request, unless it is an event that tells the command's outcome. -/
def Entry.AnswersOnly (c : Command) (e : Entry) : Prop :=
  e.requestId = none ∨ ∃ ev, e.event? = some ev ∧ c.Acks ev

/-- Such an entry is no rejection. -/
theorem Entry.AnswersOnly.reject? {c} {e : Entry} (own : e.AnswersOnly c) : e.reject? = none := by
  obtain ⟨cause, ts, payload⟩ := e
  cases payload with
  | reject r =>
    rcases own with named | ⟨ev, isEvent, -⟩
    · cases named
    · cases isEvent
  | event | command | noop => rfl

namespace Handler

variable {asked : Command} {c : Ctx} {w w' : Work}

/-- A part of a dispatch adds entries that answer the given command or nothing. -/
def Adds (asked : Command) (w w' : Work) : Prop :=
  ∃ es, w'.out = w.out ++ es ∧ ∀ e ∈ es, e.AnswersOnly asked

theorem Adds.nothing (same : w'.out = w.out) : Adds asked w w' := ⟨[], by simp [same], by simp⟩

theorem Adds.one {e} (added : w'.out = w.out ++ [e]) (own : e.AnswersOnly asked) :
    Adds asked w w' := ⟨[e], added, by simpa using own⟩

theorem Adds.of_out {w''} (adds : Adds asked w' w'') (same : w'.out = w.out) :
    Adds asked w w'' := by
  obtain ⟨es, out, own⟩ := adds
  exact ⟨es, same ▸ out, own⟩

theorem Adds.trans {w''} (first : Adds asked w w') (rest : Adds asked w' w'') :
    Adds asked w w'' := by
  obtain ⟨es, out, own⟩ := first
  obtain ⟨fs, out', own'⟩ := rest
  refine ⟨es ++ fs, by rw [out', out, List.append_assoc], fun e member => ?_⟩
  rcases List.mem_append.mp member with member | member
  · exact own e member
  · exact own' e member

theorem interpret_adds (o : Op) {a} (own : o.AnswersOnly asked)
    (ran : interpret o c w = (.ok a, w')) : Adds asked w w' := by
  cases o with
  | ask | peek | nextGeneratedSeq =>
    have moved := congrArg (fun r => Work.out r.2) ran
    exact .nothing moved.symm
  | appendEvent e =>
    obtain ⟨r, txn, folded, noPanic, rfl⟩ := appendEvent_ok ran
    refine .one rfl ?_
    rcases own with named | ⟨ev, same, acks⟩
    · exact .inl named
    · cases same
      exact .inr ⟨e, rfl, acks⟩
  | appendCommand =>
    cases ran
    rcases own with named | ⟨ev, same, -⟩
    · exact .one rfl (.inl named)
    · cases same
  | reject r =>
    rcases own with named | ⟨ev, same, -⟩
    · cases named
    · cases same
  | mint | now | env | evalJsonata | cached | cache =>
    cases ran
    exact .nothing rfl

theorem run_adds {α : Type} {m : Handler α} {a : α} (uses : m.Uses (Op.AnswersOnly asked))
    (ran : m.run interpret c w = (.ok a, w')) : Adds asked w w' :=
  Prog.run_uses (fun _ => .nothing rfl) (fun _ _ _ => .trans)
    (fun o _ _ _ => interpret_adds o) uses ran

/-- The creation of a flow answers with a rejection of its own, before it emits, mints or folds
    anything, or with no rejection. -/
theorem run_flowCreate {p : CreateFlow} {u : Unit}
    (ran : (FlowElement.create p).run interpret c w = (.ok u, w')) :
    (∃ ts r, r.requestId = p.requestId ∧ w'.out = w.out ++ [⟨some c.cause, ts, .reject r⟩] ∧
      w'.txn.rows = w.txn.rows) ∨ Adds (.createFlow p) w w' := by
  unfold FlowElement.create at ran
  rw [Prog.run_bind] at ran
  obtain ⟨env, w₁, asked, ran⟩ := Eff.bind_ok_iff.mp ran
  cases asked
  split at ran
  · cases ran
  rw [Prog.run_bind] at ran
  obtain ⟨existing, w₂, read, ran⟩ := Eff.bind_ok_iff.mp ran
  rw [peekFlowByName, Prog.run_perform] at read
  have moved : w₂ = { w with
      txn := ((Txn.peek (.flowByName p.name)).run Txn.interpret c.toBackend w.txn).2 } :=
    (congrArg Prod.snd read).symm
  rw [Txn.run_peek] at moved
  subst moved
  split at ran
  · cases ran
    exact .inl ⟨_, _, rfl, rfl, rfl⟩
  · right
    -- a name that is free, or whose read failed
    refine Adds.of_out (run_adds ?_ ran) rfl
    refine Handler.AnswersOnly.uses ?_
    refine Anonymous.before .mint fun flowUid => Anonymous.before .mint fun versionUid => ?_
    refine Anonymous.before .now fun createdAt => ?_
    refine Command.Acks.before rfl fun _ => ?_
    exact Command.Acks.last rfl

end Handler

/-! ## Refused and accepted commands -/

/-- The answer is one rejection, of the command's own request, and nothing is folded. -/
def Produced.Refuses (produced : Produced) (cause : Nat) (c : Command) (rows : Projection) : Prop :=
  ∃ ts r, r.requestId = c.requestId.getD .nil ∧ produced = ⟨[⟨some cause, ts, .reject r⟩], rows⟩

/-- The answer has no rejection in it, and names no request but the command's own. -/
def Produced.Accepts (produced : Produced) (c : Command) : Prop :=
  ∀ e ∈ produced.entries, e.AnswersOnly c

/-- Whether the command is refused: by an error of an attempt, by a rejection the handler emits,
    or because every attempt met a fault. -/
def refusedFrom (env : Env) (cause : Nat) (c : Command) (rows : Projection) :
    List Attempt → MachineCache → Bool
  | [], _ => false
  | a :: later, machines =>
    match dispatchOnce env cause c rows machines a with
    | (.ok produced, _) => produced.entries.any fun e => e.reject?.isSome
    | (.error (.rejected ..), _) => true
    | (.error (.panicked _), _) => false
    | (.error (.unexpected _), machines) =>
      later.isEmpty || refusedFrom env cause c rows later machines

section deciding

variable {env : Env} {cause : Nat} {c : Command} {rows : Projection}
  {machines machines' : MachineCache} {produced : Produced} {d : Decision}

theorem dispatchOnce_answers {a : Attempt}
    (ran : dispatchOnce env cause c rows machines a = (.ok produced, machines')) :
    produced.Refuses cause c rows ∨ produced.Accepts c := by
  obtain ⟨w, -, returned, -, rfl, -⟩ := dispatchOnce_inv ran
  have accepts (adds : Handler.Adds c (.start rows machines) w) :
      Produced.Accepts ⟨w.out, w.txn.rows⟩ c := by
    obtain ⟨es, out, answers⟩ := adds
    have out : w.out = es := out
    subst out
    exact answers
  cases creates : c.isCreateFlow with
  | false =>
    exact .inr (accepts (Handler.run_adds (dispatchCommand_answersOnly creates).uses returned))
  | true =>
    cases c with
    | createFlow p =>
      rcases Handler.run_flowCreate returned with ⟨ts, r, own, out, same⟩ | adds
      · left
        refine ⟨ts, r, own, ?_⟩
        rw [out, same]
        rfl
      · exact .inr (accepts adds)
    | _ => cases creates

theorem rejectCommand_own {type reason}
    (ran : rejectCommand cause c rows d type reason = some produced) :
    produced.Refuses cause c rows := by
  unfold rejectCommand at ran
  split at ran
  · cases ran
  · cases ran
    exact ⟨_, _, rfl, rfl⟩

/-- A refused command is answered by its rejection alone, an accepted one without any. -/
theorem attemptFrom_answers {attempts}
    (ran : attemptFrom env cause c rows d attempts machines = (some produced, machines')) :
    if refusedFrom env cause c rows attempts machines then produced.Refuses cause c rows
    else produced.Accepts c := by
  induction attempts generalizing machines with
  | nil => cases ran
  | cons a later ih =>
    unfold attemptFrom at ran
    unfold refusedFrom
    split at ran
    case h_1 once =>
      cases ran
      rw [once]
      rcases dispatchOnce_answers once with refuses | accepts
      · obtain ⟨ts, r, own, rfl⟩ := refuses
        exact ⟨ts, r, own, rfl⟩
      · have none : (produced.entries.any fun e => e.reject?.isSome) = false := by
          simp only [List.any_eq_false, Bool.not_eq_true, Option.isSome_eq_false_iff,
            Option.isNone_iff_eq_none]
          exact fun e member => (accepts e member).reject?
        simpa [none] using accepts
    case h_2 => cases ran
    case h_3 once =>
      rw [once]
      exact rejectCommand_own (Prod.mk.inj ran).1
    case h_4 once =>
      rw [once]
      split at ran
      case isTrue last =>
        simp only [last, Bool.true_or, if_true]
        exact rejectCommand_own (Prod.mk.inj ran).1
      case isFalse more =>
        simp only [more, Bool.false_or]
        exact ih ran

end deciding

/-- The moves of clients and of the replica. -/
def Action.isOutside : Action → Bool
  | .clientAppend .. | .follow _ | .followerRestart => true
  | _ => false

namespace World

open Scenario

variable {env : Env} {w w' : World}

/-- Whether the command the leader is about to decide is refused. -/
def refused (env : Env) (w : World) (d : Decision) : Bool :=
  w.reading.any fun (next, c, machines) =>
    refusedFrom env next c w.storage.rows (List.ofFn d.attempts) machines

theorem outside_keeps (run : Run.Reach (World.step env) (fun _ a => a.isOutside = true) w w') :
    w'.storage = w.storage ∧ w'.proc = w.proc := by
  refine run.keeps (I := fun v => v.storage = w.storage ∧ v.proc = w.proc) ?_ ⟨rfl, rfl⟩
  intro v a v' same outside moved
  cases step_inv moved with
  | clientAppend | follow | followerRestart => exact same
  | _ => cases outside

/-- A refused command is answered by exactly one rejection, of its own request, and its commit
    moves the watermark only. An accepted one is answered without rejections. Every answer has an
    entry. -/
theorem refusal_has_no_effect {d : Decision} {w₁ w₂ w₃ : World}
    (dispatched : w.step env (.dispatch d) = some w₁)
    (meanwhile : Run.Reach (World.step env) (fun _ a => a.isOutside = true) w₁ w₂)
    (committed : w₂.step env .commit = some w₃) :
    ∃ next c machines answer, w.reading = some (next, c, machines) ∧ answer ≠ [] ∧
      w₁.log = w.log ++ (answer ++ [⟨some next, d.noopAt, .noop⟩]) ∧
      if w.refused env d then
        (∃ ts r, r.requestId = c.requestId.getD .nil ∧ answer = [⟨some next, ts, .reject r⟩]) ∧
          w₃.storage = { w.storage with lastProcessedPosition := w₁.log.length }
      else ∀ e ∈ answer, e.reject? = none := by
  obtain ⟨storage, proc⟩ := outside_keeps meanwhile
  cases step_inv dispatched with
  | @dispatch _ next leader cause ts c produced definitions here entry decided =>
    have reading := reading_eq here entry
    have sound := processCommand_sound decided
    have answers := attemptFrom_answers decided
    have refused : w.refused env d =
        refusedFrom env next c w.storage.rows (List.ofFn d.attempts) leader.definitions := by
      simp [World.refused, reading]
    refine ⟨next, c, leader.definitions, produced.entries, reading, sound.nonempty, rfl, ?_⟩
    rw [refused]
    split
    case isFalse accepted =>
      rw [if_neg accepted] at answers
      exact fun e member => (answers e member).reject?
    case isTrue isRefused =>
      rw [if_pos isRefused] at answers
      obtain ⟨at_, r, own, rfl⟩ := answers
      refine ⟨⟨at_, r, own, rfl⟩, ?_⟩
      cases step_inv committed with
      | commit there =>
        rw [proc] at there
        cases there
        rw [storage]
        simp [Storage.commit]

/-- The same flow is created twice, and the second command is about to be decided. -/
def taken : World :=
  after true (single pass)
    (appends [createFlow, createFlow] ++ starts 4 ++ [.dispatch decision, .commit, .skip])

theorem refusal_has_no_effect_taken :
    ∃ w₁ w₂, taken.step (host true (single pass)) (.dispatch decision) = some w₁ ∧
      w₁.step (host true (single pass)) .commit = some w₂ ∧
      taken.refused (host true (single pass)) decision = true ∧
      w₂.storage = { taken.storage with lastProcessedPosition := w₁.log.length } := by
  have goes : ((taken.step (host true (single pass)) (.dispatch decision)).bind
      fun w => w.step (host true (single pass)) .commit).isSome = true := by decide +kernel
  have refused : taken.refused (host true (single pass)) decision = true := by decide +kernel
  generalize taken = w at goes refused ⊢
  obtain ⟨w₂, goes⟩ := Option.isSome_iff_exists.mp goes
  obtain ⟨w₁, dispatched, committed⟩ := Option.bind_eq_some_iff.mp goes
  obtain ⟨next, c, machines, answer, -, -, -, effect⟩ :=
    refusal_has_no_effect dispatched .refl committed
  rw [if_pos refused] at effect
  exact ⟨w₁, w₂, dispatched, committed, refused, effect.2⟩

end World

end Spica
