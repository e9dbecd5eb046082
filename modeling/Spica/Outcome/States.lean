import Spica.Duty.Base
import Spica.Outcome.Cases

/-! # The answers of the state handlers -/

namespace Spica

open Handler

variable {env : Env} {cause : Nat} {s t : Draft}
variable {k : ObjectKind} {β : Type} {next : StatePath} {states out : Json}
    {owner : ObjectRef .thread} {assign : Option AssignObject} {scope : Variables}
    {end_ : Option Bool} {label : String} {d : State} {children : List RawObjectRef}

@[simp] theorem raw_typed (r : ObjectRef k) : r.raw.typed k = r := rfl

/-! ## Relays to a thread -/

namespace ThreadElement

variable {thread : ObjectRef .thread} {child : ObjectRef .activity}

theorem open_then {f : Unit → Handler β} {b}
    (gives : (open_ thread >>= f).Runs (does env cause) s b t) :
    s.rows.getThread thread ≠ none ∧ (f ()).Runs (does env cause) s b t := by
  unfold open_ at gives
  obtain ⟨_, m, first, rest⟩ := Prog.runs_bind.mp gives
  rw [getThread_then] at first
  cases found : s.rows.getThread thread with
  | none =>
    rw [found] at first
    exact first.elim
  | some row =>
    rw [found] at first
    obtain ⟨-, rfl⟩ := first
    exact ⟨by simp, rest⟩

theorem settledRow_then {f : Thread → Handler β} {b}
    (gives : (settledRow thread >>= f).Runs (does env cause) s b t) :
    ∃ row, s.rows.getThread thread = some row ∧ (f row).Runs (does env cause) s b t := by
  unfold settledRow at gives
  obtain ⟨row, m, first, rest⟩ := Prog.runs_bind.mp gives
  rw [getThread_then] at first
  cases found : s.rows.getThread thread with
  | none =>
    rw [found] at first
    exact first.elim
  | some row' =>
    rw [found] at first
    obtain ⟨rfl, rfl⟩ := first
    exact ⟨row, rfl, rest⟩

theorem afterChildCompleted_gives
    (gives : (afterChildCompleted thread child.raw).Runs (does env cause) s () t) :
    ∃ cs, s.rows.threadTold thread (s.rows.threadCompletion thread child) = some cs ∧
      s.Sends cause cs t := by
  unfold afterChildCompleted at gives
  obtain ⟨row, found, gives⟩ := settledRow_then gives
  unfold Projection.threadTold
  rw [found, Option.map_some]
  cases phase : row.status with
  | running =>
    refine ⟨_, rfl, ?_⟩
    unfold Projection.threadCompletion
    cases there : s.rows.getActivity child with
    | none | some act =>
      simp only [phase, getActivity_then, raw_typed, there, appendCommand_gives] at gives
      obtain ⟨ts, rfl⟩ := gives
      exact .one
  | completing | terminating =>
    simp only [phase, appendCommand_gives] at gives
    obtain ⟨ts, rfl⟩ := gives
    exact ⟨_, rfl, .one⟩
  | completed | terminated => simp [phase] at gives

theorem afterChildTerminated_gives
    (gives : (afterChildTerminated thread child.raw).Runs (does env cause) s () t) :
    ∃ cs, s.rows.threadTold thread (s.rows.threadTermination thread child) = some cs ∧
      s.Sends cause cs t := by
  unfold afterChildTerminated at gives
  obtain ⟨row, found, gives⟩ := settledRow_then gives
  unfold Projection.threadTold
  rw [found, Option.map_some]
  cases phase : row.status with
  | running =>
    simp only [phase, getActivity_then, raw_typed] at gives
    refine ⟨_, rfl, ?_⟩
    unfold Projection.threadTermination
    cases settled : settledReason (s.rows.getActivity child) with
    | none =>
      rw [settled] at gives
      obtain ⟨-, rfl⟩ := gives
      exact .refl
    | some reason =>
      simp only [settled, appendCommand_gives] at gives
      obtain ⟨ts, rfl⟩ := gives
      exact .one
  | completing | terminating =>
    simp only [phase, appendCommand_gives] at gives
    obtain ⟨ts, rfl⟩ := gives
    exact ⟨_, rfl, .one⟩
  | completed | terminated => simp [phase] at gives

end ThreadElement

/-! ## Closing -/

variable {act : Activity} {output : Json}

/-- The update keeps who the activity is, whether it is made or not. -/
theorem Asserted.same {update new} (asserted : Asserted env act update new)
    (kept : ∀ at_ b, update at_ = .ok b → act.Same b) : act.Same new := by
  unfold Asserted at asserted
  split at asserted
  · obtain ⟨at_, made⟩ := asserted
    exact kept at_ new made
  · rw [asserted]
    exact .refl act

theorem failState_gives {activity e} (gives : (failState activity e).Runs (does env cause) s () t) :
    s.Sends cause [.terminateState ⟨activity, .failed e⟩] t := by
  obtain ⟨ts, rfl⟩ := appendCommand_gives.mp gives
  exact .one

theorem closeCompleted_then {f : Unit → Handler β} {b}
    (gives : (closeCompleted act output >>= f).Runs (does env cause) s b t) :
    ∃ completed ts, Asserted env act (act.markCompleted output) completed ∧
      (Event.stateCompleted completed).Folds s.rows ∧
      (f ()).Runs (does env cause) (s.fold cause ts (.stateCompleted completed)) b t := by
  obtain ⟨_, m, closed, rest⟩ := Prog.runs_bind.mp gives
  unfold closeCompleted at closed
  simp only [debugAssert_then, appendEvent_gives] at closed
  obtain ⟨completed, closes, ts, folds, rfl⟩ := closed
  exact ⟨completed, ts, closes, folds, rest⟩

theorem transitionTo_gives (gives : (transitionTo act next output).Runs (does env cause) s () t) :
    s.Writes cause [.event (.stateTransitioned act.objectRef next),
      .command (.activateState ⟨act.execution, act.metadata.owner, next, output⟩)] t := by
  unfold transitionTo at gives
  simp only [appendEvent_then, appendCommand_gives] at gives
  obtain ⟨ts, folds, ts', rfl⟩ := gives
  exact .event folds (.command .refl)

theorem closeTerminated_gives (gives : (closeTerminated act).Runs (does env cause) s () t) :
    ∃ ds, Closes env act t.rows ds ∧ s.Writes cause ds t := by
  unfold closeTerminated at gives
  simp only [debugAssert_then, appendEvent_then] at gives
  obtain ⟨terminated, closes, ts, folds, relayed⟩ := gives
  have same : act.Same terminated := closes.same fun _ _ made => by
    obtain ⟨_, _, same, _⟩ := Activity.markTerminated_ok made
    exact same
  rw [same.objectRef] at relayed
  obtain ⟨cs, told, sends⟩ := ThreadElement.afterChildTerminated_gives relayed
  rw [← sends.same] at told
  exact ⟨_, .intro closes told, .event folds sends.writes⟩

theorem terminateLeaf_gives (gives : (terminateLeaf act).Runs (does env cause) s () t) :
    ∃ ds, Closes env act t.rows ds ∧ s.Writes cause ds t :=
  closeTerminated_gives (ThreadElement.open_then gives).2

theorem failCompleting_gives {reason : TerminationReason}
    (gives : (failCompleting act reason).Runs (does env cause) s () t) :
    ∃ ds, (Ending.breaks reason).Emits env act t.rows ds ∧ s.Writes cause ds t := by
  obtain ⟨-, gives⟩ := ThreadElement.open_then gives
  simp only [debugAssert_then, appendEvent_then] at gives
  obtain ⟨terminating, opens, ts, folds, closed⟩ := gives
  obtain ⟨ds, ⟨closes, told⟩, writes⟩ := closeTerminated_gives closed
  have same : act.Same terminating := opens.same fun _ _ made => (Activity.markTerminating_ok made).2.1
  rw [same.objectRef, same.owner] at told
  exact ⟨_, .breaks opens closes told, .event folds writes⟩

/-! ## Assignments -/

theorem evalJson_object {fields v vars}
    (yields : Yields env (evalJson (.object fields) states vars) (.ok v)) :
    ∃ out, v = .object out := by
  obtain ⟨cause, s, t, gives⟩ := yields
  unfold evalJson at gives
  obtain ⟨r, m, -, rest⟩ := Prog.runs_bind.mp gives
  cases r with
  | error e => cases rest.1
  | ok out =>
    obtain ⟨same, -⟩ := rest
    exact ⟨out, Except.ok.inj same⟩

theorem applyAssign_then {f : Except ExecutionError Variables → Handler β} {b}
    (gives : (applyAssign owner assign states scope >>= f).Runs (does env cause) s b t) :
    ∃ r ds m, Assigns env owner states scope assign r ds ∧ s.Writes cause ds m ∧
      m.rows.children = s.rows.children ∧ (f r).Runs (does env cause) m b t := by
  obtain ⟨r, m, first, rest⟩ := Prog.runs_bind.mp gives
  unfold applyAssign at first
  cases assign with
  | none =>
    obtain ⟨rfl, rfl⟩ := first
    exact ⟨_, _, m, .nothing, .refl, rfl, rest⟩
  | some a =>
    obtain ⟨v, evaluated, first⟩ := (Reads.evalJson _ _ _).then first
    cases v with
    | error e =>
      obtain ⟨rfl, rfl⟩ := first
      exact ⟨_, _, m, .failed evaluated, .refl, rfl, rest⟩
    | ok v =>
      obtain ⟨fields, rfl⟩ := evalJson_object evaluated
      dsimp only at first
      cases fields with
      | nil =>
        obtain ⟨rfl, rfl⟩ := first
        exact ⟨_, _, m, .empty evaluated, .refl, rfl, rest⟩
      | cons field fields =>
        simp only [List.isEmpty_cons, Bool.false_eq_true, if_false, appendEvent_then] at first
        obtain ⟨ts, folds, rfl, rfl⟩ := first
        exact ⟨_, _, _, .bound (by simp) evaluated, .event folds .refl, rfl, rest⟩

/-! A state that finishes, and a catcher, assign and project in the same way, and go on from the
output or from the failure of either. -/

/-- What a handler makes of a projected output. -/
def onProjected {β : Type} (fails : ExecutionError → Handler β) (goes : Json → Handler β) :
    Except ExecutionError Json → Handler β
  | .error e => fails e
  | .ok out => goes out

/-- Assign and project, then whatever the handler makes of the two. -/
def projecting {β : Type} (owner : ObjectRef .thread) (assign : Option AssignObject)
    (output : Option Json) (states : Json) (scope : Variables) (fallback : Json)
    (fails : ExecutionError → Handler β) (goes : Json → Handler β) : Handler β := do
  match ← applyAssign owner assign states scope with
  | .error e => fails e
  | .ok scope => projectOutput output states scope fallback >>= onProjected fails goes

section projecting

variable {output : Option Json} {fallback : Json} {fails : ExecutionError → Handler β}
  {goes : Json → Handler β}

theorem projecting_of (output : Option Json) (fallback : Json)
    (fails : ExecutionError → Handler β) (goes : Json → Handler β) {f}
    (failed : ∀ e, f (.error e) = fails e) (went : ∀ scope, f (.ok scope) =
      (projectOutput output states scope fallback >>= onProjected fails goes)) :
    (applyAssign owner assign states scope >>= f) =
      projecting owner assign output states scope fallback fails goes := by
  unfold projecting
  congr 1
  funext r
  cases r with
  | error e => exact failed e
  | ok scope => exact went scope

theorem runs_projecting {τ : Type} {D : (o : Op) → τ → o.Ret → τ → Prop} {u v b}
    (output : Option Json) (fallback : Json) (fails : ExecutionError → Handler β)
    (goes : Json → Handler β) {f}
    (gives : (applyAssign owner assign states scope >>= f).Runs D u b v)
    (failed : ∀ e, f (.error e) = fails e) (went : ∀ scope, f (.ok scope) =
      (projectOutput output states scope fallback >>= onProjected fails goes)) :
    (projecting owner assign output states scope fallback fails goes).Runs D u b v :=
  projecting_of output fallback fails goes failed went ▸ gives

theorem projecting_gives {b : β}
    (gives : (projecting owner assign output states scope fallback fails goes).Runs
      (does env cause) s b t) :
    ∃ r ds m, Projects env owner states scope assign output fallback r ds ∧ s.Writes cause ds m ∧
      m.rows.children = s.rows.children ∧
      (onProjected fails goes r).Runs (does env cause) m b t := by
  obtain ⟨r, ds, m, assigns, writes, children, rest⟩ := applyAssign_then gives
  cases r with
  | error e => exact ⟨_, ds, m, .unassigned assigns, writes, children, rest⟩
  | ok scope' =>
    obtain ⟨q, projected, rest⟩ := (Reads.projectOutput _ _ _ _).then rest
    exact ⟨q, ds, m, .assigned assigns projected, writes, children, rest⟩

end projecting

/-! ## Completing -/

variable {vars : Variables}

theorem closeAndMove_gives
    (gives : (closeCompleted act out >>= fun _ => transitionTo act next out).Runs
      (does env cause) s () t) :
    ∃ ds, (Ending.moves next out).Emits env act t.rows ds ∧ s.Writes cause ds t := by
  obtain ⟨completed, ts, closes, folds, rest⟩ := closeCompleted_then gives
  exact ⟨_, .moves closes, .event folds (transitionTo_gives rest)⟩

theorem closeAndEnd_gives (gives : (closeCompleted act out >>= fun _ =>
      appendCommand (.completeThread ⟨act.metadata.owner, out⟩)).Runs (does env cause) s () t) :
    ∃ ds, (Ending.ends out).Emits env act t.rows ds ∧ s.Writes cause ds t := by
  obtain ⟨completed, ts, closes, folds, rest⟩ := closeCompleted_then gives
  obtain ⟨ts', rfl⟩ := appendCommand_gives.mp rest
  exact ⟨_, .ends closes, .event folds (.command .refl)⟩

/-- How a Pass, Wait or Task state goes on from its output. -/
def goesOn (next : Option String) (end_ : Option Bool) (act : Activity) (out : Json) :
    Handler Unit :=
  if end_ = some true then
    closeCompleted act out >>= fun _ => appendCommand (.completeThread ⟨act.metadata.owner, out⟩)
  else next.elim (failCompleting act (.failed (.runtime .noTerminal))) fun next =>
    closeCompleted act out >>= fun _ => transitionTo act (act.statePath.sibling next) out

theorem finishCompleting_eq {output next} :
    finishCompleting assign output next end_ act vars =
      projecting act.metadata.owner assign output
        (finishStates act (some (act.rawOutput.getD act.rawInput))).build vars
        (act.rawOutput.getD act.rawInput) (failState act.objectRef) (goesOn next end_ act) := by
  unfold finishCompleting processFinish
  rw [Prog.bind_assoc]
  refine projecting_of _ _ _ _ (fun _ => rfl) fun scope => ?_
  dsimp only
  rw [Prog.bind_assoc]
  congr 1
  funext r
  cases r with
  | error e => rfl
  | ok out =>
    dsimp only [onProjected, goesOn]
    by_cases ends : end_ = some true
    · simp only [ends, if_true]
      rfl
    · simp only [ends, if_false]
      cases next <;> rfl

theorem goesOn_gives {next} (gives : (goesOn next end_ act out).Runs (does env cause) s () t) :
    ∃ ds, (routeOf next end_ act out).Emits env act t.rows ds ∧ s.Writes cause ds t := by
  unfold goesOn at gives
  unfold routeOf
  split at gives
  · next ends =>
      rw [if_pos ends]
      exact closeAndEnd_gives gives
  · next goes =>
      rw [if_neg goes]
      cases next with
      | some next => exact closeAndMove_gives gives
      | none => exact failCompleting_gives gives

theorem finishCompleting_gives {output next}
    (gives : (finishCompleting assign output next end_ act vars).Runs (does env cause) s () t) :
    ∃ as ds ending, Finishes env act vars
      (finishStates act (some (act.rawOutput.getD act.rawInput))).build assign output
      (act.rawOutput.getD act.rawInput) (some ∘ routeOf next end_ act) as ending ∧
      ending.Emits env act t.rows ds ∧ s.Writes cause (as ++ ds) t := by
  rw [finishCompleting_eq] at gives
  obtain ⟨r, as, m, projects, writes, -, rest⟩ := projecting_gives gives
  cases r with
  | error e =>
    exact ⟨as, _, .fails e, ⟨_, projects, rfl⟩, .fails,
      writes.append (failState_gives rest).writes⟩
  | ok out =>
    obtain ⟨ds, emits, written⟩ := goesOn_gives rest
    exact ⟨as, ds, _, ⟨_, projects, rfl⟩, emits, writes.append written⟩

/-- A Choice resolves its rule, and finishes with what that says. -/
def chosen (c : ChoiceState) (act : Activity) (vars : Variables) :
    Except ExecutionError (Option AssignObject × Option Json × String) → Handler Unit
  | .error e => failState act.objectRef e
  | .ok (assign, output, next) => projecting act.metadata.owner (assign.or c.assign)
      (output.or c.output) (finishStates act none).build vars act.rawInput
      (failState act.objectRef) fun out =>
        closeCompleted act out >>= fun _ => transitionTo act (act.statePath.sibling next) out

theorem choiceAfterCompleting_eq {c} :
    choiceAfterCompleting c act vars =
      (resolveChoice c (finishStates act none).build vars act.statePath.stateName >>=
        chosen c act vars) := by
  unfold choiceAfterCompleting processChoice
  rw [Prog.bind_assoc]
  congr 1
  funext r
  cases r with
  | error e => rfl
  | ok taken =>
    obtain ⟨assign, output, next⟩ := taken
    dsimp only [chosen]
    rw [Prog.bind_assoc]
    refine projecting_of _ _ _ _ (fun _ => rfl) fun scope => ?_
    dsimp only
    rw [Prog.bind_assoc]
    congr 1
    funext r
    cases r <;> rfl

theorem choiceAfterCompleting_gives {c}
    (gives : (choiceAfterCompleting c act vars).Runs (does env cause) s () t) :
    ∃ as ds ending, Concludes env (.choice c) act vars as ending ∧
      ending.Emits env act t.rows ds ∧ s.Writes cause (as ++ ds) t := by
  rw [choiceAfterCompleting_eq] at gives
  obtain ⟨r, resolved, gives⟩ := (Reads.resolveChoice _ _ _ _).then gives
  cases r with
  | error e => exact ⟨[], _, .fails e, ⟨_, resolved, rfl, rfl⟩, .fails, (failState_gives gives).writes⟩
  | ok taken =>
    obtain ⟨assign, output, next⟩ := taken
    obtain ⟨r, as, m, projects, writes, -, rest⟩ := projecting_gives gives
    cases r with
    | error e =>
      exact ⟨as, _, .fails e, ⟨_, resolved, _, projects, rfl⟩, .fails,
        writes.append (failState_gives rest).writes⟩
    | ok out =>
      obtain ⟨ds, emits, written⟩ := closeAndMove_gives rest
      exact ⟨as, ds, _, ⟨_, resolved, _, projects, rfl⟩, emits, writes.append written⟩

theorem succeedAfterCompleting_gives {c : SucceedState}
    (gives : (succeedAfterCompleting c act vars).Runs (does env cause) s () t) :
    ∃ ds ending, Concludes env (.succeed c) act vars [] ending ∧
      ending.Emits env act t.rows ds ∧ s.Writes cause ds t := by
  unfold succeedAfterCompleting at gives
  have reads : Reads (processSucceed c act vars) := .projectOutput _ _ _ _
  obtain ⟨r, processed, rest⟩ := reads.then gives
  cases r with
  | error e =>
    exact ⟨_, .fails e, ⟨rfl, _, processed, rfl⟩, .fails, (failState_gives rest).writes⟩
  | ok out =>
    obtain ⟨-, rest⟩ := ThreadElement.open_then rest
    obtain ⟨completed, ts, closes, folds, rest⟩ := closeCompleted_then rest
    obtain ⟨cs, told, sends⟩ := ThreadElement.afterChildCompleted_gives rest
    rw [← sends.same] at told
    exact ⟨_, .succeeds out, ⟨rfl, _, processed, rfl⟩, .succeeds closes told,
      .event folds sends.writes⟩

theorem failAfterCompleting_gives {c}
    (gives : (failAfterCompleting c act vars).Runs (does env cause) s () t) :
    ∃ ds ending, Concludes env (.fail c) act vars [] ending ∧
      ending.Emits env act t.rows ds ∧ s.Writes cause ds t := by
  unfold failAfterCompleting at gives
  obtain ⟨r, processed, rest⟩ := (Reads.processFail _ _ _).then gives
  cases r with
  | error e =>
    exact ⟨_, .fails e, ⟨rfl, _, processed, rfl⟩, .fails, (failState_gives rest).writes⟩
  | ok reason =>
    obtain ⟨ds, emits, written⟩ := failCompleting_gives rest
    exact ⟨ds, .breaks reason, ⟨rfl, _, processed, rfl⟩, emits, written⟩

/-- How a drained fan-out state goes on from its output. -/
def fanOutGoesOn (label : String) (next : Option String) (end_ : Option Bool) (act : Activity)
    (out : Json) : Handler Unit :=
  closeCompleted act out >>= fun _ =>
    if end_ = some true then appendCommand (.completeThread ⟨act.metadata.owner, out⟩)
    else next.elim (panicked s!"{label} state {act.objectRef} declares neither Next nor End")
      fun next => transitionTo act (act.statePath.sibling next) out

theorem fanOutGoesOn_gives {next : Option String}
    (gives : (fanOutGoesOn label next end_ act out).Runs (does env cause) s () t) :
    ∃ ds ending, fanOutRoute next end_ act out = some ending ∧ ending.Emits env act t.rows ds ∧
      s.Writes cause ds t := by
  unfold fanOutGoesOn at gives
  unfold fanOutRoute
  by_cases ends : end_ = some true
  · simp only [ends, if_true] at gives ⊢
    obtain ⟨ds, emits, written⟩ := closeAndEnd_gives gives
    exact ⟨ds, _, rfl, emits, written⟩
  · simp only [ends, if_false] at gives ⊢
    cases next with
    | some next =>
      obtain ⟨ds, emits, written⟩ := closeAndMove_gives gives
      exact ⟨ds, _, rfl, emits, written⟩
    | none =>
      obtain ⟨_, _, _, _, never⟩ := closeCompleted_then gives
      exact never.elim

theorem fanOutAfterCompleting_gives {output : Option Json} {next}
    (gives : (fanOutAfterCompleting label assign output next end_ act vars).Runs
      (does env cause) s () t) :
    s.rows.getChildren act.objectRef.raw = [] ∧ ∃ as ds ending, Finishes env act vars
      (finishStates act (some (act.rawOutput.getD (.array [])))).build assign output
      (act.rawOutput.getD (.array [])) (fanOutRoute next end_ act) as ending ∧
      ending.Emits env act t.rows ds ∧ s.Writes cause (as ++ ds) t := by
  unfold fanOutAfterCompleting at gives
  obtain ⟨row, found, gives⟩ := Prog.runs_found getActivity_then gives id
  simp only [Option.isNone_some, Bool.false_eq_true, if_false, getChildren_then] at gives
  obtain ⟨children, perm, gives⟩ := gives
  cases children with
  | cons child rest => exact gives.elim
  | nil =>
  refine ⟨List.nil_perm.mp perm, ?_⟩
  have finishes := runs_projecting output (act.rawOutput.getD (.array [])) (failState act.objectRef)
    (fanOutGoesOn label next end_ act) gives (fun _ => rfl) (fun _ => by cases next <;> rfl)
  obtain ⟨r, as, m, projects, writes, -, rest⟩ := projecting_gives finishes
  cases r with
  | error e =>
    exact ⟨as, _, .fails e, ⟨_, projects, rfl⟩, .fails,
      writes.append (failState_gives rest).writes⟩
  | ok out =>
    obtain ⟨ds, ending, route, emits, written⟩ := fanOutGoesOn_gives rest
    exact ⟨as, ds, ending, ⟨_, projects, route⟩, emits, writes.append written⟩

/-- The completing step of any state. -/
theorem afterCompleting_gives
    (gives : ((handlerFor d).afterCompleting act vars).Runs (does env cause) s () t) :
    (d.fansOut → s.rows.getChildren act.objectRef.raw = []) ∧
      ∃ as ds ending, Concludes env d act vars as ending ∧ ending.Emits env act t.rows ds ∧
        s.Writes cause (as ++ ds) t := by
  cases d with
  | pass c => exact ⟨by rintro ⟨⟩, finishCompleting_gives gives⟩
  | wait c => exact ⟨by rintro ⟨⟩, finishCompleting_gives gives⟩
  | task c => exact ⟨by rintro ⟨⟩, finishCompleting_gives gives⟩
  | choice c => exact ⟨by rintro ⟨⟩, choiceAfterCompleting_gives gives⟩
  | succeed c =>
    obtain ⟨ds, ending, concludes, emits, writes⟩ := succeedAfterCompleting_gives gives
    exact ⟨by rintro ⟨⟩, [], ds, ending, concludes, emits, writes⟩
  | fail c =>
    obtain ⟨ds, ending, concludes, emits, writes⟩ := failAfterCompleting_gives gives
    exact ⟨by rintro ⟨⟩, [], ds, ending, concludes, emits, writes⟩
  | parallel c =>
    obtain ⟨drained, rest⟩ := fanOutAfterCompleting_gives gives
    exact ⟨fun _ => drained, rest⟩
  | map c =>
    obtain ⟨drained, rest⟩ := fanOutAfterCompleting_gives gives
    exact ⟨fun _ => drained, rest⟩

/-! ## Terminating -/

/-- One command per child of a kind. -/
theorem each_cancel {f : RawObjectRef → Command}
    (cancels : ∀ child : RawObjectRef, child.kind = k → f child = cancelOf child)
    (gives : (Prog.each (fun child => appendCommand (f child))
      (children.filter fun child => child.kind = k)).Runs (does env cause) s () t) :
    s.Sends cause ((children.filter fun child => child.kind = k).map cancelOf) t := by
  have sends := each_command _ gives
  rwa [List.map_congr_left fun child mem => cancels child (by simpa using (List.mem_filter.mp mem).2)]
    at sends

theorem cancelTasks_gives {read : Except StorageError (List RawObjectRef)}
    (isRead : read = .ok children)
    (gives : (cancelTasks (taskChildren read)).Runs (does env cause) s () t) :
    s.Sends cause ((children.filter fun child => child.kind = .task).map cancelOf) t := by
  subst isRead
  refine each_cancel (fun child kind => ?_) gives
  simp [cancelOf, kind]

theorem taskAfterTerminating_gives {c : TaskState}
    (gives : (taskAfterTerminating act).Runs (does env cause) s () t) :
    ∃ ds, Terminates env (.task c) act s.rows t.rows ds ∧ s.Writes cause ds t := by
  unfold taskAfterTerminating at gives
  simp only [peekChildren_then] at gives
  obtain ⟨children, perm, gives⟩ := gives
  obtain ⟨_, m, cancelled, rest⟩ := Prog.runs_bind.mp gives
  have sends := cancelTasks_gives rfl cancelled
  have picks : Picks s.rows act.objectRef.raw .task _ := ⟨children, perm, rfl⟩
  cases pending : children.filter fun child => decide (child.kind = .task) with
  | nil =>
    rw [pending] at sends picks
    simp only [taskChildren, pending, List.isEmpty_nil, if_true] at rest
    obtain ⟨ds, closes, writes⟩ := closeTerminated_gives (ThreadElement.open_then rest).2
    exact ⟨ds, ⟨_, picks, .inl ⟨rfl, closes⟩⟩, sends.writes.append writes⟩
  | cons child others =>
    rw [pending] at sends picks
    simp only [taskChildren, pending, List.isEmpty_cons, Bool.false_eq_true, if_false] at rest
    obtain ⟨-, rfl⟩ := rest
    exact ⟨_, ⟨_, picks, .inr ⟨by simp, rfl⟩⟩, sends.writes⟩

theorem fanOutAfterTerminating_gives
    (gives : (fanOutAfterTerminating label act).Runs (does env cause) s () t) :
    ∃ ds, (s.rows.getChildren act.objectRef.raw = [] ∧ Closes env act t.rows ds ∨
        s.rows.getChildren act.objectRef.raw ≠ [] ∧
          ∃ cs, Picks s.rows act.objectRef.raw .thread cs ∧ ds = cs.map .command) ∧
      s.Writes cause ds t := by
  unfold fanOutAfterTerminating at gives
  obtain ⟨row, found, gives⟩ := Prog.runs_found getActivity_then gives id
  simp only [Option.isNone_some, Bool.false_eq_true, if_false, getChildren_then] at gives
  obtain ⟨children, perm, gives⟩ := gives
  cases children with
  | nil =>
    obtain ⟨ds, closes, writes⟩ := closeTerminated_gives (ThreadElement.open_then gives).2
    exact ⟨ds, .inl ⟨List.nil_perm.mp perm, closes⟩, writes⟩
  | cons child others =>
    have sends := each_cancel (fun child kind => by simp [cancelOf, kind]) gives
    refine ⟨_, .inr ⟨fun none => ?_, _, ⟨_, perm, rfl⟩, rfl⟩, sends.writes⟩
    rw [none] at perm
    exact absurd (List.perm_nil.mp perm) (by simp)

/-- The terminating step of any state. -/
theorem afterTerminating_gives
    (gives : ((handlerFor d).afterTerminating act).Runs (does env cause) s () t) :
    ∃ ds, Terminates env d act s.rows t.rows ds ∧ s.Writes cause ds t := by
  cases d with
  | pass | wait | choice | succeed | fail => exact terminateLeaf_gives gives
  | task c => exact taskAfterTerminating_gives gives
  | parallel | map => exact fanOutAfterTerminating_gives gives

/-! ## Entering -/

theorem processInput_reads (d : State) (act : Activity) (vars : Variables) (states : Json)
    (at_ : Timestamp) : Reads ((handlerFor d).processInput act vars states at_) := by
  cases d with
  | pass | choice | succeed | fail => exact .pure _
  | wait c =>
    refine .bind (.resolveWaitDeadline _ _ _ _) fun r => ?_
    cases r <;> exact .pure _
  | task c => exact .taskProcessInput _ _ _ _ at_
  | parallel c => exact .parallelProcessInput _ _ _ _ at_
  | map c =>
    refine .bind (.resolveMapItems _ _ _ _) fun r => ?_
    cases r with
    | error e => exact .pure _
    | ok items =>
      refine .bind (.resolveMaxConcurrency _ _ _) fun r => ?_
      cases r <;> exact .pure _

/-- What entering any state asks for. -/
theorem afterActivated_gives {r}
    (gives : ((handlerFor d).afterActivated act vars states).Runs (does env cause) s r t) :
    ∃ ds, Launches env d act vars states s.rows.nextGeneratedSeq ds r ∧ s.Writes cause ds t := by
  cases d with
  | pass | wait | choice | succeed | fail =>
    obtain ⟨rfl, rfl⟩ := gives
    exact ⟨[], ⟨rfl, rfl⟩, .refl⟩
  | task c =>
    have gives : (taskAfterActivated c act vars states).Runs (does env cause) s r t := gives
    unfold taskAfterActivated at gives
    obtain ⟨at_, gives⟩ := now_then.mp gives
    obtain ⟨resolved, yields, gives⟩ := (Reads.resolveTaskDeadline _ _ _ _).then gives
    simp only [mint_then, nextGeneratedSeq_then, appendCommand_then, Prog.runs_pure] at gives
    obtain ⟨uid, ts, rfl, rfl⟩ := gives
    exact ⟨_, ⟨at_, uid, resolved, yields, rfl, rfl⟩, .take (.command .refl)⟩
  | parallel c =>
    have gives : (parallelAfterActivated c act vars states).Runs (does env cause) s r t := gives
    unfold parallelAfterActivated at gives
    cases branches : c.branches.isEmpty with
    | true =>
      simp only [branches, if_true, appendCommand_then, Prog.runs_pure] at gives
      obtain ⟨ts, rfl, rfl⟩ := gives
      exact ⟨_, ⟨rfl, by rw [branches, if_pos rfl]⟩, .command .refl⟩
    | false =>
      simp only [branches, Bool.false_eq_true, if_false] at gives
      obtain ⟨_, m, spawned, rfl, rfl⟩ := Prog.runs_bind.mp gives
      have sends := each_command _ spawned
      refine ⟨_, ⟨rfl, by rw [branches, if_neg (by simp)]⟩, ?_⟩
      have writes := sends.writes
      rwa [List.map_map] at writes
  | map c =>
    have gives : (mapAfterActivated c act vars states).Runs (does env cause) s r t := gives
    unfold mapAfterActivated at gives
    unfold Launches
    dsimp only
    cases kind : act.activityState with
    | some state =>
      cases state with
      | map progress =>
        simp only [kind] at gives ⊢
        obtain ⟨_, m, spawned, gives⟩ := Prog.runs_bind.mp gives
        have writes : s.Writes cause _ m := (each_command _ spawned).writes
        by_cases none : progress.total = 0
        · simp only [none, if_true, appendCommand_then, Prog.runs_pure] at gives
          obtain ⟨ts, rfl, rfl⟩ := gives
          exact ⟨_, ⟨rfl, rfl⟩, writes.append (by rw [if_pos none]; exact .command .refl)⟩
        · simp only [none, if_false, Prog.runs_pure] at gives
          obtain ⟨rfl, rfl⟩ := gives
          exact ⟨_, ⟨rfl, rfl⟩, writes.append (by rw [if_neg none]; exact .refl)⟩
      | parallel | wait =>
        simp only [kind] at gives ⊢
        obtain ⟨rfl, rfl⟩ := gives
        exact ⟨_, ⟨rfl, rfl⟩, .refl⟩
    | none =>
      simp only [kind] at gives ⊢
      obtain ⟨rfl, rfl⟩ := gives
      exact ⟨_, ⟨rfl, rfl⟩, .refl⟩

end Spica
