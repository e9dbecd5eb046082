import Spica.Outcome.Dispatch

/-! # Expressions with given values

The answers of the handlers leave open what an expression evaluates to. Here the values are given:
the library's answer to the first evaluation of a dispatch, to the second, and so on. They decide
what a finish assigns, and whether it fails afterwards.
-/

namespace Spica

/-- The values of the expressions a dispatch evaluates, by their number. -/
abbrev Valuation : Type := Nat → String → Json → Variables → Except String Json

section values

variable {α β : Type} {jsonata : Valuation}

/-- The value of a program that only evaluates, from the given evaluation on, and the number of the
    next one. A panic has none. -/
def Handler.valueOf (jsonata : Valuation) : Handler α → Nat → Option (α × Nat)
  | .ret a, n => some (a, n)
  | .fail _, _ => none
  | .op (.evalJsonata expr states vars) k, n =>
    Handler.valueOf jsonata (k (jsonata n expr states vars)) (n + 1)
  | .op _ _, _ => none

@[simp] theorem Handler.valueOf_pure (a : α) (n : Nat) :
    Handler.valueOf jsonata (pure a) n = some (a, n) := rfl

theorem Evaluates.valueOf_bind {m : Handler α} {f : α → Handler β} (evaluates : Evaluates m)
    (n : Nat) : Handler.valueOf jsonata (m >>= f) n =
      (Handler.valueOf jsonata m n).bind fun r => Handler.valueOf jsonata (f r.1) r.2 := by
  induction m generalizing n with
  | ret | fail => rfl
  | op o k ih =>
    obtain ⟨isEval, rest⟩ := evaluates
    cases o with
    | evalJsonata expr states vars => exact ih _ (rest _) (n + 1)
    | _ => cases isEval

end values

/-! ## Runs under a valuation -/

/-- A draft, and the number of the next evaluation. -/
structure Trial where
  draft : Draft
  evals : Nat

/-- An evaluation has its value and counts; nothing else counts. -/
def Op.Counts (jsonata : Valuation) : (o : Op) → Nat → o.Ret → Nat → Prop
  | .evalJsonata expr states vars, n, r, m => r = jsonata n expr states vars ∧ m = n + 1
  | _, n, _, m => m = n

namespace Handler

/-- What an operation can do under a valuation. -/
def tries (env : Env) (cause : Nat) (jsonata : Valuation) (o : Op) (s : Trial) (r : o.Ret)
    (t : Trial) : Prop :=
  does env cause o s.draft r t.draft ∧ o.Counts jsonata s.evals r t.evals

theorem counts_sound {c} (o : Op) {w w' a} (ran : interpret o c w = (.ok a, w')) :
    o.Counts c.jsonata w.evals a w'.evals := by
  cases o with
  | evalJsonata | mint | now | env | cached | cache | appendCommand | reject =>
    cases ran
    first | rfl | exact ⟨rfl, rfl⟩
  | ask | peek | nextGeneratedSeq =>
    exact (congrArg Work.evals (congrArg Prod.snd ran)).symm
  | appendEvent e =>
    have ran : Handler.appendEvent e c w = (.ok a, w') := ran
    rw [appendEvent_run] at ran
    split at ran <;> cases ran <;> rfl

end Handler

open Handler

variable {env : Env} {cause : Nat} {jsonata : Valuation} {s t : Trial} {α β : Type}

/-- A dispatch without faults that answers is a run under the attempt's valuation. -/
theorem dispatchOnce_tries {command rows machines machines' a produced}
    (ff : a.toBackend.FaultFree)
    (ran : dispatchOnce env cause command rows machines a = (.ok produced, machines')) :
    ∃ n, (dispatchCommand command).Runs (tries env cause a.jsonata) ⟨⟨rows, [], machines⟩, 0⟩ ()
      ⟨⟨produced.rows, produced.entries, machines'⟩, n⟩ := by
  obtain ⟨w, -, returned, -, rfl, rfl⟩ := dispatchOnce_inv ran
  have ff : (a.ctx env cause).toBackend.FaultFree := ff
  exact ⟨w.evals, (Prog.runs_sound (fun w : Work => (⟨w.draft, w.evals⟩ : Trial)) (I := fun _ => True)
    (fun o _ _ _ _ ran => ⟨⟨does_sound ff o ran, counts_sound o ran⟩, trivial⟩) _ trivial
    returned).1⟩

/-- Under a valuation or not, the draft is led the same way. -/
theorem runs_does {m : Handler α} {a} (run : m.Runs (tries env cause jsonata) s a t) :
    m.Runs (does env cause) s.draft a t.draft := run.map Trial.draft fun _ _ _ _ => And.left

/-- A program that only evaluates returns its value, and leaves the draft alone. -/
theorem Evaluates.tries {m : Handler α} {a} (evaluates : Evaluates m)
    (run : m.Runs (tries env cause jsonata) s a t) :
    t.draft = s.draft ∧ valueOf jsonata m s.evals = some (a, t.evals) := by
  refine ⟨evaluates.reads.same (runs_does run), ?_⟩
  induction m generalizing s with
  | ret b =>
    obtain ⟨rfl, rfl⟩ := run
    rfl
  | fail => cases run
  | op o k ih =>
    obtain ⟨isEval, rest⟩ := evaluates
    obtain ⟨r, m, ⟨-, counts⟩, run⟩ := run
    cases o with
    | evalJsonata expr states vars =>
      obtain ⟨rfl, next⟩ := counts
      have later := ih _ (rest _) run
      rw [next] at later
      exact later
    | _ => cases isEval

/-! ## What a finish applies -/

/-- Assign yields a variable, and Output, evaluated under it, has no value. -/
def torn (assign : Option AssignObject) (output : Option Json) (states : Json) (vars : Variables) :
    Handler Bool :=
  match assign, output with
  | some assign, some output => do
    match ← evalJson (.object assign.fields) states vars with
    | .ok (.object (field :: fields)) =>
      match ← evalJson output states (vars.bindAll (field :: fields)) with
      | .ok _ => pure false
      | .error _ => pure true
    | _ => pure false
  | _, _ => pure false

/-- So it is for what the completing step of a state applies: its own Assign and Output, those of the
    rule a Choice takes before its own. -/
def State.tears (act : Activity) (vars : Variables) : State → Handler Bool
  | .pass s => torn s.assign s.output
      (finishStates act (some (act.rawOutput.getD act.rawInput))).build vars
  | .wait s => torn s.assign s.output
      (finishStates act (some (act.rawOutput.getD act.rawInput))).build vars
  | .task s => torn s.assign s.output
      (finishStates act (some (act.rawOutput.getD act.rawInput))).build vars
  | .choice s => do
    let states := (finishStates act none).build
    match ← resolveChoice s states vars act.statePath.stateName with
    | .error _ => pure false
    | .ok (assign, output, _) => torn (assign.or s.assign) (output.or s.output) states vars
  | .parallel s => torn s.assign s.output
      (finishStates act (some (act.rawOutput.getD (.array [])))).build vars
  | .map s => torn s.assign s.output
      (finishStates act (some (act.rawOutput.getD (.array [])))).build vars
  | .succeed _ | .fail _ => pure false

/-- The machine a dispatch takes the version to stand for: the one in the cache, or what the stored
    version parses to. -/
def Projection.machineOf (env : Env) (rows : Projection) (machines : MachineCache)
    (version : ObjectRef .flowVersion) : Option StateMachine :=
  (machines.lookup version).or
    ((rows.getFlowVersion version).bind fun ver => (env.parse ver.definition).toOption)

/-- The state of a thread at a path. -/
def Projection.stateAt (env : Env) (rows : Projection) (machines : MachineCache) (thread : Thread)
    (path : StatePath) : Option State := do
  let exec ← rows.getExecution thread.execution
  let machine ← rows.machineOf env machines exec.flowVersion
  (machine.stateAt path).toOption

/-- An activity with its thread and the state it is in. -/
def Projection.stateOf (env : Env) (rows : Projection) (machines : MachineCache)
    (activity : ObjectRef .activity) : Option (Activity × Thread × State) := do
  let act ← rows.getActivity activity
  let thread ← rows.getThread act.metadata.owner
  let d ← rows.stateAt env machines thread act.statePath
  pure (act, thread, d)

/-- And so it is for what the answer to a command applies: a completing step, one that was put off, or
    the catcher that takes a failure. -/
def Command.tears (env : Env) (rows : Projection) (machines : MachineCache) :
    Command → Handler Bool
  | .completeState c =>
    match rows.stateOf env machines c.activity with
    | some (act, thread, d) =>
      d.tears { act with rawOutput := some c.output } (rows.getVariables thread.objectRef)
    | none => pure false
  | .continueComplete owner =>
    if owner.kind = .activity then
      match rows.stateOf env machines (owner.typed .activity) with
      | some (act, thread, d) => d.tears act (rows.getVariables thread.objectRef)
      | none => pure false
    else pure false
  | .terminateState ⟨activity, .failed error⟩ =>
    match rows.stateOf env machines activity with
    | some (act, _, .task s) =>
      match (s.catch_.getD []).find? fun c => error.matchesErrorNames c.errorEquals with
      | some c => torn c.assign c.output (catchStates act error)
          (rows.getVariables act.metadata.owner)
      | none => pure false
    | _ => pure false
  | _ => pure false

/-- A variable is assigned before an output that has no value. -/
def Command.tornBy (env : Env) (rows : Projection) (machines : MachineCache) (jsonata : Valuation)
    (c : Command) : Bool := (valueOf jsonata (c.tears env rows machines) 0).any Prod.fst

/-! ## The runs that finish -/

section finishes

variable {owner : ObjectRef .thread} {assign : Option AssignObject} {output : Option Json}
  {states fallback : Json} {scope vars : Variables} {fails : ExecutionError → Handler β}
  {goes : Json → Handler β} {act : Activity} {d : State}

/-- The deeds of an assignment: none, or its event. -/
def Assignment (as : List Deed) : Prop :=
  as = [] ∨ ∃ owner vars, as = [.event (.variablesAssigned owner vars)]

/-- Either nothing is assigned, and so nothing torn, or a variable is, and its event is emitted. -/
theorem applyAssign_tries {r : Except ExecutionError Variables}
    (run : (applyAssign owner assign states scope).Runs (tries env cause jsonata) s r t) :
    (t.draft = s.draft ∧ ∀ output,
      (valueOf jsonata (torn assign output states scope) s.evals).map Prod.fst = some false) ∨
    ∃ a field fields, assign = some a ∧
      valueOf jsonata (evalJson (.object a.fields) states scope) s.evals =
        some (.ok (.object (field :: fields)), t.evals) ∧
      r = .ok (scope.bindAll (field :: fields)) ∧
      s.draft.Writes cause
        [.event (.variablesAssigned owner (scope.bindAll (field :: fields)))] t.draft := by
  unfold applyAssign at run
  cases assign with
  | none =>
    obtain ⟨-, rfl⟩ := run
    exact .inl ⟨rfl, fun _ => rfl⟩
  | some a =>
    obtain ⟨v, m, evaluated, run⟩ := Prog.runs_bind.mp run
    obtain ⟨same, value⟩ := (Evaluates.evalJson _ _ _).tries evaluated
    have nothing (other : ∀ field fields, v ≠ .ok (.object (field :: fields))) (output) :
        (valueOf jsonata (torn (some a) output states scope) s.evals).map Prod.fst = some false := by
      cases output with
      | none => rfl
      | some output =>
        unfold torn
        rw [(Evaluates.evalJson _ _ _).valueOf_bind, value, Option.bind_some]
        split
        · next field fields isBound => exact (other field fields isBound).elim
        · rfl
    cases v with
    | error e =>
      obtain ⟨-, rfl⟩ := run
      exact .inl ⟨same, nothing (by simp)⟩
    | ok v =>
      cases v with
      | object fields =>
        cases fields with
        | nil =>
          obtain ⟨-, rfl⟩ := run
          exact .inl ⟨same, nothing (by simp)⟩
        | cons field fields =>
          obtain ⟨_, ⟨_, _⟩, ⟨⟨ts, folds, rfl⟩, rfl⟩, rfl, rfl⟩ := run
          rw [same] at folds ⊢
          exact .inr ⟨a, field, fields, rfl, value, rfl, .event folds .refl⟩
      | _ =>
        obtain ⟨-, rfl⟩ := run
        exact .inl ⟨same, nothing (by simp)⟩

/-- Whether a finish is torn: a variable is assigned, and what follows fails. -/
theorem projecting_tries {b : β}
    (run : (projecting owner assign output states scope fallback fails goes).Runs
      (tries env cause jsonata) s b t) :
    ∃ r as m, Assignment as ∧ s.draft.Writes cause as m.draft ∧
      (valueOf jsonata (torn assign output states scope) s.evals).map Prod.fst =
        some (!as.isEmpty && !r.isOk) ∧
      (onProjected fails goes r).Runs (tries env cause jsonata) m b t := by
  obtain ⟨r, m, assigned, run⟩ := Prog.runs_bind.mp run
  rcases applyAssign_tries assigned with ⟨same, nothing⟩ | ⟨a, field, fields, rfl, value, rfl, writes⟩
  · have unwritten : s.draft.Writes cause [] m.draft := same ▸ .refl
    cases r with
    | error e => exact ⟨.error e, [], m, .inl rfl, unwritten, nothing output, run⟩
    | ok scope' =>
      obtain ⟨q, m', projected, run⟩ := Prog.runs_bind.mp run
      obtain ⟨same', -⟩ := (Evaluates.projectOutput _ _ _ _).tries projected
      exact ⟨q, [], m', .inl rfl, same' ▸ unwritten, nothing output, run⟩
  · obtain ⟨q, m', projected, run⟩ := Prog.runs_bind.mp run
    obtain ⟨same, projects⟩ := (Evaluates.projectOutput _ _ _ _).tries projected
    refine ⟨q, _, m', .inr ⟨_, _, rfl⟩, same ▸ writes, ?_, run⟩
    cases output with
    | none =>
      cases (congrArg (Option.map Prod.fst) projects : some (.ok fallback) = some q)
      rfl
    | some output =>
      have projects : valueOf jsonata (evalJson output states (scope.bindAll (field :: fields)))
        m.evals = some (q, m'.evals) := projects
      unfold torn
      rw [(Evaluates.evalJson _ _ _).valueOf_bind, value, Option.bind_some]
      dsimp only
      rw [(Evaluates.evalJson _ _ _).valueOf_bind, projects, Option.bind_some]
      cases q <;> rfl

def Ending.failed : Ending → Bool
  | .fails _ => true
  | _ => false

/-- A completing step assigns or not, ends, and is torn if it assigns and fails. -/
def Concluded (env : Env) (cause : Nat) (act : Activity) (s t : Draft) (isTorn : Option Bool) : Prop :=
  ∃ as ds ending, Assignment as ∧ Ending.Emits env act t.rows ending ds ∧
    s.Writes cause (as ++ ds) t ∧ isTorn = some (!as.isEmpty && ending.failed)

theorem Concluded.unassigned {u v : Draft} {ds} {ending : Ending}
    (emits : ending.Emits env act v.rows ds) (writes : u.Writes cause ds v) :
    Concluded env cause act u v (some false) := ⟨[], ds, ending, .inl rfl, emits, writes, rfl⟩

theorem projecting_concluded {goes : Json → Handler Unit}
    (run : (projecting owner assign output states scope fallback (failState act.objectRef)
      goes).Runs (tries env cause jsonata) s () t)
    (went : ∀ {out u v}, (goes out).Runs (does env cause) u () v →
      ∃ ds ending, Ending.failed ending = false ∧ ending.Emits env act v.rows ds ∧
        u.Writes cause ds v) :
    Concluded env cause act s.draft t.draft
      ((valueOf jsonata (torn assign output states scope) s.evals).map Prod.fst) := by
  obtain ⟨r, as, m, assigns, writes, isTorn, run⟩ := projecting_tries run
  cases r with
  | error e =>
    have sends := failState_gives (runs_does run)
    exact ⟨as, _, .fails e, assigns, .fails, writes.append sends.writes, isTorn⟩
  | ok out =>
    obtain ⟨ds, ending, goesOn, emits, written⟩ := went (runs_does run)
    exact ⟨as, ds, ending, assigns, emits, writes.append written, by rw [isTorn, goesOn]; rfl⟩

theorem routeOf_failed {next end_ out} : (routeOf next end_ act out).failed = false := by
  unfold routeOf
  split
  · rfl
  · split <;> rfl

theorem finishCompleting_concluded {next end_}
    (run : (finishCompleting assign output next end_ act vars).Runs (tries env cause jsonata) s () t)
    :
    Concluded env cause act s.draft t.draft
      ((valueOf jsonata (torn assign output
        (finishStates act (some (act.rawOutput.getD act.rawInput))).build vars) s.evals).map
        Prod.fst) := by
  rw [finishCompleting_eq] at run
  refine projecting_concluded run fun goes => ?_
  obtain ⟨ds, emits, writes⟩ := goesOn_gives goes
  exact ⟨ds, _, routeOf_failed, emits, writes⟩

theorem choiceAfterCompleting_concluded {c : ChoiceState}
    (run : (choiceAfterCompleting c act vars).Runs (tries env cause jsonata) s () t) :
    Concluded env cause act s.draft t.draft
      ((valueOf jsonata ((State.choice c).tears act vars) s.evals).map Prod.fst) := by
  rw [choiceAfterCompleting_eq] at run
  obtain ⟨r, m, resolved, run⟩ := Prog.runs_bind.mp run
  obtain ⟨same, value⟩ := (Evaluates.resolveChoice _ _ _ _).tries resolved
  unfold State.tears
  dsimp only
  rw [(Evaluates.resolveChoice _ _ _ _).valueOf_bind, value, Option.bind_some, ← same]
  cases r with
  | error e => exact .unassigned .fails (failState_gives (runs_does run)).writes
  | ok taken =>
    obtain ⟨assign, output, next⟩ := taken
    refine projecting_concluded run fun goes => ?_
    obtain ⟨ds, emits, writes⟩ := closeAndMove_gives goes
    exact ⟨ds, _, rfl, emits, writes⟩

theorem fanOutAfterCompleting_concluded {label next end_}
    (run : (fanOutAfterCompleting label assign output next end_ act vars).Runs
      (tries env cause jsonata) s () t) :
    Concluded env cause act s.draft t.draft
      ((valueOf jsonata (torn assign output
        (finishStates act (some (act.rawOutput.getD (.array [])))).build vars) s.evals).map
        Prod.fst) := by
  obtain ⟨row, ⟨_, _⟩, ⟨⟨-, rfl⟩, rfl⟩, run⟩ := run
  cases row with
  | none => exact run.elim
  | some row =>
  obtain ⟨children, ⟨_, _⟩, ⟨⟨-, rfl⟩, rfl⟩, run⟩ := run
  cases children with
  | cons child rest => exact run.elim
  | nil =>
  refine projecting_concluded (runs_projecting output (act.rawOutput.getD (.array []))
    (failState act.objectRef) (fanOutGoesOn label next end_ act) run (fun _ => rfl)
    (fun _ => by cases next <;> rfl)) fun goes => ?_
  obtain ⟨ds, ending, route, emits, writes⟩ := fanOutGoesOn_gives goes
  refine ⟨ds, ending, ?_, emits, writes⟩
  unfold fanOutRoute at route
  split at route
  · cases route
    rfl
  · obtain ⟨_, -, rfl⟩ := Option.map_eq_some_iff.mp route
    rfl

/-- The completing step of any state. -/
theorem afterCompleting_concluded
    (run : ((handlerFor d).afterCompleting act vars).Runs (tries env cause jsonata) s () t) :
    Concluded env cause act s.draft t.draft
      ((valueOf jsonata (d.tears act vars) s.evals).map Prod.fst) := by
  cases d with
  | pass | wait | task => exact finishCompleting_concluded run
  | choice => exact choiceAfterCompleting_concluded run
  | parallel | map => exact fanOutAfterCompleting_concluded run
  | succeed =>
    obtain ⟨ds, ending, -, emits, writes⟩ := succeedAfterCompleting_gives (runs_does run)
    exact .unassigned emits writes
  | fail =>
    obtain ⟨ds, ending, -, emits, writes⟩ := failAfterCompleting_gives (runs_does run)
    exact .unassigned emits writes

/-! ## The commands that finish -/

theorem machineOr_tries {onFault version machine}
    (run : (machineOr onFault version).Runs (tries env cause jsonata) s (.ok machine) t) :
    s.draft.rows.machineOf env s.draft.machines version = some machine ∧
      ∃ machines, t = ⟨{ s.draft with machines := machines }, s.evals⟩ := by
  obtain ⟨_, ⟨_, _⟩, ⟨⟨rfl, rfl⟩, rfl⟩, run⟩ := run
  unfold Projection.machineOf
  cases cached : s.draft.machines.lookup version with
  | some m =>
    rw [cached] at run
    obtain ⟨⟨⟩, rfl⟩ := run
    exact ⟨rfl, s.draft.machines, rfl⟩
  | none =>
    rw [cached] at run
    obtain ⟨_, ⟨_, _⟩, ⟨⟨rfl, rfl⟩, rfl⟩, run⟩ := run
    cases found : s.draft.rows.getFlowVersion version with
    | none =>
      rw [found] at run
      cases run.1
    | some ver =>
      rw [found] at run
      obtain ⟨env, ⟨_, _⟩, ⟨⟨rfl, rfl⟩, rfl⟩, run⟩ := run
      dsimp only [Prog.bind] at run
      cases parsed : env.parse ver.definition with
      | error e =>
        simp only [parsed] at run
        cases run.1
      | ok m =>
        simp only [parsed] at run
        obtain ⟨_, ⟨_, _⟩, ⟨rfl, rfl⟩, ⟨⟩, rfl⟩ := run
        exact ⟨by rw [Option.none_or, Option.bind_some, parsed]; rfl, _, rfl⟩

theorem Trial.unchanged_iff {v v' : α} :
    (v = v' ∧ t.draft = s.draft) ∧ t.evals = s.evals ↔ v = v' ∧ t = s := by
  cases s
  cases t
  simp [and_assoc]

theorem getActivity_tries {r f} {b : β} :
    (getActivity r >>= f).Runs (tries env cause jsonata) s b t ↔
      (f (s.draft.rows.getActivity r)).Runs (tries env cause jsonata) s b t :=
  Prog.runs_known fun _ _ => Trial.unchanged_iff

theorem getThread_tries {r f} {b : β} :
    (getThread r >>= f).Runs (tries env cause jsonata) s b t ↔
      (f (s.draft.rows.getThread r)).Runs (tries env cause jsonata) s b t :=
  Prog.runs_known fun _ _ => Trial.unchanged_iff

theorem stateOfThread_tries {label subject : String} {thread} {path : StatePath} {undefined f}
    {b : β} (run : (stateOfThread label subject thread path undefined >>= f).Runs
      (tries env cause jsonata) s b t) :
    ∃ d machines, s.draft.rows.stateAt env s.draft.machines thread path = some d ∧
      (f d).Runs (tries env cause jsonata) ⟨{ s.draft with machines := machines }, s.evals⟩ b t := by
  obtain ⟨d, m, resolved, rest⟩ := Prog.runs_bind.mp run
  unfold stateOfThread machineForThread at resolved
  obtain ⟨r, m', found, resolved⟩ := Prog.runs_bind.mp resolved
  obtain ⟨_, ⟨_, _⟩, ⟨⟨rfl, rfl⟩, rfl⟩, found⟩ := found
  unfold Projection.stateAt
  cases there : s.draft.rows.getExecution thread.execution with
  | none =>
    rw [there] at found
    obtain ⟨rfl, rfl⟩ := found
    exact resolved.elim
  | some exec =>
    rw [there] at found
    cases r with
    | error => exact resolved.elim
    | ok machine =>
      obtain ⟨stands, machines, rfl⟩ := machineOr_tries found
      dsimp only at resolved
      cases defined : machine.stateAt path with
      | error e =>
        rw [defined] at resolved
        exact resolved.elim
      | ok d' =>
        rw [defined] at resolved
        obtain ⟨rfl, rfl⟩ := resolved
        exact ⟨d, machines, by simp [stands, defined, Except.toOption], rest⟩

end finishes

end Spica
