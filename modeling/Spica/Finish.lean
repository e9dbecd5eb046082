import Spica.Outcome.Menu
import Spica.Scenario
import Spica.Trials
import Spica.Within

/-! # A failed finish

A state that completes, and a catcher that takes over a failed task, assign variables first and
project the output after that. The two are not one: the event of the assignment is emitted before
the output is evaluated, so an output that fails leaves the assignment behind. The batch that gives
the activity up assigns nothing exactly when the `Assign` that is applied yields no variable or its
`Output` has a value.
-/

namespace Spica

open Scenario Handler

/-! ## What changes a scope -/

/-- The event writes the variables of a thread. -/
def Event.writesScope : Event → Bool
  | .variablesAssigned _ _ | .threadCreated _ => true
  | _ => false

section scopes

variable {env : Env} {cause : Nat} {p q : Projection} {c : Command} {ds : List Deed}
  {es : List Entry} {ev : Event} {act : Activity} {ending : Ending}

theorem claimTasks_scopes {ts} (granted : List Task) :
    (granted.foldl (Projection.claimTask ts) p).scopes = p.scopes := by
  induction granted generalizing p with
  | nil => rfl
  | cons t rest ih =>
    refine ih.trans ?_
    unfold Projection.claimTask
    split
    · split <;> rfl
    · rfl

theorem onActivity_scopes (r : ObjectRef .activity) (f : Activity → Activity) :
    (p.onActivity r f).scopes = p.scopes := by
  unfold Projection.onActivity
  split <;> rfl

theorem fileFlow_scopes (f : Flow) : (p.fileFlow f).scopes = p.scopes := by
  unfold Projection.fileFlow
  split <;> rfl

theorem Event.apply_scopes (quiet : ev.writesScope = false) (p : Projection) (ts : Timestamp) :
    (ev.apply ts p).scopes = p.scopes := by
  cases ev with
  | variablesAssigned | threadCreated => cases quiet
  | executionCreated | stateActivating | taskActivated | stateTransitioned => rfl
  | executionCompleting | executionCompleted | executionTerminating | executionTerminated =>
    unfold Event.apply Projection.onExecution
    dsimp only
    split <;> rfl
  | threadCompleting | threadTerminating =>
    unfold Event.apply Projection.onThread
    dsimp only
    split <;> rfl
  | threadCompleted | threadTerminated =>
    unfold Event.apply Projection.settleThread
    dsimp only
    split <;> rfl
  | stateActivated | stateCompleting | stateTerminating => exact onActivity_scopes ..
  | stateCompleted | stateTerminated =>
    unfold Event.apply Projection.settleActivity
    dsimp only
    split <;> rfl
  | flowCreated _ f => exact fileFlow_scopes f
  | flowVersionCreated _ v =>
    unfold Event.apply Projection.createFlowVersion
    dsimp only
    split
    · rfl
    · exact fileFlow_scopes _
  | tasksClaimed _ granted => exact claimTasks_scopes granted
  | taskCompleted _ t output =>
    unfold Event.apply Projection.completeTask
    dsimp only
    split
    · exact onActivity_scopes ..
    · rfl
  | taskFailed t _ =>
    unfold Event.apply Projection.failTask
    dsimp only
    split
    · split
      · exact onActivity_scopes ..
      · rfl
    · rfl
  | taskCancelled t =>
    unfold Event.apply Projection.cancelTask
    dsimp only
    split <;> rfl

theorem Event.apply_getVariables (quiet : ev.writesScope = false) (p : Projection) (ts : Timestamp)
    (r : ObjectRef .thread) : (ev.apply ts p).getVariables r = p.getVariables r := by
  unfold Projection.getVariables
  rw [ev.apply_scopes quiet p ts]

theorem Writes.scopes (writes : Writes cause p ds es q)
    (quiet : ∀ ev, .event ev ∈ ds → ev.writesScope = false) : q.scopes = p.scopes := by
  induction writes with
  | nil => rfl
  | take _ ih => exact ih fun ev there => quiet ev (List.mem_cons_of_mem _ there)
  | @event p q ds es e ts _ _ ih =>
    have rest := ih fun ev there => quiet ev (List.mem_cons_of_mem _ there)
    exact rest.trans (e.apply_scopes (quiet e List.mem_cons_self) p ts)
  | command _ _ ih | reject _ _ ih =>
    exact ih fun ev there => quiet ev (List.mem_cons_of_mem _ there)

theorem Ending.Emits.writes_no_scope (emits : ending.Emits env act q ds)
    (there : .event ev ∈ ds) : ev.writesScope = false := by
  cases emits with
  | fails => simp at there
  | moves =>
    simp only [event_mem_cons, event_mem_command, List.not_mem_nil, or_false] at there
    rcases there with rfl | rfl <;> rfl
  | ends =>
    simp only [event_mem_cons, event_mem_command, List.not_mem_nil, or_false] at there
    subst there
    rfl
  | succeeds =>
    obtain rfl := event_only there
    rfl
  | breaks =>
    simp only [event_mem_cons, event_mem_commands, or_false] at there
    rcases there with rfl | rfl <;> rfl

/-! ## Giving an activity up -/

/-- The command that gives an activity up as failed. -/
def Command.givesUp (activity : ObjectRef .activity) : Command → Bool
  | .terminateState ⟨r, .failed _⟩ => r = activity
  | _ => false

theorem threadTold_spares {thread onRunning cs} (activity : ObjectRef .activity)
    (told : p.threadTold thread onRunning = some cs)
    (spares : ∀ c ∈ onRunning, c.givesUp activity = false) :
    ∀ c ∈ cs, c.givesUp activity = false := by
  unfold Projection.threadTold at told
  split at told <;> cases told
  · exact spares
  · simp [Command.givesUp]
  · simp [Command.givesUp]

theorem threadTermination_spares {thread child} (activity : ObjectRef .activity) :
    ∀ c ∈ q.threadTermination thread child, c.givesUp activity = false := by
  unfold Projection.threadTermination
  split <;> simp [Command.givesUp]

/-- A completing step gives its activity up only when an expression failed. -/
theorem Ending.Emits.fails_of_givesUp {activity} (emits : ending.Emits env act q ds)
    (there : .command c ∈ ds) (givesUp : c.givesUp activity) :
    ∃ e, ending = .fails e ∧ act.objectRef = activity := by
  cases emits with
  | fails =>
    obtain rfl : c = _ := by simpa using there
    exact ⟨_, rfl, by simpa [Command.givesUp] using givesUp⟩
  | moves | ends =>
    obtain rfl : c = _ := by simpa using there
    cases givesUp
  | @succeeds _ _ cs _ told =>
    have there : c ∈ cs := by simpa using there
    have spares := threadTold_spares activity told (by
      simp [Projection.threadCompletion, Command.givesUp]) c there
    rw [spares] at givesUp
    cases givesUp
  | @breaks _ _ _ cs _ _ told =>
    have there : c ∈ cs := by simpa using there
    have spares := threadTold_spares activity told (threadTermination_spares activity) c there
    rw [spares] at givesUp
    cases givesUp

/-! ## What the values decide -/

/-- In deeds that give an activity up, a variable is assigned exactly when the finish is torn. -/
def Judged (ds : List Deed) (isTorn : Option Bool) : Prop :=
  (∃ c activity, .command c ∈ ds ∧ Command.givesUp activity c) →
    ((∃ owner vars, .event (.variablesAssigned owner vars) ∈ ds) ↔ isTorn = some true)

theorem Judged.of_quiet {isTorn} (whole : isTorn = some false)
    (quiet : ∀ owner vars, .event (.variablesAssigned owner vars) ∉ ds) : Judged ds isTorn := by
  rintro -
  simp [whole, quiet]

/-- An answer that gives nothing up is judged by any values. -/
theorem Judged.of_spared {isTorn}
    (spared : ∀ c activity, .command c ∈ ds → c.givesUp activity = false) : Judged ds isTorn := by
  rintro ⟨c, activity, asks, givesUp⟩
  rw [spared c activity asks] at givesUp
  cases givesUp

theorem Command.givesUp_of_winds (winds : c.winds) (activity : ObjectRef .activity) :
    c.givesUp activity = false := by
  cases c <;> first | rfl | cases winds

theorem Assignment.spares {as} (assigns : Assignment as) (c : Command) : .command c ∉ as := by
  rcases assigns with rfl | ⟨_, _, rfl⟩ <;> simp

/-- What is assigned is told by the assignment, if what goes on after it assigns nothing. -/
theorem Assignment.assigned_iff {as} (assigns : Assignment as)
    (quiet : ∀ owner vars, .event (.variablesAssigned owner vars) ∉ ds) :
    (∃ owner vars, .event (.variablesAssigned owner vars) ∈ as ++ ds) ↔ as.isEmpty = false := by
  rcases assigns with rfl | ⟨owner, vars, rfl⟩
  · simp [quiet]
  · simp only [List.isEmpty_cons, iff_true]
    exact ⟨owner, vars, by simp⟩

variable {s t : Draft} {isTorn : Option Bool}

theorem Concluded.judged (concluded : Concluded env cause act s t isTorn) :
    ∃ ds, s.Writes cause ds t ∧ Judged ds isTorn := by
  obtain ⟨as, ds, ending, assigns, emits, writes, rfl⟩ := concluded
  refine ⟨as ++ ds, writes, ?_⟩
  rintro ⟨c, activity, asks, givesUp⟩
  have asks := (List.mem_append.mp asks).resolve_left (assigns.spares c)
  obtain ⟨e, rfl, -⟩ := emits.fails_of_givesUp asks givesUp
  rw [assigns.assigned_iff fun owner vars there => by cases emits.writes_no_scope there]
  simp [Ending.failed]

theorem Judged.event (judged : Judged ds isTorn) (quiet : ev.writesScope = false) :
    Judged (.event ev :: ds) isTorn := by
  rintro ⟨c, activity, asks, givesUp⟩
  rw [← judged ⟨c, activity, by simpa using asks, givesUp⟩]
  have other (owner) (vars) : .variablesAssigned owner vars ≠ ev := by
    rintro rfl
    cases quiet
  simp [other]

end scopes

section commands

variable {env : Env} {cause : Nat} {jsonata : Valuation} {s t : Trial} {c : Command}

/-- Whether the answer to the command is torn. -/
abbrev Command.verdict (env : Env) (jsonata : Valuation) (s : Trial) (c : Command) : Option Bool :=
  (valueOf jsonata (c.tears env s.draft.rows s.draft.machines) s.evals).map Prod.fst

theorem Command.tornBy_iff {rows machines} :
    c.tornBy env rows machines jsonata = true ↔
      c.verdict env jsonata ⟨⟨rows, [], machines⟩, 0⟩ = some true := by
  unfold Command.tornBy Command.verdict
  cases valueOf jsonata (c.tears env rows machines) 0 <;> simp

/-- The answer to the command, under the values, is judged by them. -/
abbrev AnswerJudged (env : Env) (cause : Nat) (jsonata : Valuation) (c : Command)
    (s t : Trial) : Prop :=
  ∃ ds, s.draft.Writes cause ds t.draft ∧ Judged ds (c.verdict env jsonata s)

/-- The activity that is completed or given up, with its thread and its state. -/
theorem stateOf_eq {activity : ObjectRef .activity} {act thread d} {rows : Projection} {machines}
    (found : rows.getActivity activity = some act)
    (owner : rows.getThread act.metadata.owner = some thread)
    (defines : rows.stateAt env machines thread act.statePath = some d) :
    rows.stateOf env machines activity = some (act, thread, d) := by
  simp [Projection.stateOf, found, owner, defines]

/-- What the completing step applies is read off the activity and the output it is given. -/
theorem tears_completing {act completing : Activity} {output at_}
    (opens : act.markCompleting output at_ = .ok completing) (d : State) (vars : Variables) :
    d.tears completing vars = d.tears { act with rawOutput := some output } vars := by
  unfold Activity.markCompleting at opens
  split at opens
  · cases opens
  · cases opens
    cases d <;> rfl

theorem handleCompleteState_judged {c : CompleteState}
    (run : (handleCompleteState c).Runs (tries env cause jsonata) s () t) :
    AnswerJudged env cause jsonata (.completeState c) s t := by
  obtain ⟨act, found, run⟩ := Prog.runs_found getActivity_tries run id
  obtain ⟨thread, owner, run⟩ := Prog.runs_found getThread_tries run id
  obtain ⟨env, ⟨_, _⟩, ⟨⟨rfl, rfl⟩, rfl⟩, run⟩ := run
  obtain ⟨d, machines, defines, run⟩ := stateOfThread_tries run
  split at run
  · exact run.elim
  split at run
  · exact run.elim
  obtain ⟨at_, ⟨_, _⟩, ⟨rfl, rfl⟩, run⟩ := run
  dsimp only [Prog.bind] at run
  rcases opens : act.markCompleting c.output at_ with why | completing
  · rw [opens] at run
    exact run.elim
  rw [opens] at run
  obtain ⟨_, ⟨_, _⟩, ⟨⟨ts, folds, rfl⟩, rfl⟩, _, ⟨_, _⟩, ⟨⟨rfl, rfl⟩, rfl⟩, run⟩ := run
  have stands : s.draft.rows.stateOf env s.draft.machines c.activity = some (act, thread, d) :=
    stateOf_eq found owner defines
  have quiet : (Event.stateCompleting completing).writesScope = false := rfl
  have scope := Event.apply_getVariables quiet s.draft.rows ts thread.objectRef
  obtain ⟨ds, writes, judged⟩ := (afterCompleting_concluded run).judged
  refine ⟨_, .event folds writes, .event ?_ rfl⟩
  simp only [Command.verdict, Command.tears, stands]
  rw [← tears_completing opens]
  exact scope ▸ judged

theorem continueComplete_judged {r : RawObjectRef} (kind : r.kind = .activity)
    (run : (ActivityElement.continueComplete (r.typed .activity)).Runs (tries env cause jsonata)
      s () t) :
    AnswerJudged env cause jsonata (.continueComplete r) s t := by
  obtain ⟨act, found, run⟩ := Prog.runs_found getActivity_tries run id
  dsimp only [Prog.bind] at run
  split at run
  · obtain ⟨_, _, _, run⟩ := run
    exact run.elim
  obtain ⟨children, ⟨_, _⟩, ⟨⟨-, rfl⟩, rfl⟩, run⟩ := run
  dsimp only [Prog.bind] at run
  split at run
  · -- the children are cancelled first
    obtain ⟨kinds, sends⟩ := ActivityElement.sweep_gives (runs_does run)
    refine ⟨_, sends.writes, .of_spared fun c activity asks => ?_⟩
    obtain ⟨child, there, rfl⟩ : ∃ child ∈ children, cancelOf child = c := by simpa using asks
    rcases (by simpa using kinds child there : child.kind = .thread ∨ child.kind = .task) with
      kind | kind <;> simp [cancelOf, kind, Command.givesUp]
  obtain ⟨_, m, resolved, run⟩ := Prog.runs_bind.mp run
  obtain ⟨thread, owner, resolved⟩ := Prog.runs_found getThread_tries resolved id
  obtain ⟨env, ⟨_, _⟩, ⟨⟨rfl, rfl⟩, rfl⟩, resolved⟩ := resolved
  obtain ⟨d, machines, defines, rfl, rfl⟩ := stateOfThread_tries resolved
  dsimp only at run
  split at run
  · exact run.elim
  obtain ⟨_, ⟨_, _⟩, ⟨⟨rfl, rfl⟩, rfl⟩, run⟩ := run
  have stands : s.draft.rows.stateOf env s.draft.machines (r.typed .activity) =
      some (act, thread, d) := stateOf_eq found owner defines
  obtain ⟨ds, writes, judged⟩ := (afterCompleting_concluded run).judged
  refine ⟨ds, writes, ?_⟩
  simp only [Command.verdict, Command.tears, kind, if_true, stands]
  exact judged

section terminating

variable {act : Activity} {thread : Thread} {d : State}

theorem beginTerminating_judged {s t p isTorn}
    (gives : ((handlerFor d).beginTerminating p act thread).Runs (does env cause) s () t) :
    ∃ ds, s.Writes cause ds t ∧ Judged ds isTorn := by
  unfold StateHandler.beginTerminating at gives
  obtain ⟨at_, gives⟩ := now_then.mp gives
  rcases opens : act.markTerminating p.reason at_ with why | terminating
  · rw [opens] at gives
    exact gives.elim
  simp only [opens, appendEvent_then, getVariables_then] at gives
  obtain ⟨ts, folds, gives⟩ := gives
  obtain ⟨ds, terminates, writes⟩ := afterTerminating_gives gives
  refine ⟨_, .event folds writes, .of_spared fun c activity asks => ?_⟩
  exact Command.givesUp_of_winds (terminates.menu (by simpa using asks)) activity

/-- A catcher takes the failure, or fails itself and gives the activity up again. -/
theorem catchWith_judged {catcher error routing}
    (run : (catchWith catcher act error).Runs (tries env cause jsonata) s routing t) :
    routing = .uncaught ∧ t = s ∨ routing = .caught ∧ ∃ ds, s.draft.Writes cause ds t.draft ∧
      Judged ds ((valueOf jsonata (torn catcher.assign catcher.output (catchStates act error)
        (s.draft.rows.getVariables act.metadata.owner)) s.evals).map Prod.fst) := by
  obtain ⟨_, ⟨_, _⟩, ⟨⟨⟨row, -, rfl⟩, rfl⟩, rfl⟩, run⟩ := run
  cases row with
  | none =>
    obtain ⟨rfl, rfl⟩ := run
    exact .inl ⟨rfl, rfl⟩
  | some row =>
  obtain ⟨_, ⟨_, _⟩, ⟨⟨⟨_, rfl, rfl⟩, rfl⟩, rfl⟩, run⟩ := run
  dsimp only [Prog.bind, Except.toOption, Option.getD_some] at run
  rw [catchOutcome_eq] at run
  obtain ⟨r, as, m, assigns, writes, isTorn, run⟩ := projecting_tries run
  cases r with
  | error e =>
    obtain ⟨_, m', failed, rfl, rfl⟩ := Prog.runs_bind.mp run
    have sends := failState_gives (runs_does failed)
    refine .inr ⟨rfl, _, writes.append sends.writes, fun _ => ?_⟩
    rw [assigns.assigned_iff (by simp), isTorn]
    simp [Except.isOk, Except.toBool]
  | ok out =>
    -- the task is cancelled, and the catcher's target entered
    obtain ⟨_, ⟨_, _⟩, ⟨⟨⟨children, -, rfl⟩, rfl⟩, rfl⟩, run⟩ := run
    dsimp only [Prog.bind] at run
    obtain ⟨_, m', cancelled, run⟩ := Prog.runs_bind.mp run
    obtain ⟨at_, ⟨_, _⟩, ⟨rfl, rfl⟩, _, ⟨_, _⟩, ⟨⟨ts, folds, rfl⟩, rfl⟩, run⟩ := run
    dsimp only [Prog.bind] at run
    obtain ⟨_, m'', moved, rfl, rfl⟩ := Prog.runs_bind.mp run
    have sends := cancelTasks_gives rfl (runs_does cancelled)
    refine .inr ⟨rfl, _, (writes.append sends.writes).append
      (.event folds (transitionTo_gives (runs_does moved))), .of_spared fun c activity asks => ?_⟩
    simp only [List.mem_append, List.mem_cons, List.mem_map, List.mem_filter, Deed.command.injEq,
      assigns.spares, reduceCtorEq, List.not_mem_nil, false_or, or_false,
      exists_eq_right] at asks
    rcases asks with ⟨child, ⟨-, kind⟩, rfl⟩ | rfl
    · simp [cancelOf, of_decide_eq_true kind, Command.givesUp]
    · rfl

theorem handleTerminateState_judged {p : TerminateState}
    (run : (handleTerminateState p).Runs (tries env cause jsonata) s () t) :
    AnswerJudged env cause jsonata (.terminateState p) s t := by
  obtain ⟨act, found, run⟩ := Prog.runs_found getActivity_tries run id
  dsimp only [Prog.bind] at run
  have run : (resolveAndTerminate p act).Runs (tries env cause jsonata) s () t := by
    cases status : act.status <;> simp only [status] at run
    all_goals first | exact run | exact run.elim
  obtain ⟨thread, owner, run⟩ := Prog.runs_found getThread_tries run id
  obtain ⟨env, ⟨_, _⟩, ⟨⟨rfl, rfl⟩, rfl⟩, run⟩ := run
  obtain ⟨d, machines, defines, run⟩ := stateOfThread_tries run
  have stands : s.draft.rows.stateOf env s.draft.machines p.activity = some (act, thread, d) :=
    stateOf_eq found owner defines
  have begun (run : ((handlerFor d).beginTerminating p act thread).Runs (tries env cause jsonata)
      ⟨{ s.draft with machines := machines }, s.evals⟩ () t) :
      AnswerJudged env cause jsonata (.terminateState p) s t := by
    obtain ⟨ds, writes, judged⟩ := beginTerminating_judged (runs_does run)
    exact ⟨ds, writes, judged⟩
  obtain ⟨activity, reason⟩ := p
  cases reason with
  | cancelled | timedOut => exact begun run
  | failed error =>
  cases d with
  | task k =>
    obtain ⟨routing, m, offered, run⟩ := Prog.runs_bind.mp run
    have offered : (taskOnFailed k act error).Runs (tries env cause jsonata) _ routing m := offered
    unfold taskOnFailed at offered
    cases matched : (k.catch_.getD []).find? fun c => error.matchesErrorNames c.errorEquals with
    | none =>
      rw [matched] at offered
      obtain ⟨rfl, rfl⟩ := offered
      exact begun run
    | some catcher =>
      rw [matched] at offered
      rcases catchWith_judged offered with ⟨rfl, rfl⟩ | ⟨rfl, judged⟩
      · exact begun run
      · obtain ⟨-, rfl⟩ := run
        obtain ⟨ds, writes, judged⟩ := judged
        refine ⟨ds, writes, ?_⟩
        simpa only [Command.verdict, Command.tears, stands, matched] using judged
  | _ => exact begun run

end terminating

theorem continueComplete_quiet {M p q r ds} (outcome : Outcome env M p q (.continueComplete r) ds)
    (kind : r.kind ≠ .activity) (owner : ObjectRef .thread) (vars : Variables) :
    .event (.variablesAssigned owner vars) ∉ ds := by
  cases outcome with
  | activitySwept | threadSweptAgain | threadClosedCompleted | executionClosedCompleted => simp
  | activityConcluded isActivity => exact absurd isActivity kind

theorem dispatchCommand_judged {M} (coherent : s.draft.Coherent env M)
    (run : (dispatchCommand c).Runs (tries env cause jsonata) s () t) :
    AnswerJudged env cause jsonata c s t := by
  obtain ⟨ds, outcome, writes⟩ := dispatchCommand_gives coherent (runs_does run)
  cases c with
  | completeState c => exact handleCompleteState_judged run
  | terminateState c => exact handleTerminateState_judged run
  | continueComplete r =>
    by_cases kind : r.kind = .activity
    · refine continueComplete_judged kind ?_
      simpa only [dispatchCommand, handleContinueComplete, kind] using run
    · exact ⟨ds, writes, .of_quiet (by simp [Command.verdict, Command.tears, kind])
        (continueComplete_quiet outcome kind)⟩
  | _ => exact ⟨ds, writes, .of_quiet rfl fun owner vars there => by
    cases outcome.event_menu there⟩

/-- Only a birth creates a thread, and it enters the thread's first state. -/
theorem Command.assigns_of_mayTell {c' activity ev} (asks : c.mayAsk c')
    (givesUp : c'.givesUp activity) (tells : c.mayTell ev) (writes : ev.writesScope = true) :
    ∃ owner vars, ev = .variablesAssigned owner vars := by
  cases ev with
  | variablesAssigned owner vars => exact ⟨owner, vars, rfl⟩
  | threadCreated thread =>
    cases c' with
    | terminateState p => cases c <;> first | (cases tells; done) | cases asks
    | _ => cases givesUp
  | _ => cases writes

end commands

/-- The machines a dispatch can take a version to stand for: the one it finds in the cache, or
    what the stored version parses to. -/
def InForce (env : Env) (rows : Projection) (machines : MachineCache) : Machines :=
  fun version machine => machines.lookup version = some machine ∨
    ∃ ver, rows.getFlowVersion version = some ver ∧ env.parse ver.definition = .ok machine

/-- When the batch of a dispatch gives an activity up, then the batch assigns no variables and leaves
    those of every thread, which a catcher will read, as they were, exactly when no variable was
    assigned before an output without a value. -/
theorem failed_finish_assigns_nothing {env : Env} {cause : Nat} {command : Command}
    {rows : Projection} {machines machines' : MachineCache} {a : Attempt} {produced : Produced}
    {activity : ObjectRef .activity} (ff : a.toBackend.FaultFree)
    (ran : dispatchOnce env cause command rows machines a = (.ok produced, machines'))
    (fails : ∃ c ∈ commandsOf produced.entries, c.givesUp activity) :
    ((∀ entry ∈ produced.entries, ∀ owner vars,
        entry.payload ≠ .event (.variablesAssigned owner vars)) ∧
      ∀ thread, produced.rows.getVariables thread = rows.getVariables thread) ↔
    command.tornBy env rows machines a.jsonata = false := by
  have coherent : Draft.Coherent env (InForce env rows machines) ⟨rows, [], machines⟩ :=
    ⟨fun _ _ cached => .inl cached, fun _ ver _ stored parsed => .inr ⟨ver, stored, parsed⟩⟩
  obtain ⟨n, run⟩ := dispatchOnce_tries ff ran
  obtain ⟨ds, ⟨es, out, writes⟩, judged⟩ := dispatchCommand_judged coherent run
  obtain rfl : produced.entries = es := out
  obtain ⟨c, asks, givesUp⟩ := fails
  have judged := judged ⟨c, activity, mem_deedCommands.mp (writes.commands ▸ asks), givesUp⟩
  have unassigned : (∀ entry ∈ produced.entries, ∀ owner vars,
      entry.payload ≠ .event (.variablesAssigned owner vars)) ↔
      ∀ owner vars, .event (.variablesAssigned owner vars) ∉ ds := by
    refine ⟨fun none owner vars there => ?_, fun none entry there owner vars assigns => ?_⟩
    · obtain ⟨ts, there⟩ := writes.mem_event there
      exact none _ there owner vars rfl
    · exact none owner vars (writes.event_mem there (by simp [Entry.event?, assigns]))
  have whole : command.tornBy env rows machines a.jsonata = false ↔
      ∀ owner vars, .event (.variablesAssigned owner vars) ∉ ds := by
    rw [← Bool.not_eq_true, Command.tornBy_iff, ← judged]
    simp
  rw [unassigned, whole, and_iff_left_iff_imp]
  intro none thread
  -- what is written is a variable or a new thread, and a birth gives nothing up
  obtain ⟨ds', outcome, writes'⟩ := dispatchOnce_outcome ff coherent ran
  have menu := outcome.menu (mem_deedCommands.mp (writes'.commands ▸ asks))
  unfold Projection.getVariables
  rw [writes.scopes fun ev there => ?_]
  by_contra changes
  obtain ⟨ts, there'⟩ := writes.mem_event there
  obtain ⟨owner, vars, rfl⟩ := Command.assigns_of_mayTell menu givesUp
    (outcome.event_menu (writes'.event_mem there' rfl)) (by simpa using changes)
  exact none owner vars there

theorem dispatched_of_any {r : Except Abort Produced × MachineCache} {P}
    (any : r.1.toOption.any P = true) :
    ∃ produced, r = (.ok produced, r.2) ∧ P produced = true := by
  obtain ⟨result, machines⟩ := r
  cases result with
  | error => cases any
  | ok produced => exact ⟨produced, rfl, any⟩

/-- A Pass that cannot assign what its output reads. -/
def failing : StateMachine :=
  single (.pass ⟨some (.string "\x7b% $x %\x7d"),
    some ⟨[("x", .string "\x7b% $error('boom') %\x7d")]⟩, none, some true⟩)

/-- The leader is about to complete the state. -/
def beforeFailing : World :=
  after true failing (appends [createFlow, createExecution exec] ++ starts 4 ++ leads 8)

theorem failed_finish_assigns_nothing_pass :
    ∃ produced machines', dispatchOnce (host true failing) 14 (.completeState ⟨firstActivity, .null⟩)
        beforeFailing.storage.rows ∅ attempt = (.ok produced, machines') ∧
      (∀ entry ∈ produced.entries, ∀ owner vars,
        entry.payload ≠ .event (.variablesAssigned owner vars)) ∧
      ∀ thread, produced.rows.getVariables thread =
        beforeFailing.storage.rows.getVariables thread := by
  have fails : ((dispatchOnce (host true failing) 14 (.completeState ⟨firstActivity, .null⟩)
      beforeFailing.storage.rows ∅ attempt).1.toOption.any fun produced =>
        (commandsOf produced.entries).any (Command.givesUp ⟨.generated exec 1, ⟨1⟩⟩)) = true := by
    decide +kernel
  obtain ⟨produced, ran, fails⟩ := dispatched_of_any fails
  exact ⟨produced, _, ran, (failed_finish_assigns_nothing (fun _ => rfl) ran
    (List.any_eq_true.mp fails)).mpr (by decide +kernel)⟩

/-! ## Where an assignment stays behind -/

/-- A Task that assigns `x` before its output fails, and a catcher that reads `x`. -/
def assigning : StateMachine :=
  ⟨"S", none,
    [("S", .task ⟨some (.string "\x7b% $error('boom') %\x7d"), some ⟨[("x", .bool true)]⟩, none,
      some true, none, none, some [⟨["States.ALL"], "T", none, some (.string "\x7b% $x %\x7d")⟩],
      "resource", none⟩),
    ("T", pass)]⟩

/-- The value of `x` is what was assigned to it, and nothing else has a value. -/
def readsVariables : Decision :=
  ⟨fun _ => { attempt with
    jsonata := fun _ expr _ vars => match vars.lookup "x", expr with
      | some value, "$x" => .ok value
      | _, _ => .error "boom" }, none, ⟨0⟩, ⟨0⟩⟩

/-- The task is claimed and reported, its state fails to finish, and the catcher takes over. -/
def assignedAndCaught : World :=
  let leads := drives readsVariables
  after true assigning (appends [createFlow, createExecution exec] ++ starts 4 ++ leads 13 ++
    appends [claim] ++ leads 4 ++ appends [report] ++ leads 7)

/-- The event assigns the value to the variable. -/
def Event.assigns (name : String) (value : Json) : Event → Bool
  | .variablesAssigned _ vars => vars.lookup name = some value
  | _ => false

/-- The batch that gives the activity up assigns `x`, and the catcher's output is its value. -/
theorem failed_finish_assigns :
    (∃ n, (∃ e ∈ assignedAndCaught.log, e.causeId = some n ∧
        e.event?.any (Event.assigns "x" (.bool true))) ∧
      ∃ e ∈ assignedAndCaught.log, e.causeId = some n ∧
        e.command?.any (Command.givesUp ⟨.generated exec 1, ⟨1⟩⟩)) ∧
    (assignedAndCaught.storage.rows.getActivity firstActivity).bind (·.output) =
      some (.bool true) := by
  refine ⟨⟨25, ?_, ?_⟩, ?_⟩
  · decide +kernel
  · decide +kernel
  · decide +kernel

end Spica
