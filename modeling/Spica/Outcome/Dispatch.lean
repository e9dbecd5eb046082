import Spica.Outcome.Elements

/-! # The answers to all commands

`dispatchCommand_gives` says once what a dispatch without faults can do; what is shown of every
answer is read off its cases.
-/

namespace Spica

open Handler

variable {env : Env} {M : Machines} {cause : Nat} {s t : Draft}
variable {children : List RawObjectRef} {β : Type} {p : Projection} {r owner : RawObjectRef}
    {deadline : Timestamp} {c : TerminateState} {thread : Thread} {d : State} {act : Activity}

/-! ## Flows and executions -/

theorem FlowElement.create_gives {c} (gives : (FlowElement.create c).Runs (does env cause) s () t) :
    s.Answers env M cause (.createFlow c) t := by
  unfold FlowElement.create at gives
  rw [platform_then] at gives
  rcases parsed : env.parse c.definition with e | machine
  · rw [parsed] at gives
    exact gives.elim
  simp only [parsed, peekFlowByName_then] at gives
  cases known : s.rows.getFlowByName c.name with
  | some f =>
    simp only [known, emitReject_gives] at gives
    obtain ⟨ts, rfl⟩ := gives
    exact ⟨_, .flowKnown known, .reject .refl⟩
  | none =>
    simp only [known, mint_then, now_then, appendEvent_then, appendEvent_gives] at gives
    obtain ⟨flowUid, versionUid, at_, ts, folds, ts', folds', rfl⟩ := gives
    exact ⟨_, .flowCreated parsed known, .event folds (.event folds' .refl)⟩

namespace ExecutionElement

theorem sweep_gives {regression}
    (gives : (sweep regression children).Runs (does env cause) s () t) :
    (∀ child ∈ children, child.kind ∈ [ObjectKind.thread]) ∧
      s.Sends cause (children.map cancelOf) t := by
  refine ThreadElement.each_cancels (fun child s t gives => ?_) children gives
  cases kind : child.kind with
  | thread =>
    simp only [kind, appendCommand_gives] at gives
    simpa [cancelOf, kind] using gives
  | _ =>
    simp only [kind] at gives
    exact gives.elim

theorem runDeadline_then {machine f} {b : β}
    (gives : (runDeadline (machine.timeoutSeconds.filter (0 < ·)) >>= f).Runs
      (does env cause) s b t) :
    ∃ deadline, (((machine.timeoutSeconds.filter (0 < ·)).isSome && deadline.isNone) = false →
        RunDue machine deadline) ∧ (f deadline).Runs (does env cause) s b t := by
  obtain ⟨deadline, m, first, rest⟩ := Prog.runs_bind.mp gives
  unfold runDeadline at first
  unfold RunDue
  cases timeout : machine.timeoutSeconds.filter (0 < ·) with
  | none =>
    rw [timeout] at first
    obtain ⟨rfl, rfl⟩ := first
    exact ⟨none, fun _ => rfl, rest⟩
  | some seconds =>
    simp only [timeout, now_then, Prog.runs_pure] at first
    obtain ⟨at_, rfl, rfl⟩ := first
    refine ⟨_, fun due => ?_, rest⟩
    obtain ⟨due, isDue⟩ := Option.isSome_iff_exists.mp
      (by simpa using due : (at_.checkedAdd seconds.toNat).isSome)
    exact ⟨at_, due, isDue, isDue⟩

theorem create_gives {c} (coherent : s.Coherent env M)
    (gives : (create c).Runs (does env cause) s () t) :
    s.Answers env M cause (.createExecution c) t := by
  unfold create at gives
  rw [peekExecution_then] at gives
  cases unused : s.rows.getExecution ⟨c.name, .nil⟩ with
  | some exec =>
    rw [unused] at gives
    exact gives.elim
  | none =>
    simp only [unused, mint_then] at gives
    obtain ⟨uid, gives⟩ := gives
    obtain ⟨r, machines, -, version, gives⟩ := machineOr_then coherent gives
    cases r with
    | error e => exact gives.elim
    | ok machine =>
      have bound := version machine rfl
      dsimp only at gives
      obtain ⟨deadline, due, gives⟩ := runDeadline_then gives
      split at gives
      · exact gives.elim
      next ok =>
      simp only [now_then, appendEvent_then, mint_then, nextGeneratedSeq_then,
        appendCommand_gives] at gives
      obtain ⟨at_, ts, folds, rootUid, at_', ts', folds', ts'', rfl⟩ := gives
      exact ⟨_, .executionCreated unused bound (due (eq_false_of_ne_true ok)) rfl,
        .event folds (.take (.event folds' (.command .refl)))⟩

theorem children_onExecution {r f} : (p.onExecution r f).children = p.children := by
  unfold Projection.onExecution
  split <;> rfl

theorem complete_gives {c} (gives : (complete c).Runs (does env cause) s () t) :
    s.Answers env M cause (.completeExecution c) t := by
  unfold complete at gives
  obtain ⟨exec, there, gives⟩ := Prog.runs_found getExecution_then gives id
  simp only [now_then] at gives
  obtain ⟨at_, gives⟩ := gives
  rcases opens : exec.markCompleting c.output at_ with why | completing
  · rw [opens] at gives
    exact gives.elim
  simp only [opens, appendEvent_then, getChildren_then] at gives
  obtain ⟨ts, folds, children, perm, gives⟩ := gives
  have same : (s.fold cause ts (.executionCompleting completing)).rows.getChildren =
      s.rows.getChildren := ThreadElement.getChildren_of_eq children_onExecution
  rw [same] at perm
  cases children with
  | cons child rest => exact gives.elim
  | nil =>
    simp only [debugAssert_then, appendEvent_gives] at gives
    obtain ⟨completed, closes, ts', folds', rfl⟩ := gives
    exact ⟨_, .executionCompleted there opens (List.nil_perm.mp perm) closes,
      .event folds (.event folds' .refl)⟩

theorem requireUid_then {name uid exec f} {b : β}
    (gives : (requireUid name uid exec >>= f).Runs (does env cause) s b t) :
    (∀ want, uid = some want → want = exec.metadata.uid) ∧ (f ()).Runs (does env cause) s b t := by
  obtain ⟨_, m, first, rest⟩ := Prog.runs_bind.mp gives
  unfold requireUid at first
  cases uid with
  | none =>
    obtain ⟨-, rfl⟩ := first
    exact ⟨by rintro _ ⟨⟩, rest⟩
  | some want =>
    dsimp only at first
    split at first
    · next same =>
        obtain ⟨-, rfl⟩ := first
        refine ⟨?_, rest⟩
        rintro _ ⟨⟩
        exact same
    · rw [platform_then] at first
      exact first.elim

theorem terminate_gives {c} (gives : (terminate c).Runs (does env cause) s () t) :
    s.Answers env M cause (.terminateExecution c) t := by
  unfold terminate at gives
  obtain ⟨exec, there, gives⟩ := Prog.runs_found getExecution_then gives id
  dsimp only at gives
  obtain ⟨uid, gives⟩ := requireUid_then gives
  rw [now_then] at gives
  obtain ⟨at_, gives⟩ := gives
  rcases opens : exec.markTerminating c.reason at_ with why | terminating
  · rw [opens] at gives
    exact gives.elim
  simp only [opens, appendEvent_then, getChildren_then] at gives
  obtain ⟨ts, folds, children, perm, gives⟩ := gives
  have same : (s.fold cause ts (.executionTerminating terminating)).rows.getChildren =
      s.rows.getChildren := ThreadElement.getChildren_of_eq children_onExecution
  rw [same] at perm
  cases children with
  | cons child rest =>
    obtain ⟨kinds, sends⟩ := sweep_gives gives
    exact ⟨_, .executionSwept there uid opens (ne_nil_of_perm perm) ⟨_, perm, kinds, rfl⟩,
      .event folds sends.writes⟩
  | nil =>
    simp only [List.isEmpty_nil, if_true, now_then] at gives
    obtain ⟨at_', gives⟩ := gives
    rcases closes : terminating.markTerminated at_' with why | terminated
    · rw [closes] at gives
      exact gives.elim
    simp only [closes, appendEvent_gives] at gives
    obtain ⟨ts', folds', rfl⟩ := gives
    exact ⟨_, .executionTerminated there uid opens (List.nil_perm.mp perm) closes,
      .event folds (.event folds' .refl)⟩

theorem continueTerminate_gives (kind : r.kind = .execution)
    (gives : (continueTerminate (r.typed .execution)).Runs (does env cause) s () t) :
    s.Answers env M cause (.continueTerminate r) t := by
  unfold continueTerminate at gives
  obtain ⟨exec, there, gives⟩ := Prog.runs_found getExecution_then gives id
  dsimp only at gives
  cases phase : exec.status with
  | terminating reason =>
    simp only [phase, Status.isTerminating, Bool.not_true, Bool.false_eq_true, if_false,
      getChildren_then] at gives
    obtain ⟨children, perm, gives⟩ := gives
    cases children with
    | cons child rest =>
      obtain ⟨kinds, sends⟩ := sweep_gives gives
      exact ⟨_, .executionSweptAgain kind there phase (ne_nil_of_perm perm)
        ⟨_, perm, kinds, rfl⟩, sends.writes⟩
    | nil =>
      simp only [List.isEmpty_nil, Bool.not_true, Bool.false_eq_true, if_false,
        now_then] at gives
      obtain ⟨at_, gives⟩ := gives
      rcases closes : exec.markTerminated at_ with why | terminated
      · rw [closes] at gives
        exact gives.elim
      simp only [closes, appendEvent_gives] at gives
      obtain ⟨ts, folds, rfl⟩ := gives
      exact ⟨_, .executionClosedTerminated kind there (List.nil_perm.mp perm) closes,
        .event folds .refl⟩
  | running | completing | completed | terminated =>
    simp only [phase, Status.isTerminating, Bool.not_false, if_true, platform_then] at gives
    exact gives.elim

theorem continueComplete_gives (kind : r.kind = .execution)
    (gives : (continueComplete (r.typed .execution)).Runs (does env cause) s () t) :
    s.Answers env M cause (.continueComplete r) t := by
  unfold continueComplete at gives
  obtain ⟨exec, there, gives⟩ := Prog.runs_found getExecution_then gives id
  dsimp only at gives
  split at gives
  · rw [platform_then] at gives
    exact gives.elim
  rw [getChildren_then] at gives
  obtain ⟨children, perm, gives⟩ := gives
  cases children with
  | cons child rest => exact gives.elim
  | nil =>
    simp only [now_then] at gives
    obtain ⟨at_, gives⟩ := gives
    rcases closes : exec.markCompleted at_ with why | completed
    · rw [closes] at gives
      exact gives.elim
    simp only [closes, appendEvent_gives] at gives
    obtain ⟨ts, folds, rfl⟩ := gives
    exact ⟨_, .executionClosedCompleted kind there (List.nil_perm.mp perm) closes,
      .event folds .refl⟩

theorem open_then {r f} {b : β} (gives : (open_ r >>= f).Runs (does env cause) s b t) :
    (f ()).Runs (does env cause) s b t :=
  have opened : (ThreadElement.openOwner (.execution r) >>= f).Runs (does env cause) s b t := gives
  (ThreadElement.openOwner_then opened).2

theorem onDeadlineFired_gives {r}
    (gives : (onDeadlineFired r deadline).Runs (does env cause) s () t) :
    s.Answers env M cause (.triggerDeadline (.execution r) deadline) t := by
  unfold onDeadlineFired at gives
  obtain ⟨exec, there, gives⟩ := Prog.runs_found getExecution_then gives id
  dsimp only at gives
  cases phase : exec.status with
  | running | completing | terminating =>
    simp only [phase, appendCommand_gives] at gives
    obtain ⟨ts, rfl⟩ := gives
    exact ⟨_, .executionTimedOut there (by rw [phase]), .command .refl⟩
  | completed | terminated =>
    simp only [phase] at gives
    exact gives.elim

end ExecutionElement

/-! ## Activities -/

namespace ActivityElement

theorem open_then {r f} {b : β} (gives : (open_ r >>= f).Runs (does env cause) s b t) :
    (f ()).Runs (does env cause) s b t :=
  have opened : (ThreadElement.openOwner (.activity r) >>= f).Runs (does env cause) s b t := gives
  (ThreadElement.openOwner_then opened).2

theorem sweep_gives {label node}
    (gives : (sweep label node children).Runs (does env cause) s () t) :
    (∀ child ∈ children, child.kind ∈ [ObjectKind.thread, ObjectKind.task]) ∧
      s.Sends cause (children.map cancelOf) t := by
  refine ThreadElement.each_cancels (fun child s t gives => ?_) children gives
  cases kind : child.kind with
  | thread | task =>
    simp only [kind, appendCommand_gives] at gives
    simpa [cancelOf, kind] using gives
  | _ =>
    simp only [kind] at gives
    exact gives.elim

theorem onDeadlineFired_gives {r} (coherent : s.Coherent env M)
    (gives : (onDeadlineFired r deadline).Runs (does env cause) s () t) :
    s.Answers env M cause (.triggerDeadline (.activity r) deadline) t := by
  unfold onDeadlineFired at gives
  obtain ⟨act, there, gives⟩ := Prog.runs_found getActivity_then gives id
  dsimp only at gives
  cases phase : act.status with
  | running =>
    simp only [phase] at gives
    obtain ⟨thread, d, machines, -, owner, defines, gives⟩ := stateOf_then coherent gives
    cases d with
    | wait c =>
      obtain ⟨ts, rfl⟩ := appendCommand_gives.mp gives
      exact ⟨_, .activityTimedOut there (by rw [phase]; exact ⟨thread, _, owner, defines, rfl⟩),
        .command .refl⟩
    | task c =>
      dsimp only at gives
      split at gives
      · exact gives.elim
      next unsettled =>
      obtain ⟨ts, rfl⟩ := appendCommand_gives.mp gives
      have unsettled : act.rawOutput = none := by simpa using unsettled
      exact ⟨_, .activityTimedOut there
        (by rw [phase]; exact ⟨thread, _, owner, defines, unsettled, rfl⟩), .command .refl⟩
    | pass | choice | succeed | fail | parallel | map => exact gives.elim
  | completing | terminating =>
    simp only [phase, appendCommand_gives] at gives
    obtain ⟨ts, rfl⟩ := gives
    exact ⟨_, .activityTimedOut there (by rw [phase]), .command .refl⟩
  | completed | terminated =>
    simp only [phase] at gives
    exact gives.elim

theorem continueTerminate_gives (kind : r.kind = .activity) (coherent : s.Coherent env M)
    (gives : (continueTerminate (r.typed .activity)).Runs (does env cause) s () t) :
    s.Answers env M cause (.continueTerminate r) t := by
  unfold continueTerminate at gives
  obtain ⟨act, there, gives⟩ := Prog.runs_found getActivity_then gives id
  dsimp only at gives
  cases phase : act.status with
  | terminating reason =>
    simp only [phase, Status.isTerminating, Bool.not_true, Bool.false_eq_true, if_false,
      getChildren_then] at gives
    obtain ⟨children, perm, gives⟩ := gives
    cases children with
    | cons child rest =>
      obtain ⟨kinds, sends⟩ := sweep_gives gives
      exact ⟨_, .activitySwept kind there (.inr ⟨rfl, reason, phase⟩)
        (ne_nil_of_perm perm) ⟨_, perm, kinds, rfl⟩, sends.writes⟩
    | nil =>
      simp only [List.isEmpty_nil, Bool.not_true, Bool.false_eq_true, if_false] at gives
      obtain ⟨thread, d, machines, -, owner, defines, gives⟩ := stateOf_then coherent gives
      dsimp only at gives
      split at gives
      · exact gives.elim
      next defers =>
      rw [getVariables_then] at gives
      obtain ⟨ds, terminates, writes⟩ := afterTerminating_gives gives
      exact ⟨ds, .activityClosedTerminated kind there phase (List.nil_perm.mp perm) owner
        defines (by simpa using defers) terminates, writes⟩
  | running | completing | completed | terminated =>
    simp only [phase, Status.isTerminating, Bool.not_false, if_true, platform_then] at gives
    exact gives.elim

theorem continueComplete_gives (kind : r.kind = .activity) (coherent : s.Coherent env M)
    (gives : (continueComplete (r.typed .activity)).Runs (does env cause) s () t) :
    s.Answers env M cause (.continueComplete r) t := by
  unfold continueComplete at gives
  obtain ⟨act, there, gives⟩ := Prog.runs_found getActivity_then gives id
  dsimp only at gives
  split at gives
  · rw [platform_then] at gives
    exact gives.elim
  next is =>
  have phase : act.status = .completing := ThreadElement.isCompleting_iff.mp (by simpa using is)
  rw [getChildren_then] at gives
  obtain ⟨children, perm, gives⟩ := gives
  cases children with
  | cons child rest =>
    obtain ⟨kinds, sends⟩ := sweep_gives gives
    exact ⟨_, .activitySwept kind there (.inl ⟨rfl, phase⟩) (ne_nil_of_perm perm)
      ⟨_, perm, kinds, rfl⟩, sends.writes⟩
  | nil =>
    simp only [List.isEmpty_nil, Bool.not_true, Bool.false_eq_true, if_false] at gives
    obtain ⟨thread, d, machines, -, owner, defines, gives⟩ := stateOf_then coherent gives
    dsimp only at gives
    split at gives
    · exact gives.elim
    next defers =>
    rw [getVariables_then] at gives
    obtain ⟨-, as, ds, ending, concludes, emits, writes⟩ := afterCompleting_gives gives
    exact ⟨_, .activityConcluded kind there phase (List.nil_perm.mp perm) owner defines
      (by simpa using defers) concludes emits, writes⟩

end ActivityElement

/-! ## States -/

theorem initialActivity_statePath (d : State) (act : Activity) :
    ((handlerFor d).initialActivity act).statePath = act.statePath := by
  cases d <;> rfl

theorem startStates_initial (d : State) (act : Activity) :
    startStates ((handlerFor d).initialActivity act) = States.build
      { input := ((handlerFor d).initialActivity act).rawInput
        stateName := act.statePath.stateName
        retryCount := ((handlerFor d).initialActivity act).retryCount } := by
  unfold startStates
  rw [initialActivity_statePath]

theorem initialActivity_objectRef (d : State) (act : Activity) :
    ((handlerFor d).initialActivity act).objectRef = act.objectRef := by
  cases d <;> rfl

/-- A freshly minted name leaves the counter where minting put it. -/
theorem entered_counter (d : State) (c : ActivateState) (uid : Ulid) (p : Projection)
    (at_ ts ts' : Timestamp) (activated : Activity) :
    ((Event.stateActivated activated).apply ts' ((Event.stateActivating
      (enteredActivity d c uid p.nextGeneratedSeq at_)).apply ts
        (p.putNextGeneratedSeq (p.nextGeneratedSeq + 1)))).nextGeneratedSeq =
      p.nextGeneratedSeq + 1 := by
  rw [Event.apply_counter, Event.apply_counter]
  have name : (enteredActivity d c uid p.nextGeneratedSeq at_).metadata.name =
      c.execution.name.base.generatedFromKey p.nextGeneratedSeq := by cases d <;> rfl
  simp only [Event.raised, Event.bornName, Projection.putNextGeneratedSeq, name]
  exact Nat.max_self _

theorem activate_gives {c} (found : s.rows.getThread c.owner = some thread)
    (running : thread.status = .running) (defines : s.rows.Binds M thread c.statePath d)
    (gives : ((handlerFor d).activate c thread).Runs (does env cause) s () t) :
    s.Answers env M cause (.activateState c) t := by
  unfold StateHandler.activate at gives
  simp only [mint_then, nextGeneratedSeq_then, now_then, getVariables_then, appendEvent_then,
    ← startStates_initial] at gives
  obtain ⟨uid, at_, ts, folds, at_', gives⟩ := gives
  obtain ⟨r, input, gives⟩ := (processInput_reads _ _ _ _ _).then gives
  cases r with
  | error e =>
    have sends := failState_gives gives
    rw [← initialActivity_objectRef d] at sends
    exact ⟨_, .stateRefused found running defines rfl input, .take (.event folds sends.writes)⟩
  | ok prepared =>
    obtain ⟨v, prepared⟩ := prepared
    simp only [now_then, appendEvent_then] at gives
    obtain ⟨at_'', ts', folds', gives⟩ := gives
    obtain ⟨r, m, launched, gives⟩ := Prog.runs_bind.mp gives
    obtain ⟨ds, launches, writes⟩ := afterActivated_gives launched
    have counter := entered_counter d c uid s.rows at_ ts ts' { prepared with
      input := some v, metadata := prepared.metadata.withUpdateAt at_'' }
    have launches := counter ▸ launches
    have followed : m.Writes cause (afterLaunch d (enteredActivity d c uid
        s.rows.nextGeneratedSeq at_).objectRef v r) t := by
      unfold enteredActivity
      rw [initialActivity_objectRef]
      cases r with
      | error e => exact (failState_gives gives).writes
      | ok _ =>
        dsimp only [afterLaunch] at gives ⊢
        split at gives
        · next direct =>
            rw [if_pos direct]
            obtain ⟨ts'', rfl⟩ := appendCommand_gives.mp gives
            exact .command .refl
        · next later =>
            rw [if_neg later]
            obtain ⟨-, rfl⟩ := gives
            exact .refl
    exact ⟨_, .stateEntered found running defines rfl input rfl launches,
      .take (.event folds (.event folds' (writes.append followed)))⟩

theorem scopes_onActivity {r f} : (p.onActivity r f).scopes = p.scopes := by
  unfold Projection.onActivity
  split <;> rfl

theorem complete_gives {c} (found : s.rows.getActivity c.activity = some act)
    (owner : s.rows.getThread act.metadata.owner = some thread)
    (running : thread.status = .running) (defines : s.rows.Binds M thread act.statePath d)
    (gives : ((handlerFor d).complete c act thread).Runs (does env cause) s () t) :
    s.Answers env M cause (.completeState c) t := by
  unfold StateHandler.complete at gives
  rw [now_then] at gives
  obtain ⟨at_, gives⟩ := gives
  rcases opens : act.markCompleting c.output at_ with why | completing
  · rw [opens] at gives
    exact gives.elim
  simp only [opens, appendEvent_then, getVariables_then] at gives
  obtain ⟨ts, folds, gives⟩ := gives
  obtain ⟨drained, as, ds, ending, concludes, emits, writes⟩ := afterCompleting_gives gives
  have scope : (s.fold cause ts (.stateCompleting completing)).rows.getVariables
      thread.objectRef = s.rows.getVariables thread.objectRef := by
    unfold Projection.getVariables
    exact congrArg (fun scopes : Table ObjectName Variables =>
      (scopes.lookup thread.objectRef.name).getD ∅) scopes_onActivity
  have same : (s.fold cause ts (.stateCompleting completing)).rows.getChildren =
      s.rows.getChildren := ThreadElement.getChildren_of_eq (children_replaced _ _ _)
  rw [scope] at concludes
  rw [same] at drained
  exact ⟨_, .stateCompleted found owner running defines opens drained concludes emits,
    .event folds writes⟩

theorem beginTerminating_gives (found : s.rows.getActivity c.activity = some act)
    (live : act.status = .running ∨ act.status = .completing)
    (owner : s.rows.getThread act.metadata.owner = some thread)
    (defines : s.rows.Binds M thread act.statePath d)
    (uncaught : ∀ k error, d = .task k → c.reason = .failed error →
      (k.catch_.getD []).find? (fun c => error.matchesErrorNames c.errorEquals) = none)
    (gives : ((handlerFor d).beginTerminating c act thread).Runs (does env cause) s () t) :
    s.Answers env M cause (.terminateState c) t := by
  unfold StateHandler.beginTerminating at gives
  rw [now_then] at gives
  obtain ⟨at_, gives⟩ := gives
  rcases opens : act.markTerminating c.reason at_ with why | terminating
  · rw [opens] at gives
    exact gives.elim
  simp only [opens, appendEvent_then, getVariables_then] at gives
  obtain ⟨ts, folds, gives⟩ := gives
  obtain ⟨ds, terminates, writes⟩ := afterTerminating_gives gives
  have same : (s.fold cause ts (.stateTerminating terminating)).rows.getChildren =
      s.rows.getChildren := ThreadElement.getChildren_of_eq (children_replaced _ _ _)
  have terminates : Terminates env d terminating s.rows t.rows ds := by
    unfold Terminates Picks at terminates ⊢
    rwa [same] at terminates
  exact ⟨_, .stateTerminated found live owner defines uncaught opens terminates,
    .event folds writes⟩

theorem catchOutcome_eq {catcher owner states raw scope}
    {f : Except ExecutionError Json → Handler β} :
    (catchOutcome catcher owner states scope raw >>= f) =
      projecting owner catcher.assign catcher.output states scope raw (fun e => f (.error e))
        fun out => f (.ok out) := by
  unfold catchOutcome
  rw [Prog.bind_assoc]
  refine projecting_of _ _ _ _ (fun _ => rfl) fun scope => ?_
  dsimp only
  congr 1
  funext r
  cases r <;> rfl

/-- A failure of a Task that its own `Catch` takes. -/
theorem caught_gives {k error routing} (found : s.rows.getActivity c.activity = some act)
    (live : act.status = .running ∨ act.status = .completing)
    (owner : s.rows.getThread act.metadata.owner = some thread)
    (defines : s.rows.Binds M thread act.statePath (.task k)) (reason : c.reason = .failed error)
    (gives : (taskOnFailed k act error).Runs (does env cause) s routing t) :
    routing = .uncaught ∧ t = s ∧
        (k.catch_.getD []).find? (fun c => error.matchesErrorNames c.errorEquals) = none ∨
      routing = .caught ∧
        s.Answers env M cause (.terminateState c) t := by
  unfold taskOnFailed at gives
  rcases matched : (k.catch_.getD []).find? fun c => error.matchesErrorNames c.errorEquals with
    _ | catcher
  · rw [matched] at gives
    obtain ⟨rfl, rfl⟩ := gives
    exact .inl ⟨rfl, rfl, matched⟩
  simp only [matched, catchWith, peekThread_then, owner, peekVariables_then, catchOutcome_eq] at gives
  obtain ⟨r, as, m, projects, writes, children, gives⟩ := projecting_gives gives
  cases r with
  | error e =>
    obtain ⟨_, m', failed, rfl, rfl⟩ := Prog.runs_bind.mp gives
    exact .inr ⟨rfl, _, .catchFailed found live owner defines reason matched projects,
      writes.append (failState_gives failed).writes⟩
  | ok output =>
    simp only [onProjected, peekChildren_then] at gives
    obtain ⟨tasks, perm, gives⟩ := gives
    obtain ⟨_, m', cancelled, gives⟩ := Prog.runs_bind.mp gives
    simp only [now_then, appendEvent_then] at gives
    obtain ⟨at_, ts, folds, gives⟩ := gives
    obtain ⟨_, m'', moved, rfl, rfl⟩ := Prog.runs_bind.mp gives
    have sends := cancelTasks_gives rfl cancelled
    rw [ThreadElement.getChildren_of_eq children] at perm
    exact .inr ⟨rfl, _, .stateCaught found live owner defines reason matched projects
      ⟨_, perm, rfl⟩ rfl, (writes.append sends.writes).append
        (.event folds (transitionTo_gives moved))⟩

theorem terminate_gives (found : s.rows.getActivity c.activity = some act)
    (live : act.status = .running ∨ act.status = .completing)
    (owner : s.rows.getThread act.metadata.owner = some thread)
    (defines : s.rows.Binds M thread act.statePath d)
    (gives : ((handlerFor d).terminate c act thread).Runs (does env cause) s () t) :
    s.Answers env M cause (.terminateState c) t := by
  unfold StateHandler.terminate at gives
  have other : (∀ error, c.reason ≠ .failed error) → ∀ (k : TaskState) error, d = .task k →
      c.reason = .failed error →
      (k.catch_.getD []).find? (fun c => error.matchesErrorNames c.errorEquals) = none :=
    fun never _ error _ failed => absurd failed (never error)
  cases reason : c.reason with
  | failed error =>
    simp only [reason] at gives
    cases d with
    | task k =>
      obtain ⟨routing, m, first, rest⟩ := Prog.runs_bind.mp gives
      obtain ⟨rfl, rfl, unmatched⟩ | ⟨rfl, answered⟩ :=
        caught_gives found live owner defines reason first
      · refine beginTerminating_gives found live owner defines ?_ rest
        rintro k' error' ⟨⟩ failed
        rw [reason] at failed
        cases failed
        exact unmatched
      · obtain ⟨-, rfl⟩ := rest
        exact answered
    | pass | wait | choice | succeed | fail | parallel | map =>
      exact beginTerminating_gives found live owner defines (by rintro _ _ ⟨⟩) gives
  | cancelled | timedOut =>
    simp only [reason] at gives
    exact beginTerminating_gives found live owner defines (other (by simp [reason])) gives

/-! ## Tasks -/

namespace TaskElement

theorem complete_gives {c} (coherent : s.Coherent env M)
    (gives : (complete c).Runs (does env cause) s () t) :
    s.Answers env M cause (.completeTask c) t := by
  unfold complete at gives
  obtain ⟨row, there, gives⟩ := Prog.runs_found getTask_then gives id
  simp only [platform_then, now_then] at gives
  obtain ⟨at_, gives⟩ := gives
  rcases closes : row.markCompleted env.showWorker c.workerId at_ with reason | completed
  · rw [closes] at gives
    exact gives.elim
  simp only [closes] at gives
  have gives := ActivityElement.open_then gives
  rw [appendEvent_then] at gives
  obtain ⟨ts, folds, gives⟩ := gives
  obtain ⟨act, thread, d, cs, told, sends⟩ :=
    ActivityElement.afterChildCompleted_gives (coherent.fold rfl) gives
  rw [← sends.same] at told
  exact ⟨_, .taskCompleted there closes told, .event folds sends.writes⟩

theorem cancel_gives {task} (coherent : s.Coherent env M)
    (gives : (cancel task).Runs (does env cause) s () t) :
    s.Answers env M cause (.cancelTask task) t := by
  unfold cancel at gives
  obtain ⟨row, there, gives⟩ := Prog.runs_found getTask_then gives id
  simp only [now_then] at gives
  obtain ⟨at_, gives⟩ := gives
  rcases closes : row.markCancelled at_ with reason | cancelled
  · rw [closes] at gives
    exact gives.elim
  simp only [closes] at gives
  have gives := ActivityElement.open_then gives
  rw [appendEvent_then] at gives
  obtain ⟨ts, folds, gives⟩ := gives
  obtain ⟨act, thread, d, cs, told, sends⟩ :=
    ActivityElement.afterChildCompleted_gives (coherent.fold rfl) gives
  rw [← sends.same] at told
  exact ⟨_, .taskCancelled there closes told, .event folds sends.writes⟩

theorem fail_gives {c} (gives : (fail c).Runs (does env cause) s () t) :
    s.Answers env M cause (.failTask c) t := by
  unfold fail at gives
  obtain ⟨row, there, gives⟩ := Prog.runs_found getTask_then gives id
  simp only [platform_then, now_then] at gives
  obtain ⟨at_, gives⟩ := gives
  rcases fails : row.handleFailure env.showWorker env.backoff env.debug c.workerId c.error at_ with
    fault | taken
  · rw [fails] at gives
    cases fault <;> exact gives.elim
  obtain ⟨failed, outcome⟩ := taken
  simp only [fails, appendEvent_then] at gives
  obtain ⟨ts, folds, gives⟩ := gives
  refine ⟨_, .taskFailed there fails, Draft.Writes.event folds (?_ : (s.fold cause ts _).Writes ..)⟩
  split at gives
  · next terminal =>
      rw [if_pos terminal]
      obtain ⟨ts', rfl⟩ := appendCommand_gives.mp gives
      exact .command .refl
  · next retried =>
      rw [if_neg retried]
      obtain ⟨-, rfl⟩ := gives
      exact .refl

theorem claim_gives {c} (gives : (claim c).Runs (does env cause) s () t) :
    s.Answers env M cause (.claimTasks c) t := by
  unfold claim at gives
  rw [now_then] at gives
  obtain ⟨at_, gives⟩ := gives
  rcases lease : at_.checkedAdd c.leaseSeconds with _ | due
  · rw [lease] at gives
    exact gives.elim
  simp only [lease, activatableTasks_then, appendEvent_gives] at gives
  obtain ⟨tasks, granted, ts, folds, rfl⟩ := gives
  exact ⟨_, .tasksClaimed lease granted, .event folds .refl⟩

end TaskElement

/-! ## Dispatch -/

theorem handleActivateState_gives {c} (coherent : s.Coherent env M)
    (gives : (handleActivateState c).Runs (does env cause) s () t) :
    s.Answers env M cause (.activateState c) t := by
  unfold handleActivateState at gives
  obtain ⟨thread, there, gives⟩ := Prog.runs_found getThread_then gives id
  dsimp only at gives
  split at gives
  · exact gives.elim
  next running =>
  rw [platform_then] at gives
  obtain ⟨d, machines, -, defines, gives⟩ := stateOfThread_then coherent gives
  exact activate_gives (s := { s with machines := machines }) there
    (ThreadElement.isRunning_iff.mp (by simpa using running)) defines gives

theorem handleCompleteState_gives {c} (coherent : s.Coherent env M)
    (gives : (handleCompleteState c).Runs (does env cause) s () t) :
    s.Answers env M cause (.completeState c) t := by
  unfold handleCompleteState at gives
  obtain ⟨act, there, gives⟩ := Prog.runs_found getActivity_then gives id
  obtain ⟨thread, owner, gives⟩ := Prog.runs_found getThread_then gives id
  simp only [platform_then] at gives
  obtain ⟨d, machines, -, defines, gives⟩ := stateOfThread_then coherent gives
  split at gives
  · exact gives.elim
  split at gives
  · exact gives.elim
  next running =>
  exact complete_gives (s := { s with machines := machines }) there owner
    (ThreadElement.isRunning_iff.mp (by simpa using running)) defines gives

theorem resolveAndTerminate_gives (found : s.rows.getActivity c.activity = some act)
    (live : act.status = .running ∨ act.status = .completing) (coherent : s.Coherent env M)
    (gives : (resolveAndTerminate c act).Runs (does env cause) s () t) :
    s.Answers env M cause (.terminateState c) t := by
  unfold resolveAndTerminate at gives
  obtain ⟨thread, owner, gives⟩ := Prog.runs_found getThread_then gives id
  simp only [platform_then] at gives
  obtain ⟨d, machines, -, defines, gives⟩ := stateOfThread_then coherent gives
  exact terminate_gives (s := { s with machines := machines }) found live owner defines gives

theorem handleTerminateState_gives (coherent : s.Coherent env M)
    (gives : (handleTerminateState c).Runs (does env cause) s () t) :
    s.Answers env M cause (.terminateState c) t := by
  unfold handleTerminateState at gives
  obtain ⟨act, there, gives⟩ := Prog.runs_found getActivity_then gives id
  dsimp only at gives
  cases phase : act.status with
  | running =>
    simp only [phase] at gives
    exact resolveAndTerminate_gives there (.inl phase) coherent gives
  | completing =>
    simp only [phase] at gives
    exact resolveAndTerminate_gives there (.inr phase) coherent gives
  | terminating | terminated | completed =>
    simp only [phase] at gives
    exact gives.elim

theorem fireDeadline_gives {target} (coherent : s.Coherent env M)
    (gives : (fireDeadline target deadline).Runs (does env cause) s () t) :
    s.Answers env M cause (.triggerDeadline target deadline) t := by
  cases target with
  | execution r => exact ExecutionElement.onDeadlineFired_gives (ExecutionElement.open_then gives)
  | activity r =>
    obtain ⟨_, m, opened, rest⟩ := Prog.runs_bind.mp gives
    obtain ⟨a, m', ⟨read, rfl⟩, opened⟩ := opened
    cases a with
    | none => exact opened.elim
    | some act =>
      obtain ⟨-, rfl⟩ : _ ∧ m = m' := opened
      exact ActivityElement.onDeadlineFired_gives coherent rest

theorem handleContinueComplete_gives (coherent : s.Coherent env M)
    (gives : (handleContinueComplete owner).Runs (does env cause) s () t) :
    s.Answers env M cause (.continueComplete owner) t := by
  unfold handleContinueComplete at gives
  cases kind : owner.kind with
  | activity =>
    simp only [kind] at gives
    exact ActivityElement.continueComplete_gives kind coherent gives
  | thread =>
    simp only [kind] at gives
    exact ThreadElement.continueComplete_gives kind coherent gives
  | execution =>
    simp only [kind] at gives
    exact ExecutionElement.continueComplete_gives kind gives
  | _ =>
    simp only [kind] at gives
    exact gives.elim

theorem handleContinueTerminate_gives (coherent : s.Coherent env M)
    (gives : (handleContinueTerminate owner).Runs (does env cause) s () t) :
    s.Answers env M cause (.continueTerminate owner) t := by
  unfold handleContinueTerminate at gives
  cases kind : owner.kind with
  | activity =>
    simp only [kind] at gives
    exact ActivityElement.continueTerminate_gives kind coherent gives
  | thread =>
    simp only [kind] at gives
    exact ThreadElement.continueTerminate_gives kind coherent gives
  | execution =>
    simp only [kind] at gives
    exact ExecutionElement.continueTerminate_gives kind gives
  | _ =>
    simp only [kind] at gives
    exact gives.elim

/-- Every answer of a dispatch is one of the possible ones. -/
theorem dispatchCommand_gives {c} (coherent : s.Coherent env M)
    (gives : (dispatchCommand c).Runs (does env cause) s () t) : s.Answers env M cause c t := by
  cases c with
  | createFlow c => exact FlowElement.create_gives gives
  | createExecution c => exact ExecutionElement.create_gives coherent gives
  | spawnThread c => exact ThreadElement.spawn_gives gives
  | completeExecution c => exact ExecutionElement.complete_gives gives
  | completeThread c => exact ThreadElement.complete_gives coherent gives
  | terminateExecution c => exact ExecutionElement.terminate_gives gives
  | terminateThread c => exact ThreadElement.terminate_gives coherent gives
  | activateState c => exact handleActivateState_gives coherent gives
  | completeState c => exact handleCompleteState_gives coherent gives
  | terminateState c => exact handleTerminateState_gives coherent gives
  | activateTask c =>
    obtain ⟨at_, gives⟩ := now_then.mp gives
    obtain ⟨ts, folds, rfl⟩ := appendEvent_gives.mp gives
    exact ⟨_, .taskActivated, .event folds .refl⟩
  | claimTasks c => exact TaskElement.claim_gives gives
  | completeTask c => exact TaskElement.complete_gives coherent gives
  | failTask c => exact TaskElement.fail_gives gives
  | triggerDeadline target deadline => exact fireDeadline_gives coherent gives
  | cancelTask task => exact TaskElement.cancel_gives coherent gives
  | continueComplete owner => exact handleContinueComplete_gives coherent gives
  | continueTerminate owner => exact handleContinueTerminate_gives coherent gives

/-- A dispatch without faults that answers gives one of the possible answers. -/
theorem dispatchOnce_outcome {command rows machines machines' a produced}
    (ff : a.toBackend.FaultFree) (coherent : Draft.Coherent env M ⟨rows, [], machines⟩)
    (ran : dispatchOnce env cause command rows machines a = (.ok produced, machines')) :
    ∃ ds, Outcome env M rows produced.rows command ds ∧
      Writes cause rows ds produced.entries produced.rows := by
  obtain ⟨ds, outcome, es, out, writes⟩ := dispatchCommand_gives coherent (dispatchOnce_gives ff ran)
  obtain rfl : produced.entries = es := out
  exact ⟨ds, outcome, writes⟩

end Spica
