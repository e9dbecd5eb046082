import Spica.Consequence
import Spica.Finish

/-! # Failures are settled

A failure of a Task's activity is either caught, or terminates the activity. When the projection of
the catcher fails, the same termination is asked for again, now with the error of the expression,
and looked up in the same list of catchers. This comes to an end when no catcher takes up the error
of an expression, or the one that does has no expression of its own; otherwise it never does.
-/

namespace Spica

open Log Projection

variable {cause' : Option Nat} {ts : Timestamp} {w : World} {produced : Produced}
    {machines' : MachineCache}

/-! ## Errors of expressions -/

mutual
/-- The value has no expression in it. -/
def Json.isLiteral : Json → Bool
  | .null | .bool _ | .number _ => true
  | .string s => extractJsonata s = .literal
  | .array items => literalItems items
  | .object fields => literalFields fields

def literalItems : List Json → Bool
  | [] => true
  | v :: rest => v.isLiteral && literalItems rest

def literalFields : List (String × Json) → Bool
  | [] => true
  | (_, v) :: rest => v.isLiteral && literalFields rest
end

section errors

variable {env : Env} {cause : Nat} {states : Json} {vars : Variables}

theorem evalExpr_error {text s t e}
    (gives : (evalExpr text states vars).Runs (Handler.does env cause) s (.error e) t) :
    e.errorName = "States.Runtime" := by
  obtain ⟨r, m, -, rest⟩ := Prog.runs_bind.mp gives
  cases r with
  | ok => cases rest.1
  | error =>
    cases rest.1
    rfl

/-! What fails is an expression in the value, with an error of one name. -/

mutual
theorem evalJson_error (value : Json) {s t e}
    (gives : (evalJson value states vars).Runs (Handler.does env cause) s (.error e) t) :
    value.isLiteral = false ∧ e.errorName = "States.Runtime" := by
  unfold evalJson at gives
  cases value with
  | null | bool | number => cases gives.1
  | string text =>
    cases extracted : extractJsonata text with
    | literal =>
      simp only [extracted] at gives
      cases gives.1
    | expr =>
      simp only [extracted] at gives
      exact ⟨by simp [Json.isLiteral, extracted], evalExpr_error gives⟩
    | panics =>
      simp only [extracted] at gives
      cases gives
  | array items =>
    obtain ⟨r, m, first, rest⟩ := Prog.runs_bind.mp gives
    cases r with
    | ok => cases rest.1
    | error =>
      cases rest.1
      simpa [Json.isLiteral] using evalItems_error items first
  | object fields =>
    obtain ⟨r, m, first, rest⟩ := Prog.runs_bind.mp gives
    cases r with
    | ok => cases rest.1
    | error =>
      cases rest.1
      simpa [Json.isLiteral] using evalFields_error fields first

theorem evalFields_error (fields : List (String × Json)) {s t e}
    (gives : (evalFields fields states vars).Runs (Handler.does env cause) s (.error e) t) :
    literalFields fields = false ∧ e.errorName = "States.Runtime" := by
  unfold evalFields at gives
  cases fields with
  | nil => cases gives.1
  | cons field rest =>
    obtain ⟨key, v⟩ := field
    obtain ⟨r, m, first, gives⟩ := Prog.runs_bind.mp gives
    cases r with
    | error =>
      cases gives.1
      simp [literalFields, evalJson_error v first]
    | ok =>
      obtain ⟨r, m', second, gives⟩ := Prog.runs_bind.mp gives
      cases r with
      | ok => cases gives.1
      | error =>
        cases gives.1
        simp [literalFields, evalFields_error rest second]

theorem evalItems_error (items : List Json) {s t e}
    (gives : (evalItems items states vars).Runs (Handler.does env cause) s (.error e) t) :
    literalItems items = false ∧ e.errorName = "States.Runtime" := by
  unfold evalItems at gives
  cases items with
  | nil => cases gives.1
  | cons v rest =>
    obtain ⟨r, m, first, gives⟩ := Prog.runs_bind.mp gives
    cases r with
    | error =>
      cases gives.1
      simp [literalItems, evalJson_error v first]
    | ok =>
      obtain ⟨r, m', second, gives⟩ := Prog.runs_bind.mp gives
      cases r with
      | ok => cases gives.1
      | error =>
        cases gives.1
        simp [literalItems, evalItems_error rest second]
end

variable {owner : ObjectRef .thread} {scope : Variables} {assign : Option AssignObject}
  {output : Option Json} {fallback : Json} {e : ExecutionError} {ds : List Deed}

/-- Neither what it assigns nor its output has an expression. -/
def Catcher.isLiteral (c : Catcher) : Bool :=
  c.assign.all (fun a => literalFields a.fields) && c.output.all Json.isLiteral

/-- A projection fails with the error of an expression, which is in one of the two. -/
theorem Projects.failed
    (projects : Projects env owner states scope assign output fallback (.error e) ds) :
    (assign.all (fun a => literalFields a.fields) && output.all Json.isLiteral) = false ∧
      e.errorName = "States.Runtime" := by
  cases projects with
  | unassigned assigns =>
    cases assigns with
    | failed evaluated =>
      obtain ⟨cause, s, t, gives⟩ := evaluated
      obtain ⟨expressed, name⟩ := evalJson_error _ gives
      simp only [Json.isLiteral] at expressed
      exact ⟨by simp [expressed], name⟩
  | assigned _ projected =>
    obtain ⟨cause, s, t, gives⟩ := projected
    unfold projectOutput at gives
    cases output with
    | none => cases gives.1
    | some value =>
      obtain ⟨expressed, name⟩ := evalJson_error _ gives
      exact ⟨by simp [expressed], name⟩

end errors

/-! ## Answers in a family -/

section answers

variable {env : Env} {C : Machines → Projection → Command → Prop} {n : Nat} {c : Command}
  {p q : Projection} {es : List Entry} {ok : World → Action → Prop}

/-- An answer among rows that are a family, to a command that meets a condition. -/
inductive FittingAnswer (env : Env) (C : Machines → Projection → Command → Prop) (n : Nat)
    (c : Command) (p : Projection) : List Entry → Projection → Prop
  | outcome {M q ds es} (family : p.Family) (meets : C M p c) (outcome : Outcome env M p q c ds)
      (fit : DeedsFit p.kin p.nextGeneratedSeq ds) (writes : Writes n p ds es q) :
      FittingAnswer env C n c p es q
  | refused (ts : Timestamp) (r : Reject) :
      FittingAnswer env C n c p [⟨some n, ts, .reject r⟩] p

theorem FittingAnswer.answer (fitting : FittingAnswer env C n c p es q) :
    ∃ M, Answer env M n c p es q := by
  cases fitting with
  | @outcome M _ _ _ _ _ outcome _ writes => exact ⟨M, .outcome outcome writes⟩
  | refused ts r => exact ⟨fun _ _ => True, .refused ts r⟩

theorem FittingAnswer.sound (env : Env) (C : Machines → Projection → Command → Prop) :
    Answering.Sound (FittingAnswer env C) where
  answers fitting := by
    obtain ⟨M, answer⟩ := fitting.answer
    exact (Answer.sound env M).answers answer
  mirrors fitting := by
    obtain ⟨M, answer⟩ := fitting.answer
    exact (Answer.sound env M).mirrors answer
  counter_le fitting := by
    obtain ⟨M, answer⟩ := fitting.answer
    exact (Answer.sound env M).counter_le answer

/-- A command that is dispatched meets the condition, whichever definitions the attempts at it find
    in the cache. -/
def World.Meets (env : Env) (C : Machines → Projection → Command → Prop) (w : World) :
    Action → Prop
  | .dispatch d => ∀ next leader cause ts c, w.proc = .running next leader →
      entryAt w.log next = some ⟨cause, ts, .command c⟩ → ∀ machines,
      CacheHeld env next c w.storage.rows (List.ofFn d.attempts) leader.definitions machines →
      C (InForce env w.storage.rows machines) w.storage.rows c
  | _ => True

theorem World.spared_answers (spared : ∀ w a, ok w a → World.Spared env w a) :
    World.AnswersBy env ok (Answer env fun _ _ => True) := by
  intro w next leader cause ts c d produced definitions _ good here entry decided
  exact processCommand_spared (spared _ _ good _ _ _ _ _ here entry) decided

/-- Every answer the leader gives in such a run is one among a family. -/
theorem World.fitting_answers (spared : ∀ w a, ok w a → World.Spared env w a)
    (meets : ∀ w a, ok w a → w.Meets env C a) :
    World.AnswersBy env ok (FittingAnswer env C) := by
  intro w next leader cause ts c d produced definitions run good here entry decided
  have advancing : Answering.Advancing (Answer env fun _ _ => True) :=
    ⟨(Answer.sound env _).answers, Answer.advances⟩
  obtain ⟨⟨log, p, queue⟩, turns, same, follows⟩ :=
    (Chronicled.of_run advancing spared (spared_answers spared) run).current
  have kindred := (turns.rooted id advancing).kindred
  rw [here] at follows
  obtain ⟨rows, -, waiting⟩ := follows
  obtain rfl : log = w.log := same
  obtain rfl : p = w.storage.rows := rows
  rw [commandsOf_drop entry] at waiting
  obtain rfl : queue = _ := waiting
  rcases attemptFrom_faultless (spared _ _ good _ _ _ _ _ here entry) decided with
    ⟨machines, a, held, ff, -, once⟩ | ⟨ts', r, entries, unchanged⟩
  · have coherent : Draft.Coherent env (InForce env w.storage.rows machines)
        ⟨w.storage.rows, [], machines⟩ :=
      ⟨fun _ _ cached => .inl cached, fun _ ver _ stored parsed => .inr ⟨ver, stored, parsed⟩⟩
    obtain ⟨ds, outcome, writes⟩ := dispatchOnce_outcome ff coherent (Prod.ext once rfl)
    exact .outcome kindred.family (meets _ _ good _ _ _ _ _ here entry machines held) outcome
      (kindred.confined outcome writes).fit writes
  · rw [entries, unchanged]
    exact .refused ts' r

end answers

/-! ## What a failure leads to -/

section failures

variable {env : Env} {M : Machines} {p q : Projection} {c c' : Command} {ds : List Deed}
  {log es : List Entry} {cause i j : Nat} {n : ObjectName}

/-- The termination is asked for because an expression failed, or something as grave. -/
def Command.failsAtRuntime : Command → Bool
  | .terminateState ⟨_, .failed e⟩ => e.errorName = "States.Runtime"
  | _ => false

/-- When the activity fails with the error of an expression, the catcher that takes it up, if there
    is one, has no expression of its own. -/
def Settles (M : Machines) (p : Projection) (c : Command) : Prop :=
  ∀ activity error act thread s catcher, c = .terminateState ⟨activity, .failed error⟩ →
    error.errorName = "States.Runtime" → p.getActivity activity = some act →
    p.getThread act.metadata.owner = some thread → p.Binds M thread act.statePath (.task s) →
    (s.catch_.getD []).find? (fun c => error.matchesErrorNames c.errorEquals) = some catcher →
    catcher.isLiteral = true

/-- What is left of a failure of the activity at the position `i`: a command at the position `j`. -/
structure Leftover (log : List Entry) (p : Projection) (i j : Nat) (n : ObjectName) (c : Command) :
    Prop where
  found : ∃ m, p.kin (.activity, n) = some m
  within : c.Within p (.activity, n)
  report : c.isReport = false
  again : c.terminates n = true → CausedBy Entry.causeId log i j ∧ c.failsAtRuntime = true
  spent : c.terminates n = false → p.Spent n

theorem Leftover.append (left : Leftover log p i j n c) (es : List Entry) :
    Leftover (log ++ es) p i j n c :=
  { left with again := fun asks => ⟨(left.again asks).1.append es, (left.again asks).2⟩ }

theorem Leftover.content (left : Leftover log p i j n c) (same : p.content = q.content) :
    Leftover log q i j n c where
  found := kin_content same ▸ left.found
  within := left.within.content same
  report := left.report
  again := left.again
  spent asks := (left.spent asks).content same

/-- It stays so while others are answered. -/
theorem Leftover.kept {c₀} (left : Leftover log p i j n c) (outcome : Outcome env M p q c₀ ds)
    (writes : Writes cause p ds es q) (family : p.Family)
    (fit : DeedsFit p.kin p.nextGeneratedSeq ds) : Leftover log q i j n c := by
  obtain ⟨m, found⟩ := left.found
  exact ⟨⟨m, (writes.family family fit).2 _ _ found⟩, left.within.mono writes family fit found,
    left.report, left.again, fun asks => outcome.keeps_spent writes family (left.spent asks)⟩

/-- The answer to a termination leaves the activity spent, or, when a catcher fails, asks for one
    more termination, with the error of an expression. -/
theorem Outcome.settles {t} (outcome : Outcome env M p q (.terminateState t) ds)
    (writes : Writes cause p ds es q) (family : p.Family) :
    q.Spent t.activity.name ∧ (∀ c', .command c' ∈ ds → c'.terminates t.activity.name = false) ∨
      (¬(Settles M p (.terminateState t) ∧ (Command.terminateState t).failsAtRuntime = true)) ∧
        ∃ c', deedCommands ds = [c'] ∧ c'.terminates t.activity.name = true ∧
          c'.failsAtRuntime = true := by
  rcases outcome.terminated writes family with spent | ⟨act, thread, s, error, e, catcher, as, found,
    owner, defines, reason, matched, projects, rfl⟩
  · exact .inl spent
  obtain ⟨activity, reason'⟩ := t
  obtain rfl : reason' = .failed error := reason
  refine .inr ⟨?_, .terminateState ⟨act.objectRef, .failed e⟩, ?_, ?_, ?_⟩
  · rintro ⟨settles, runtime⟩
    have literal := settles activity error act thread s catcher rfl (of_decide_eq_true runtime) found
      owner defines matched
    rw [Catcher.isLiteral, projects.failed.1] at literal
    cases literal
  · obtain ⟨r, assigns⟩ := projects.assigns
    have none : deedCommands as = [] := List.eq_nil_iff_forall_not_mem.mpr fun c there =>
      assigns.command (mem_deedCommands.mp there)
    rw [deedCommands_append, none]
    rfl
  · exact decide_eq_true (family.filed.activities _ _ found)
  · exact decide_eq_true projects.failed.2

/-- What an answer leaves behind, given what becomes of the activity. -/
theorem Outcome.leftover {m} (outcome : Outcome env M p q c ds) (writes : Writes cause p ds es q)
    (family : p.Family) (fit : DeedsFit p.kin p.nextGeneratedSeq ds)
    (found : p.kin (.activity, n) = some m) (within : c.Within p (.activity, n))
    (there : .command c' ∈ ds)
    (again : c'.terminates n = true → CausedBy Entry.causeId log i j ∧ c'.failsAtRuntime = true)
    (spent : c'.terminates n = false → q.Spent n) : Leftover log q i j n c' where
  found := ⟨m, (writes.family family fit).2 _ _ found⟩
  within := outcome.within writes family fit found within there
  report := Command.isReport_of_mayAsk (outcome.menu there)
  again := again
  spent := spent

theorem Outcome.leftover_of_failure {t} (outcome : Outcome env M p q (.terminateState t) ds)
    (writes : Writes cause p ds es q) (family : p.Family)
    (fit : DeedsFit p.kin p.nextGeneratedSeq ds) (there : .command c' ∈ ds)
    (caused : CausedBy Entry.causeId log i j) : Leftover log q i j t.activity.name c' := by
  obtain ⟨m, found, -⟩ := outcome.about (k := (.activity, t.activity.name)) rfl rfl
  have within : (Command.terminateState t).Within p (.activity, t.activity.name) := by
    rintro k ⟨⟩ -
    exact .refl
  rcases outcome.settles writes family with ⟨spent, spares⟩ | ⟨-, c'', only, asks, runtime⟩
  · refine outcome.leftover writes family fit found within there (fun asks => ?_) fun _ => spent
    rw [spares c' there] at asks
    cases asks
  · rw [← mem_deedCommands, only, List.mem_singleton] at there
    subst there
    refine outcome.leftover writes family fit found within (mem_deedCommands.mp (by simp [only]))
      (fun _ => ⟨caused, runtime⟩) fun other => ?_
    rw [asks] at other
    cases other

/-- What is left of a failure leads to no other termination. -/
theorem Leftover.next {j'} (left : Leftover log p i j n c) (meets : Settles M p c)
    (outcome : Outcome env M p q c ds) (writes : Writes cause p ds es q) (family : p.Family)
    (fit : DeedsFit p.kin p.nextGeneratedSeq ds) (there : .command c' ∈ ds) :
    Leftover log q i j' n c' := by
  obtain ⟨m, found⟩ := left.found
  have settled : c'.terminates n = false ∧ q.Spent n := by
    cases asks : c.terminates n with
    | false =>
      have spent := left.spent asks
      exact ⟨outcome.spares_spent writes family fit spent left.report left.within there,
        outcome.keeps_spent writes family spent⟩
    | true =>
      cases c with
      | terminateState t =>
        obtain rfl : t.activity.name = n := of_decide_eq_true asks
        rcases outcome.settles writes family with ⟨spent, spares⟩ | ⟨unsettled, -⟩
        · exact ⟨spares c' there, spent⟩
        · exact (unsettled ⟨meets, (left.again asks).2⟩).elim
      | _ => cases asks
  refine outcome.leftover writes family fit found left.within there (fun asks => ?_)
    fun _ => settled.2
  rw [settled.1] at asks
  cases asks

end failures

/-! ## Along a log -/

section along

variable {env : Env} {A : Answering} {p q : Projection} {log es : List Entry} {n j : Nat}

/-- A command at a new position is one of the batch. -/
theorem command_of_append {cause noopAt c} (after : log.length < j)
    (found : entryAt (log ++ (es ++ [⟨cause', noopAt, .noop⟩])) j = some ⟨cause, ts, .command c⟩) :
    ⟨cause, ts, .command c⟩ ∈ es := by
  obtain ⟨k, rfl⟩ : ∃ k, j = log.length + (k + 1) := ⟨j - log.length - 1, by omega⟩
  rw [entryAt_append_right] at found
  rcases List.mem_append.mp (List.mem_of_getElem? found) with there | there
  · exact there
  · cases List.mem_singleton.mp there

theorem Answering.Sound.batch (sound : A.Sound) {c} (answers : A n c p es q) (noopAt : Timestamp) :
    ∀ e ∈ es ++ [⟨some n, noopAt, .noop⟩], e.causeId = some n := by
  intro e there
  rcases List.mem_append.mp there with there | there
  · exact (sound.answers answers e there).1
  · cases List.mem_singleton.mp there
    rfl

theorem Annals.causal (sound : A.Sound) (annals : Annals A log p) : Causal Entry.causeId log := by
  induction annals with
  | empty =>
    rintro i j ⟨e, found, -⟩
    simp [entryAt] at found
  | client _ _ _ _ ih => exact ih.append (b := none) (by simp) (by simp)
  | @answer _ es _ _ _ n _ _ _ noopAt _ entry _ answers ih =>
    refine ih.append (sound.batch answers noopAt) ?_
    rintro _ ⟨⟩
    exact (entryAt_eq_some entry).2

/-- Every command a failure of an activity has led to is a leftover. -/
theorem Annals.leftovers (annals : Annals (FittingAnswer env Settles) log p) {i cause t}
    (failure : entryAt log i = some ⟨cause, ts, .command (.terminateState t)⟩) {ts' c}
    (leads : Leads Entry.causeId log i j) (found : entryAt log j = some ⟨cause', ts', .command c⟩) :
    Leftover log p i j t.activity.name c := by
  have sound := FittingAnswer.sound env Settles
  induction annals generalizing i j cause ts t cause' ts' c with
  | empty =>
    simp [entryAt] at found
  | @client log p c₀ at_ noopAt past client ih =>
    have old := leads.of_append (past.causal sound) (b := none) (by simp) (by simp)
    rcases old with ⟨old, leads⟩ | ⟨-, _, ⟨⟩, -⟩
    have before := leads.lt (past.causal sound)
    rw [entryAt_append (by omega)] at failure found
    exact (ih failure leads found).append _
  | @answer log es p q r m _ _ c₀ noopAt past entry same answers ih =>
    have batch := sound.batch answers noopAt
    have inside := (entryAt_eq_some entry).2
    have way := leads.of_append (past.causal sound) batch (by rintro _ ⟨⟩; exact inside)
    rcases way with ⟨old, leads⟩ | ⟨after, _, ⟨⟩, way⟩
    · have before := leads.lt (past.causal sound)
      rw [entryAt_append (by omega)] at failure found
      have left := (ih failure leads found).content same
      cases answers with
      | outcome family _ outcome fit writes =>
        exact (left.kept outcome writes family fit).append _
      | refused => exact left.append _
    · have new := command_of_append after found
      cases answers with
      | refused => cases List.mem_singleton.mp new
      | outcome family meets outcome fit writes =>
        have caused := batch _ (List.mem_append_left _ new)
        have new : c ∈ commandsOf es := List.mem_filterMap.mpr ⟨_, new, rfl⟩
        rw [writes.commands, mem_deedCommands] at new
        rcases way with rfl | leads
        · rw [entryAt_append inside, entry] at failure
          cases failure
          exact outcome.leftover_of_failure writes family fit new ⟨_, found, caused⟩
        · have before := leads.lt (past.causal sound)
          rw [entryAt_append (by omega)] at failure
          have left := (ih failure leads entry).content same
          exact (left.append _).next meets outcome writes family fit new

/-- The entry answers the command at the position and asks for the termination of the activity. -/
def Entry.terminates (i : Nat) (name : ObjectName) (e : Entry) : Bool :=
  e.causeId = some i && e.command?.any (Command.terminates name)

/-- The entry ends a batch that answers the command at the position. -/
def Entry.closes (i : Nat) (e : Entry) : Bool := e.causeId = some i && e.isNoop

theorem countP_terminates_le (i : Nat) (name : ObjectName) (es : List Entry) :
    es.countP (Entry.terminates i name) ≤ (commandsOf es).countP (Command.terminates name) := by
  unfold commandsOf
  rw [List.countP_filterMap]
  refine List.countP_mono_left fun e _ both => ?_
  have asks := (Bool.and_eq_true_iff.mp both).2
  cases command : e.command? with
  | none => simp [command] at asks
  | some c => simpa [command] using asks

section batches

variable {C : Machines → Projection → Command → Prop} {i : Nat} {name : ObjectName} {c : Command}

/-- An answer to a failure asks for one more termination of the activity at most. -/
theorem FittingAnswer.terminations_le {t}
    (answer : FittingAnswer env C n (.terminateState t) p es q) :
    (commandsOf es).countP (Command.terminates t.activity.name) ≤ 1 := by
  cases answer with
  | refused => exact Nat.zero_le 1
  | outcome family _ outcome _ writes =>
    rw [writes.commands]
    rcases outcome.settles writes family with ⟨-, spares⟩ | ⟨-, c', only, -⟩
    · rw [List.countP_eq_zero.mpr fun c there => by simp [spares c (mem_deedCommands.mp there)]]
      exact Nat.zero_le 1
    · rw [only]
      exact List.countP_le_length

theorem FittingAnswer.batch_terminations_le (answer : FittingAnswer env C n c p es q)
    (failure : n = i → ∃ t, c = .terminateState t ∧ t.activity.name = name) (noopAt : Timestamp) :
    List.countP (Entry.terminates i name) (es ++ [⟨some n, noopAt, .noop⟩]) ≤
      List.countP (Entry.closes i) (es ++ [⟨some n, noopAt, .noop⟩]) := by
  by_cases here : n = i
  · obtain ⟨t, rfl, rfl⟩ := failure here
    subst here
    have noop : (⟨some n, noopAt, .noop⟩ : Entry).closes n = true := by
      simp [Entry.closes, Entry.isNoop]
    calc List.countP (Entry.terminates n t.activity.name) (es ++ [⟨some n, noopAt, .noop⟩])
        ≤ (commandsOf (es ++ [⟨some n, noopAt, .noop⟩])).countP
            (Command.terminates t.activity.name) := countP_terminates_le _ _ _
      _ = (commandsOf es).countP (Command.terminates t.activity.name) := by
          simp [commandsOf, Entry.command?]
      _ ≤ 1 := answer.terminations_le
      _ ≤ List.countP (Entry.closes n) (es ++ [⟨some n, noopAt, .noop⟩]) :=
          List.one_le_countP_iff.mpr ⟨_, by simp, noop⟩
  · -- nothing of the batch is caused by the entry at `i`
    have batch := (FittingAnswer.sound env C).batch answer noopAt
    rw [List.countP_eq_zero.mpr fun e there => by simp [Entry.terminates, batch e there, here]]
    exact Nat.zero_le _

theorem Annals.terminations_le (annals : Annals (FittingAnswer env C) log p)
    (failure : ∀ cause ts c, entryAt log i = some ⟨cause, ts, .command c⟩ →
      ∃ t, c = .terminateState t ∧ t.activity.name = name) :
    log.countP (Entry.terminates i name) ≤ log.countP (Entry.closes i) := by
  induction annals with
  | empty => exact le_rfl
  | client _ _ _ _ ih =>
    have old := ih fun cause ts c found => failure cause ts c
      (by rw [entryAt_append (entryAt_eq_some found).2, found])
    simpa [List.countP_append, List.countP_cons, Entry.terminates, Entry.closes] using old
  | @answer log es p q r m _ _ c₀ noopAt past entry same answers ih =>
    have old := ih fun cause ts c found => failure cause ts c
      (by rw [entryAt_append (entryAt_eq_some found).2, found])
    have new := answers.batch_terminations_le (i := i) (fun here => failure _ _ _
      (by rw [entryAt_append (here ▸ (entryAt_eq_some entry).2), ← here, entry])) noopAt
    simp only [List.countP_append] at new ⊢
    omega

end batches

end along

/-- Whatever a failure of an activity leads to, only the answers to it ask for the termination of
    that activity again, and each of them once at most, in a run with any restarts in which no
    failure of a call is swallowed and catchers of errors of expressions have no expression. -/
theorem World.failures_settle {env : Env} {w : World}
    (run : Run.Reach (World.step env)
      (fun w a => World.Spared env w a ∧ w.Meets env Settles a) World.init w)
    {i : Nat} {cause : Option Nat} {ts : Timestamp} {t : TerminateState}
    (failure : entryAt w.log i = some ⟨cause, ts, .command (.terminateState t)⟩) :
    (∀ j cause ts t', Leads Entry.causeId w.log i j →
      entryAt w.log j = some ⟨cause, ts, .command (.terminateState t')⟩ →
      t'.activity.name = t.activity.name → CausedBy Entry.causeId w.log i j) ∧
    w.log.countP (Entry.terminates i t.activity.name) ≤ w.log.countP (Entry.closes i) := by
  have spared := fun w a (good : World.Spared env w a ∧ w.Meets env Settles a) => good.1
  obtain ⟨p, annals⟩ := Annals.of_run (FittingAnswer.sound env Settles) spared
    (World.fitting_answers spared fun w a good => good.2) run
  refine ⟨fun j cause' ts' t' leads found named => ?_, annals.terminations_le fun _ _ c found => ?_⟩
  · have left := annals.leftovers failure leads found
    exact (left.again (decide_eq_true named)).1
  · rw [failure] at found
    cases found
    exact ⟨t, rfl, rfl⟩

theorem entry_of_any {log : List Entry} {n payload}
    (any : (entryAt log n).any (·.payload = payload) = true) :
    ∃ cause ts, entryAt log n = some ⟨cause, ts, payload⟩ := by
  cases found : entryAt log n with
  | none =>
    rw [found] at any
    cases any
  | some e =>
    rw [found] at any
    obtain rfl : e.payload = payload := of_decide_eq_true any
    exact ⟨_, _, rfl⟩

/-- The caches the leader holds as it makes the attempts. -/
def cachesHeld (env : Env) (cause : Nat) (c : Command) (rows : Projection) :
    List Attempt → MachineCache → List MachineCache
  | [], _ => []
  | a :: later, machines =>
    machines :: cachesHeld env cause c rows later (dispatchOnce env cause c rows machines a).2

theorem mem_cachesHeld {env cause c rows as machines held}
    (holds : CacheHeld env cause c rows as machines held) :
    held ∈ cachesHeld env cause c rows as machines := by
  induction as generalizing machines with
  | nil => exact holds.elim
  | cons a later ih => exact List.mem_cons.mpr (holds.imp_right ih)

open Scenario

section catchers

variable (machine : StateMachine)

/-- The catcher of the machine that takes the failure up, if there is one, has no expression. -/
def catchesSimply (rows : Projection) : Command → Bool
  | .terminateState ⟨activity, .failed error⟩ => (rows.getActivity activity).all fun act =>
    match machine.stateAt act.statePath with
    | .ok (.task s) =>
      ((s.catch_.getD []).find? fun c => error.matchesErrorNames c.errorEquals).all (·.isLiteral)
    | _ => true
  | _ => true

/-- So it is for every machine at hand whenever an expression has failed. -/
def settles (w : World) : Action → Bool
  | .dispatch d =>
    match w.proc with
    | .running next leader => (entryAt w.log next).all fun e => e.command?.all fun c =>
      !c.failsAtRuntime || (catchesSimply machine w.storage.rows c &&
        (cachesHeld (host true machine) next c w.storage.rows (List.ofFn d.attempts)
          leader.definitions).all fun machines =>
            machines.entries.all fun x => catchesSimply x.2 w.storage.rows c)
    | _ => true
  | _ => true

variable {machine}

theorem meets_of_settles {a} (good : settles machine w a = true) :
    w.Meets (host true machine) Settles a := by
  cases a with
  | dispatch d =>
    intro next leader cause ts c here entry machines held activity error act thread s catcher same
      runtime found _ binds matched
    subst same
    simp only [settles, here, entry, Entry.command?, Option.all_some, Command.failsAtRuntime, runtime,
      decide_true, Bool.not_true, Bool.false_or, Bool.and_eq_true] at good
    obtain ⟨exec, m, -, inForce, at_⟩ := binds
    have simple : catchesSimply m w.storage.rows (.terminateState ⟨activity, .failed error⟩) := by
      rcases inForce with cached | ⟨ver, -, parsed⟩
      · have all := List.all_eq_true.mp good.2 _ (mem_cachesHeld held)
        exact List.all_eq_true.mp all _ (AList.mem_lookup_iff.mp cached)
      · cases parsed
        exact good.1
    simpa only [catchesSimply, found, Option.all_some, at_, matched] using simple
  | _ => trivial

end catchers

/-- A Task with a timeout. A catcher takes the timeout up, and fails; another one takes that up. -/
def catchingTwice : StateMachine :=
  ⟨"S", none,
    [("S", .task ⟨none, none, none, some true, none, none,
      some [⟨["States.Timeout"], "T", none, some (.string "\x7b% $error('boom') %\x7d")⟩,
        ⟨["States.Runtime"], "T", none, none⟩], "resource", some (.int 5)⟩),
    ("T", pass)]⟩

/-- The task times out, and both failures are decided. -/
def caughtTwice : List Action := oneExecution ++ appends [timeout] ++ leads 9

theorem caughtTwice_calm : Calm caughtTwice :=
  (oneExecution_calm.append (appends_calm _)).append (leads_calm _)

def recaught : World := after true catchingTwice caughtTwice

/-- The answer to the timeout asks for the termination again, and the answer to that does not. -/
theorem World.failures_settle_timeout :
    ∃ cause ts t, entryAt recaught.log 20 = some ⟨cause, ts, .command (.terminateState t)⟩ ∧
      (recaught.log.any fun e => e.causeId = some 20 && e.command?.any Command.failsAtRuntime) = true ∧
      recaught.log.countP (Entry.terminates 20 t.activity.name) ≤
        recaught.log.countP (Entry.closes 20) := by
  have run : Run.Reach (World.step (host true catchingTwice)) (fun w a =>
      World.Spared (host true catchingTwice) w a ∧ w.Meets (host true catchingTwice) Settles a)
      World.init recaught :=
    Run.reach_checked (settles catchingTwice) (fun w a member good =>
      ⟨(caughtTwice_calm a member).spared, meets_of_settles good⟩) (by decide +kernel)
  obtain ⟨cause, ts, found⟩ : ∃ cause ts, entryAt recaught.log 20 =
      some ⟨cause, ts, .command (.terminateState ⟨firstActivity, .failed (.runtime (.timedOut
        "task ran past its TimeoutSeconds deadline (5)"))⟩)⟩ := entry_of_any (by decide +kernel)
  exact ⟨cause, ts, _, found, by decide +kernel, (World.failures_settle run found).2⟩

/-! ## Failures that are never settled

The position of the command decides nothing about its answer but the cause the entries name. -/

section recaused

variable {env : Env} {n m : Nat} {c : Command} {rows : Projection} {machines : MachineCache}
  {a : Attempt}

/-- The same entry, caused by the command at another position. -/
def Entry.recaused (n : Nat) (e : Entry) : Entry := { e with causeId := some n }

def Work.recaused (n : Nat) (w : Work) : Work := { w with out := w.out.map (Entry.recaused n) }

def Produced.recaused (n : Nat) (produced : Produced) : Produced :=
  { produced with entries := produced.entries.map (Entry.recaused n) }

theorem Handler.pushNow_run (payload : EntryPayload) (c : Ctx) (w : Work) :
    pushNow payload c w = (.ok (), { w with
      ticks := w.ticks + 1
      out := w.out ++ [⟨some c.cause, c.clock w.ticks, payload⟩] }) := rfl

theorem Handler.interpret_recaused (o : Op) (w : Work) :
    interpret o (a.ctx env n) (w.recaused n) =
      ((interpret o (a.ctx env m) w).1, (interpret o (a.ctx env m) w).2.recaused n) := by
  cases o with
  | appendEvent e =>
    show appendEvent e (a.ctx env n) (w.recaused n) =
      ((appendEvent e (a.ctx env m) w).1, (appendEvent e (a.ctx env m) w).2.recaused n)
    have folds : (dispatchEvent ((a.ctx env n).clock (w.recaused n).ticks) e).run Txn.interpret
        (a.ctx env n).toBackend (w.recaused n).txn =
      (dispatchEvent ((a.ctx env m).clock w.ticks) e).run Txn.interpret (a.ctx env m).toBackend
        w.txn := rfl
    rw [appendEvent_run, appendEvent_run, folds]
    rcases (dispatchEvent ((a.ctx env m).clock w.ticks) e).run Txn.interpret
      (a.ctx env m).toBackend w.txn with ⟨(_ | _) | _, txn⟩ <;>
      simp [Work.recaused, Entry.recaused, Attempt.ctx]
  | appendCommand | reject =>
    simp only [interpret, pushNow_run]
    simp [Work.recaused, Entry.recaused, Attempt.ctx]
  | _ => rfl

theorem dispatchCommand_recaused (env : Env) (c : Command) (rows : Projection)
    (machines : MachineCache) (a : Attempt) (m n : Nat) :
    (dispatchCommand c).run Handler.interpret (a.ctx env n) (.start rows machines) =
      (((dispatchCommand c).run Handler.interpret (a.ctx env m) (.start rows machines)).1,
        ((dispatchCommand c).run Handler.interpret (a.ctx env m)
          (.start rows machines)).2.recaused n) :=
  Prog.run_map Handler.interpret_recaused (dispatchCommand c) (.start rows machines)

theorem dispatchOnce_recaused
    (once : dispatchOnce env m c rows machines a = (.ok produced, machines')) (n : Nat) :
    dispatchOnce env n c rows machines a = (.ok (produced.recaused n), machines') := by
  obtain ⟨w, begun, returned, filled, rfl, rfl⟩ := dispatchOnce_inv once
  have same := dispatchCommand_recaused env c rows machines a m n
  rw [returned] at same
  unfold dispatchOnce
  simp only [begun, same]
  simp [Work.recaused, Produced.recaused, filled]

/-- The operation does not fill the cache. -/
def Op.sparesCache : Op → Bool
  | .cache _ _ => false
  | _ => true

theorem Handler.interpret_machines (o : Op) (ctx : Ctx) (w : Work) (spares : o.sparesCache = true) :
    (interpret o ctx w).2.machines = w.machines := by
  cases o with
  | cache => cases spares
  | appendEvent e =>
    show (appendEvent e ctx w).2.machines = w.machines
    rw [appendEvent_run]
    rcases (dispatchEvent (ctx.clock w.ticks) e).run Txn.interpret ctx.toBackend w.txn
      with ⟨(_ | _) | _, txn⟩ <;> rfl
  | _ => rfl

/-- An answer that only asks for a command, and fills neither the counter nor the cache, is given
    alike at every position, and leaves everything as it was. -/
theorem dispatchOnce_again {rows' c'} (ff : a.toBackend.FaultFree)
    (once : dispatchOnce env m c rows machines a =
      (.ok ⟨[⟨some m, ts, .command c'⟩], rows'⟩, machines'))
    (counter : rows'.nextGeneratedSeq = rows.nextGeneratedSeq)
    (steered : (dispatchCommand c).steers Handler.interpret Op.sparesCache (a.ctx env m)
      (.start rows machines) = true) (n : Nat) :
    dispatchOnce env n c rows machines a =
      (.ok ⟨[⟨some n, ts, .command c'⟩], rows⟩, machines) := by
  obtain ⟨ds, -, writes⟩ := dispatchOnce_outcome (M := fun _ _ => True) ff
    ⟨fun _ _ _ => trivial, fun _ _ _ _ _ => trivial⟩ once
  have quiet : Mirrors rows [⟨some m, ts, .command c'⟩] rows := .quiet (by simp [Entry.event?]) rfl
  obtain rfl : rows' = rows := by
    obtain ⟨seq, rfl⟩ := content_eq_iff.mp (writes.mirrors.unique quiet)
    obtain rfl : rows'.nextGeneratedSeq = seq := counter
    rfl
  obtain ⟨w, -, returned, -, -, rfl⟩ := dispatchOnce_inv once
  have kept := Prog.run_steered (f := Work.machines)
    (fun o w spares => Handler.interpret_machines o _ w spares) _ steered
  rw [returned] at kept
  have again := dispatchOnce_recaused once n
  rw [kept] at again
  exact again

theorem processCommand_first {d}
    (once : ∀ i, dispatchOnce env n c rows machines (d.attempts i) = (.ok produced, machines')) :
    processCommand env n c rows machines d = (some produced, machines') := by
  unfold processCommand
  cases attempts : List.ofFn d.attempts with
  | nil => cases List.ofFn_eq_nil_iff.mp attempts
  | cons a later =>
    obtain ⟨i, rfl⟩ : ∃ i, d.attempts i = a := List.mem_ofFn.mp (by simp [attempts])
    unfold attemptFrom
    rw [once]

end recaused

/-- A Task with a timeout, whose failures are caught, by a catcher that fails. -/
def rethrowing : StateMachine :=
  ⟨"S", none,
    [("S", .task ⟨none, none, none, some true, none, none,
      some [⟨["States.ALL"], "T", none, some (.string "\x7b% $error('boom') %\x7d")⟩], "resource",
      some (.int 5)⟩),
    ("T", pass)]⟩

/-- The activity fails because the catcher's output did. -/
def rethrow : Command :=
  .terminateState
    ⟨⟨.generated exec 1, ⟨1⟩⟩, .failed (.runtime (.jsonata "$error('boom')" "unsupported"))⟩

/-- The task has timed out, and the catcher has failed for the first time. -/
def rethrown : World := after true rethrowing (oneExecution ++ appends [timeout] ++ leads 2)

def definitionsOf (w : World) : MachineCache :=
  match w.proc with
  | .running _ leader => leader.definitions
  | _ => ∅

/-- The leader is about to dispatch the termination, the last command of the log, with the rows and
    the definitions it had the first time. -/
structure Rethrowing (w : World) (n : Nat) : Prop where
  proc : ∃ leader, w.proc = .running n leader ∧ leader.definitions = definitionsOf rethrown
  rows : w.storage.rows = rethrown.storage.rows
  entry : ∃ cause ts, entryAt w.log n = some ⟨cause, ts, .command rethrow⟩
  noop : ∃ cause ts, entryAt w.log (n + 1) = some ⟨cause, ts, .noop⟩
  length : w.log.length = n + 1

/-- The termination answers itself. -/
theorem rethrow_again (n : Nat) :
    processCommand (host true rethrowing) n rethrow rethrown.storage.rows (definitionsOf rethrown)
        decision =
      (some ⟨[⟨some n, ⟨0⟩, .command rethrow⟩], rethrown.storage.rows⟩, definitionsOf rethrown) := by
  have ran : ((dispatchOnce (host true rethrowing) 0 rethrow rethrown.storage.rows
      (definitionsOf rethrown) attempt).1.toOption.any fun produced =>
        produced.entries = [⟨some 0, ⟨0⟩, .command rethrow⟩] ∧
        produced.rows.nextGeneratedSeq = rethrown.storage.rows.nextGeneratedSeq) = true := by
    decide +kernel
  have steered : (dispatchCommand rethrow).steers Handler.interpret Op.sparesCache
      (attempt.ctx (host true rethrowing) 0)
      (.start rethrown.storage.rows (definitionsOf rethrown)) = true := by decide +kernel
  obtain ⟨⟨entries, rows⟩, once, fine⟩ := dispatched_of_any ran
  obtain ⟨rfl, counter⟩ : entries = [⟨some 0, ⟨0⟩, .command rethrow⟩] ∧
      rows.nextGeneratedSeq = rethrown.storage.rows.nextGeneratedSeq := by simpa using fine
  exact processCommand_first fun _ => dispatchOnce_again (fun _ => rfl) once counter steered n

def readsAt (w : World) : Option Nat :=
  match w.proc with
  | .running n _ => some n
  | _ => none

theorem running_of_readsAt {n} (reads : readsAt w = some n) :
    ∃ leader, w.proc = .running n leader ∧ leader.definitions = definitionsOf w := by
  unfold readsAt at reads
  unfold definitionsOf
  cases here : w.proc with
  | running =>
    rw [here] at reads
    cases reads
    exact ⟨_, rfl, rfl⟩
  | _ =>
    rw [here] at reads
    cases reads

theorem rethrown_rethrowing : Rethrowing rethrown 22 where
  proc := running_of_readsAt (by decide +kernel)
  rows := rfl
  entry := entry_of_any (by decide +kernel)
  noop := entry_of_any (by decide +kernel)
  length := by decide +kernel

/-- Dispatched, committed and passed over, the termination is the last command of the log again. -/
theorem Rethrowing.again {n} (rethrowing : Rethrowing w n) :
    ∃ w', Run.Reach (World.step (host true Spica.rethrowing)) (fun _ a => a.Steady) w w' ∧
      Rethrowing w' (n + 2) ∧
      w'.log = w.log ++ [⟨some n, ⟨0⟩, .command rethrow⟩, ⟨some n, ⟨0⟩, .noop⟩] := by
  obtain ⟨leader, here, cached⟩ := rethrowing.proc
  obtain ⟨cause, ts, entry⟩ := rethrowing.entry
  obtain ⟨cause', ts', noop⟩ := rethrowing.noop
  have length := rethrowing.length
  have answer := rethrow_again n
  rw [← rethrowing.rows, ← cached] at answer
  let log := w.log ++ [⟨some n, ⟨0⟩, .command rethrow⟩, ⟨some n, ⟨0⟩, .noop⟩]
  let dispatched : World := { w with
    log := log, proc := .committing n leader w.storage.rows (w.log.length + 2) }
  have first : World.step (host true Spica.rethrowing) w (.dispatch decision) = some dispatched := by
    simp only [World.step, World.dispatch, here, entry, answer]
    rfl
  let committed : World := { dispatched with
    storage := w.storage.commit w.storage.rows (w.log.length + 2)
    proc := .running (n + 1) { leader with watermark := w.log.length + 2 } }
  have second : World.step (host true Spica.rethrowing) dispatched .commit = some committed := rfl
  let passed : World := { committed with
    proc := .running (n + 2) { leader with watermark := w.log.length + 2 } }
  have third : World.step (host true Spica.rethrowing) committed .skip = some passed := by
    have entry : entryAt log (n + 1) = some ⟨cause', ts', .noop⟩ := by
      rw [entryAt_append (by omega), noop]
    simp only [World.step, World.skip, committed, dispatched, entry]
    rfl
  have steps : Run.Reach (World.step (host true Spica.rethrowing)) (fun _ a => a.Steady) w passed :=
    ((Relation.ReflTransGen.single
      ⟨.dispatch decision, ⟨decision_faultFree, by simp⟩, first⟩).tail
      ⟨.commit, ⟨trivial, by simp⟩, second⟩).tail ⟨.skip, ⟨trivial, by simp⟩, third⟩
  refine ⟨passed, steps, ⟨⟨_, rfl, cached⟩, ?_, ⟨some n, ⟨0⟩, ?_⟩, ⟨some n, ⟨0⟩, ?_⟩, ?_⟩, rfl⟩
  · show (w.storage.commit w.storage.rows (w.log.length + 2)).rows = _
    unfold Storage.commit
    rw [Nat.max_self]
    exact rethrowing.rows
  · show entryAt (w.log ++ _) (n + 2) = _
    rw [show n + 2 = w.log.length + (0 + 1) by omega, entryAt_append_right]
    rfl
  · show entryAt (w.log ++ _) (n + 2 + 1) = _
    rw [show n + 2 + 1 = w.log.length + (1 + 1) by omega, entryAt_append_right]
    rfl
  · show (w.log ++ _).length = n + 2 + 1
    simp [length]

/-- The failure at the position has led to the termination, so many times in a row. -/
structure Recurring (w : World) (k : Nat) : Prop where
  failure : ∃ cause ts e, entryAt w.log 20 =
    some ⟨cause, ts, .command (.terminateState ⟨firstActivity, .failed e⟩)⟩
  led : ∀ m ≤ k, Leads Entry.causeId w.log 20 (22 + 2 * m) ∧
    ∃ cause ts, entryAt w.log (22 + 2 * m) = some ⟨cause, ts, .command rethrow⟩

theorem rethrown_recurring : Recurring rethrown 0 where
  failure := by
    obtain ⟨cause, ts, found⟩ : ∃ cause ts, entryAt rethrown.log 20 = some ⟨cause, ts,
        .command (.terminateState ⟨firstActivity, .failed (.runtime (.timedOut
          "task ran past its TimeoutSeconds deadline (5)"))⟩)⟩ :=
      entry_of_any (by decide +kernel)
    exact ⟨cause, ts, _, found⟩
  led := by
    rintro m le
    obtain rfl : m = 0 := by omega
    have caused : (entryAt rethrown.log 22).any (·.causeId = some 20) = true := by decide +kernel
    obtain ⟨cause, ts, found⟩ := rethrown_rethrowing.entry
    refine ⟨.single ⟨_, found, ?_⟩, cause, ts, found⟩
    rw [found] at caused
    exact of_decide_eq_true caused

theorem Recurring.again {w' k} (recurring : Recurring w k)
    (rethrowing : Rethrowing w (22 + 2 * k))
    (log : w'.log = w.log ++ [⟨some (22 + 2 * k), ⟨0⟩, .command rethrow⟩,
      ⟨some (22 + 2 * k), ⟨0⟩, .noop⟩]) : Recurring w' (k + 1) where
  failure := by
    obtain ⟨cause, ts, e, found⟩ := recurring.failure
    exact ⟨cause, ts, e, by rw [log, entryAt_append (entryAt_eq_some found).2, found]⟩
  led := by
    intro m le
    rcases Nat.lt_or_eq_of_le le with earlier | rfl
    · obtain ⟨leads, cause, ts, found⟩ := recurring.led m (Nat.le_of_lt_succ earlier)
      rw [log]
      exact ⟨leads.append _, cause, ts, by rw [entryAt_append (entryAt_eq_some found).2, found]⟩
    · have found : entryAt w'.log (22 + 2 * (k + 1)) =
          some ⟨some (22 + 2 * k), ⟨0⟩, .command rethrow⟩ := by
        have length := rethrowing.length
        rw [log, show 22 + 2 * (k + 1) = w.log.length + (0 + 1) by omega, entryAt_append_right]
        rfl
      obtain ⟨leads, -⟩ := recurring.led k le_rfl
      refine ⟨.tail (log ▸ leads.append _) ⟨_, found, rfl⟩, _, _, found⟩

/-- A failure whose catcher fails leads to any number of terminations, one after the other, in a
    run without faults in which the leader never stops. -/
theorem failures_recur : ∃ run : Nat → World, ∀ k,
    Run.Reach (World.step (host true rethrowing)) (fun _ a => a.Steady) World.init (run k) ∧
    Recurring (run k) k := by
  suffices looping : ∀ k, ∃ w,
      Run.Reach (World.step (host true rethrowing)) (fun _ a => a.Steady) World.init w ∧
      Rethrowing w (22 + 2 * k) ∧ Recurring w k by
    choose run reach _ recurring using looping
    exact ⟨run, fun k => ⟨reach k, recurring k⟩⟩
  intro k
  induction k with
  | zero =>
    refine ⟨rethrown, reach_after fun w a member => ?_, rethrown_rethrowing, rethrown_recurring⟩
    have calm : Calm (oneExecution ++ appends [timeout] ++ leads 2) :=
      (oneExecution_calm.append (appends_calm _)).append (leads_calm _)
    refine ⟨calm a member, ?_⟩
    rintro rfl
    simp [oneExecution, appends_no_stop, starts_no_stop, leads_no_stop] at member
  | succ k ih =>
    obtain ⟨w, run, looping, recurring⟩ := ih
    obtain ⟨w', steps, looping', log⟩ := looping.again
    exact ⟨w', run.trans steps, looping', recurring.again looping log⟩

end Spica
