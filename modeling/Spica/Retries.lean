import Spica.Leases

/-! # Retries

The retry plan of a task decides alone what a failure report leads to: the first retrier that names
the error either queues the task again, behind a gate, or gives it up when its budget is spent. A
`Catch` list is read by the same rule.
-/

namespace Spica

/-! ## Error names -/

namespace ExecutionError

variable (e : ExecutionError) {xs ys : List String}

/-- The list names the error, or holds a wildcard for it. -/
def Covers (xs : List String) : Prop :=
  e.errorName ∈ xs ∨ "States.ALL" ∈ xs ∨
    e.errorName ≠ "States.Timeout" ∧ "States.TaskFailed" ∈ xs

/-- The list does not name a timeout beside `States.TaskFailed`, unless it matches everything. -/
def Unmixed (xs : List String) : Prop :=
  e.errorName = "States.Timeout" → "States.Timeout" ∈ xs → "States.TaskFailed" ∈ xs →
    "States.ALL" ∈ xs

instance (xs : List String) : Decidable (e.Covers xs) := inferInstanceAs (Decidable (_ ∨ _))

instance (xs : List String) : Decidable (e.Unmixed xs) := inferInstanceAs (Decidable (_ → _))

theorem matchesErrorNames_eq (xs : List String) :
    e.matchesErrorNames xs = true ↔ "States.ALL" ∈ xs ∨
      (if "States.TaskFailed" ∈ xs then e.errorName ≠ "States.Timeout" else e.errorName ∈ xs) := by
  unfold matchesErrorNames
  by_cases all : "States.ALL" ∈ xs
  · simp [all]
  · by_cases failed : "States.TaskFailed" ∈ xs <;> simp [all, failed]

/-- The rule is the one of the specification, but for a list that mixes the two. -/
theorem matches_iff_covers (xs : List String) :
    (e.matchesErrorNames xs = true ↔ e.Covers xs) ↔ e.Unmixed xs := by
  rw [matchesErrorNames_eq]
  unfold Covers Unmixed
  by_cases all : "States.ALL" ∈ xs
  · simp [all]
  by_cases failed : "States.TaskFailed" ∈ xs
  · by_cases timeout : e.errorName = "States.Timeout"
    · simp [all, failed, timeout]
    · simp [all, failed, timeout]
  · simp [all, failed]

variable {e}

theorem Covers.append (covers : e.Covers xs) (ys : List String) : e.Covers (xs ++ ys) := by
  unfold Covers at covers ⊢
  simp only [List.mem_append]
  tauto

theorem Covers.prepend (covers : e.Covers xs) (ys : List String) : e.Covers (ys ++ xs) := by
  unfold Covers at covers ⊢
  simp only [List.mem_append]
  tauto

/-- A match is always one the specification allows. -/
theorem covers_of_matches (matches_ : e.matchesErrorNames xs = true) : e.Covers xs := by
  rw [matchesErrorNames_eq] at matches_
  unfold Covers
  split at matches_ <;> tauto

theorem unmatched_of_uncovered (uncovered : ¬e.Covers xs) : e.matchesErrorNames xs = false :=
  Bool.eq_false_iff.mpr fun matches_ => uncovered (covers_of_matches matches_)

theorem Covers.matches_iff (covers : e.Covers xs) :
    e.matchesErrorNames xs = true ↔ e.Unmixed xs := by
  rw [← matches_iff_covers, iff_true_right covers]

variable (e) in
/-- The first of the lists that covers the error is the one of `a`, at `i`. -/
structure First (names : α → List String) (lists : List α) (i : Nat) (a : α) : Prop where
  there : lists[i]? = some a
  covers : e.Covers (names a)
  uncovered : ∀ j b, j < i → lists[j]? = some b → ¬e.Covers (names b)

theorem First.before {names lists i a} (first : e.First names lists i a) (j : Nat) (b : α)
    (earlier : j < i) (there : lists[j]? = some b) : e.matchesErrorNames (names b) = false :=
  unmatched_of_uncovered (first.uncovered j b earlier there)

end ExecutionError

section policies

variable {e : ExecutionError} {plan : List RetryPolicy} {i : Nat} {p : RetryPolicy}

theorem Task.matchedPolicy_eq_some :
    Task.matchedPolicy plan e = some (i, p) ↔ plan[i]? = some p ∧
      e.matchesErrorNames p.errorEquals = true ∧
      ∀ j q, j < i → plan[j]? = some q → e.matchesErrorNames q.errorEquals = false := by
  unfold Task.matchedPolicy
  constructor
  · intro matched
    split at matched
    · cases matched
    next found =>
      obtain ⟨q, there, same⟩ := Option.map_eq_some_iff.mp matched
      cases same
      obtain ⟨inside, here, before⟩ := List.findIdx?_eq_some_iff_getElem.mp found
      obtain ⟨-, rfl⟩ := List.getElem?_eq_some_iff.mp there
      refine ⟨List.getElem?_eq_getElem inside, here, fun j q earlier at_ => ?_⟩
      obtain ⟨-, rfl⟩ := List.getElem?_eq_some_iff.mp at_
      simpa using before j earlier
  · rintro ⟨there, here, before⟩
    obtain ⟨inside, rfl⟩ := List.getElem?_eq_some_iff.mp there
    have found : plan.findIdx? (fun p => e.matchesErrorNames p.errorEquals) = some i := by
      refine List.findIdx?_eq_some_iff_getElem.mpr ⟨inside, here, fun j earlier => ?_⟩
      simp [before j _ earlier (List.getElem?_eq_getElem (by omega))]
    simp only [found, there, Option.map_some]

/-- A first policy that covers the error decides unless its list mixes the two. -/
theorem Task.matchedPolicy_first (first : e.First (·.errorEquals) plan i p) :
    Task.matchedPolicy plan e = some (i, p) ↔ e.Unmixed p.errorEquals := by
  rw [Task.matchedPolicy_eq_some, ← first.covers.matches_iff]
  exact ⟨fun decides => decides.2.1, fun matches_ => ⟨first.there, matches_, first.before⟩⟩

theorem Task.matchedPolicy_uncovered (uncovered : ∀ q ∈ plan, ¬e.Covers q.errorEquals) :
    Task.matchedPolicy plan e = none := by
  have none : plan.findIdx? (fun p => e.matchesErrorNames p.errorEquals) = none :=
    List.findIdx?_eq_none_iff.mpr fun q member => e.unmatched_of_uncovered (uncovered q member)
  simp only [Task.matchedPolicy, none]

/-- What a report leads to if the policy decides: a further try, or the end if none is left. -/
def Task.answeredBy (t : Task) (backoff : RetryPolicy → Nat → Nat) (i : Nat) (p : RetryPolicy)
    (now : Timestamp) : Task × FailureOutcome :=
  if p.hasBudgetAfter (t.retriesBy i) then
    (t.requeued i (backoff p (t.retriesBy i)) now, .retried)
  else
    (t.exhausted now, .terminal)

theorem Task.Takes.answeredBy {t t' : Task} {backoff checked now outcome}
    (takes : t.Takes backoff checked e now t' outcome)
    (decides : Task.matchedPolicy t.retryPlan e = some (i, p)) :
    (t', outcome) = t.answeredBy backoff i p now := by
  cases takes with
  | unmatched none => cases none.symm.trans decides
  | spent matched spent =>
    cases matched.symm.trans decides
    exact (if_neg (Bool.eq_false_iff.mp spent)).symm
  | retried matched budget =>
    cases matched.symm.trans decides
    exact (if_pos budget).symm

variable {catchers : List Catcher} {c : Catcher}

theorem matchedCatcher_first (first : e.First (·.errorEquals) catchers i c) :
    catchers.find? (fun c => e.matchesErrorNames c.errorEquals) = some c ↔
      e.Unmixed c.errorEquals := by
  rw [← first.covers.matches_iff]
  refine ⟨fun found => by simpa using List.find?_some found, fun matches_ => ?_⟩
  obtain ⟨inside, rfl⟩ := List.getElem?_eq_some_iff.mp first.there
  refine List.find?_eq_some_iff_getElem.mpr ⟨matches_, i, inside, rfl, fun j earlier => ?_⟩
  simp [first.before j _ earlier (List.getElem?_eq_getElem (by omega))]

theorem matchedCatcher_uncovered (uncovered : ∀ q ∈ catchers, ¬e.Covers q.errorEquals) :
    catchers.find? (fun c => e.matchesErrorNames c.errorEquals) = none :=
  List.find?_eq_none.mpr fun q member => by simp [e.unmatched_of_uncovered (uncovered q member)]

end policies

/-- A task with a retry plan. -/
def plannedTask (plan : List RetryPolicy) : Task :=
  TaskElement.newTask ⟨⟨.plain Scenario.exec, .nil⟩, Scenario.firstActivity, Scenario.firstTask,
    "resource", .null, plan, none⟩ ⟨0⟩

def workerError : ExecutionError := .runtime (.stateFailed "S" "Oops" .null)

def lateError : ExecutionError := .runtime (.timedOut "")

/-- A `Task` state with three catchers. -/
def threeCatchers : TaskState where
  output := none
  assign := none
  next := none
  end_ := some true
  arguments := none
  retry := none
  catch_ := some [⟨["Oops"], "Early", none, none⟩, ⟨["States.Timeout"], "Late", none, none⟩,
    ⟨["States.Timeout", "States.TaskFailed"], "Never", none, none⟩]
  resource := "resource"
  timeoutSeconds := none

/-- Matching follows the specification exactly for the lists that do not name a timeout beside
    `States.TaskFailed`. A list that names the error, or that extends one that matches, matches
    exactly if it is such a list; and the first retrier and the first catcher that cover an error
    decide exactly if their own list is. -/
theorem error_names_decide (e : ExecutionError) :
    (∀ xs, (e.matchesErrorNames xs = true ↔ e.Covers xs) ↔ e.Unmixed xs) ∧
    (∀ xs, e.errorName ∈ xs → (e.matchesErrorNames xs = true ↔ e.Unmixed xs)) ∧
    (∀ xs ys, e.matchesErrorNames xs = true →
      (e.matchesErrorNames (xs ++ ys) = true ↔ e.Unmixed (xs ++ ys)) ∧
      (e.matchesErrorNames (ys ++ xs) = true ↔ e.Unmixed (ys ++ xs))) ∧
    (∀ xs, "States.ALL" ∉ xs → "States.TaskFailed" ∉ xs → e.matchesErrorNames xs = true →
      e.errorName ∈ xs) ∧
    (∀ t : Task,
      (∀ i p, e.First (·.errorEquals) t.retryPlan i p →
        (Task.matchedPolicy t.retryPlan e = some (i, p) ↔ e.Unmixed p.errorEquals) ∧
        (e.Unmixed p.errorEquals → ∀ shown backoff checked workerId now t' outcome,
          t.handleFailure shown backoff checked workerId e now = .ok (t', outcome) →
          (t', outcome) = t.answeredBy backoff i p now)) ∧
      ((∀ q ∈ t.retryPlan, ¬e.Covers q.errorEquals) →
        ∀ shown backoff checked workerId now t' outcome,
          t.handleFailure shown backoff checked workerId e now = .ok (t', outcome) →
          (t', outcome) = (t.exhausted now, .terminal))) ∧
    ∀ s : TaskState,
      (∀ i c, e.First (·.errorEquals) (s.catch_.getD []) i c →
        ((s.catch_.getD []).find? (fun c => e.matchesErrorNames c.errorEquals) = some c ↔
          e.Unmixed c.errorEquals) ∧
        (e.Unmixed c.errorEquals → ∀ act, taskOnFailed s act e = catchWith c act e)) ∧
      ((∀ q ∈ s.catch_.getD [], ¬e.Covers q.errorEquals) →
        ∀ act, taskOnFailed s act e = pure .uncaught) := by
  refine ⟨e.matches_iff_covers, fun xs own => ExecutionError.Covers.matches_iff (.inl own),
    fun xs ys matches_ => ?_, fun xs all failed matches_ => ?_,
    fun t => ⟨fun i p first => ⟨Task.matchedPolicy_first first, ?_⟩, ?_⟩,
    fun s => ⟨fun i c first => ⟨matchedCatcher_first first, fun unmixed act => ?_⟩,
      fun uncovered act => ?_⟩⟩
  · have covers := e.covers_of_matches matches_
    exact ⟨(covers.append ys).matches_iff, (covers.prepend ys).matches_iff⟩
  · simpa [e.matchesErrorNames_eq, all, failed] using matches_
  · intro unmixed shown backoff checked workerId now t' outcome takes
    exact (Task.handleFailure_inv takes).2.2.answeredBy ((Task.matchedPolicy_first first).mpr unmixed)
  · intro uncovered shown backoff checked workerId now t' outcome takes
    cases (Task.handleFailure_inv takes).2.2 with
    | unmatched => rfl
    | spent matched | retried matched =>
      cases (Task.matchedPolicy_uncovered uncovered).symm.trans matched
  · simp only [taskOnFailed, (matchedCatcher_first first).mpr unmixed]
  · simp only [taskOnFailed, matchedCatcher_uncovered uncovered]

/-- A plan whose first list matches everything, and a list of catchers whose second names the
    timeout; in both a mixed list comes behind. -/
theorem error_names_decide_timeout :
    Task.matchedPolicy [⟨["States.ALL"], 1, 3, ⟨0⟩, none⟩,
        ⟨["States.Timeout", "States.TaskFailed"], 1, 3, ⟨0⟩, none⟩] lateError =
      some (0, ⟨["States.ALL"], 1, 3, ⟨0⟩, none⟩) ∧
    ∀ act, taskOnFailed threeCatchers act lateError =
      catchWith ⟨["States.Timeout"], "Late", none, none⟩ act lateError := by
  obtain ⟨-, -, -, -, plans, catches⟩ := error_names_decide lateError
  refine ⟨((plans (plannedTask _)).1 0 _ ⟨rfl, by decide, fun j _ earlier => by omega⟩).1.mpr
    (by decide), ?_⟩
  refine ((catches threeCatchers).1 1 _ ⟨rfl, by decide, fun j q earlier there => ?_⟩).2 (by decide)
  obtain rfl : j = 0 := by omega
  cases there
  decide

/-- A list with the name of the error that does not match it, while a part of it does. -/
theorem timeout_named_unmatched :
    lateError.errorName = "States.Timeout" ∧
    lateError.matchesErrorNames ["States.Timeout"] = true ∧
    lateError.matchesErrorNames (["States.Timeout"] ++ ["States.TaskFailed"]) = false := by decide

/-! ## Counters -/

section counters

variable {attempts : List RetrierAttemptState} {i j : Nat} {a : RetrierAttemptState}

/-- All retries the counters stand for. -/
def totalAttempts : List RetrierAttemptState → Nat
  | [] => 0
  | a :: rest => a.attemptCount + totalAttempts rest

theorem totalAttempts_append (xs ys : List RetrierAttemptState) :
    totalAttempts (xs ++ ys) = totalAttempts xs + totalAttempts ys := by
  induction xs with
  | nil => simp [totalAttempts]
  | cons x xs ih =>
    simp only [List.cons_append, totalAttempts, ih]
    omega

theorem totalAttempts_unused (n : Nat) : totalAttempts (List.replicate n ⟨0, none⟩) = 0 := by
  induction n with
  | zero => rfl
  | succ n ih => simpa [List.replicate_succ, totalAttempts] using ih

theorem totalAttempts_set (inside : i < attempts.length) :
    totalAttempts (attempts.set i a) + attempts[i].attemptCount =
      totalAttempts attempts + a.attemptCount := by
  induction attempts generalizing i with
  | nil => cases inside
  | cons x xs ih =>
    cases i with
    | zero =>
      simp only [List.set_cons_zero, totalAttempts, List.getElem_cons_zero]
      omega
    | succ i =>
      have rest := ih (by simpa using inside)
      simp only [List.set_cons_succ, totalAttempts, List.getElem_cons_succ]
      omega

/-- The counter at an index; a missing one stands for none. -/
def attemptsAt (attempts : List RetrierAttemptState) (i : Nat) : Nat :=
  (attempts[i]?.map (·.attemptCount)).getD 0

theorem attemptsAt_padded (attempts : List RetrierAttemptState) (j n : Nat) :
    attemptsAt (attempts ++ List.replicate n ⟨0, none⟩) j = attemptsAt attempts j := by
  unfold attemptsAt
  by_cases inside : j < attempts.length
  · rw [List.getElem?_append_left inside]
  · have none : attempts[j]? = none := List.getElem?_eq_none (by omega)
    rw [List.getElem?_append_right (by omega), none, List.getElem?_replicate]
    split <;> rfl

/-- A record counts at its own index, and nowhere else. -/
theorem attemptsAt_recordAttempt :
    attemptsAt (Task.recordAttempt attempts i a) j =
      if i = j then a.attemptCount else attemptsAt attempts j := by
  have padded := attemptsAt_padded attempts j (i + 1 - attempts.length)
  show attemptsAt (List.set _ i a) j = _
  unfold attemptsAt at padded ⊢
  by_cases same : i = j
  · subst same
    rw [List.getElem?_set_self (by simp; omega), if_pos rfl]
    rfl
  · rw [List.getElem?_set_ne same, if_neg same, padded]

theorem totalAttempts_recordAttempt (once : a.attemptCount = attemptsAt attempts i + 1) :
    totalAttempts (Task.recordAttempt attempts i a) = totalAttempts attempts + 1 := by
  show totalAttempts (List.set _ i a) = _
  generalize padding : List.replicate (i + 1 - attempts.length) (RetrierAttemptState.mk 0 none) = pad
  have inside : i < (attempts ++ pad).length := by
    rw [← padding]
    simp
    omega
  have counter : (attempts ++ pad)[i].attemptCount = attemptsAt attempts i := by
    rw [← attemptsAt_padded attempts i (i + 1 - attempts.length), padding]
    simp [attemptsAt, List.getElem?_eq_getElem inside]
  have total : totalAttempts (attempts ++ pad) = totalAttempts attempts := by
    rw [totalAttempts_append, ← padding, totalAttempts_unused, Nat.add_zero]
  have changed := totalAttempts_set (a := a) inside
  omega

end counters

/-! ## The life of a task -/

namespace Task

section life

variable {backoff : RetryPolicy → Nat → Nat} {checked : Bool} {ok : Task → ExecutionError → Prop}
  {t t' t'' : Task} {h : List Nat} {error : ExecutionError} {shown : Option String → String}
  {workerId : String} {now : Timestamp} {outcome : FailureOutcome}

/-- The retrier a report was taken up by. -/
def takenBy (t : Task) (error : ExecutionError) : FailureOutcome → List Nat
  | .retried => (matchedPolicy t.retryPlan error).toList.map Prod.fst
  | .terminal => []

/-- How a task can get from one value to another, if every report it accepts meets a condition, with
    the retriers that queued it again on the way, in order. -/
inductive Life (backoff : RetryPolicy → Nat → Nat) (checked : Bool)
    (ok : Task → ExecutionError → Prop) (t : Task) : List Nat → Task → Prop
  | start : Life backoff checked ok t [] t
  | claimed {h : List Nat} {t'} (past : Life backoff checked ok t h t') (workerId : String)
      (leaseExpiresAt at_ : Timestamp) :
      Life backoff checked ok t h (t'.claim workerId leaseExpiresAt at_)
  | failed {h : List Nat} {t' t'' shown workerId error now outcome}
      (past : Life backoff checked ok t h t') (good : ok t' error)
      (takes : t'.handleFailure shown backoff checked workerId error now = .ok (t'', outcome)) :
      Life backoff checked ok t (h ++ t'.takenBy error outcome) t''
  | ended {h : List Nat} {t' t''} (past : Life backoff checked ok t h t')
      (ends : t''.status.isTerminal = true) (plan : t''.retryPlan = t'.retryPlan)
      (state : t''.retryState = t'.retryState) : Life backoff checked ok t h t''

/-- The retrier that decides has a budget of 32 bits, and where overflow is not checked there is
    room to count one more retry. -/
def Fits (checked : Bool) (t : Task) (error : ExecutionError) : Prop :=
  ∀ i p, matchedPolicy t.retryPlan error = some (i, p) →
    p.maxAttempts < u32Size ∧ (checked = false → t.retryState.attempts + 1 < u32Size)

theorem Fits.of_checked (small : ∀ p ∈ t.retryPlan, p.maxAttempts < u32Size) :
    t.Fits true error := by
  intro i p matched
  obtain ⟨there, -⟩ := matchedPolicy_eq_some.mp matched
  exact ⟨small p (List.mem_of_getElem? there), by simp⟩

/-- The counters of a task are those of the retriers that queued it again. -/
structure Counts (plan : List RetryPolicy) (h : List Nat) (t : Task) : Prop where
  frozen : t.retryPlan = plan
  each : ∀ i, t.retriesBy i = h.count i
  total : totalAttempts t.retryState.retrierAttempts = h.length
  attempts : t.retryState.attempts = h.length
  budget : ∀ (i : Nat) (p : RetryPolicy), plan[i]? = some p → h.count i ≤ p.maxAttempts.toNat

theorem hasBudgetAfter_iff {p : RetryPolicy} {n} (fits : p.maxAttempts < u32Size) :
    p.hasBudgetAfter n = true ↔ n < p.maxAttempts.toNat := by
  have small : (max p.maxAttempts 0).toNat < u32Size := by
    have : (u32Size : Int) = 4294967296 := rfl
    omega
  unfold RetryPolicy.hasBudgetAfter
  rw [Nat.mod_eq_of_lt small, decide_eq_true_iff]
  omega

theorem Counts.kept {plan} (counts : Counts plan h t) (samePlan : t'.retryPlan = t.retryPlan)
    (sameAttempts : t'.retryState.attempts = t.retryState.attempts)
    (sameCounters : t'.retryState.retrierAttempts = t.retryState.retrierAttempts) :
    Counts plan h t' where
  frozen := samePlan.trans counts.frozen
  each i := by
    unfold retriesBy
    rw [sameCounters]
    exact counts.each i
  total := sameCounters ▸ counts.total
  attempts := sameAttempts.trans counts.attempts
  budget := counts.budget

/-- A report that meets the condition is counted for the retrier that takes it up. -/
theorem Counts.failed {plan : List RetryPolicy} (counts : Counts plan h t)
    (fits : t.Fits checked error) (takes : t.Takes backoff checked error now t' outcome) :
    Counts plan (h ++ t.takenBy error outcome) t' := by
  cases takes with
  | unmatched | spent =>
    rw [takenBy, List.append_nil]
    exact counts.kept rfl rfl rfl
  | @retried index policy matched budget room =>
    obtain ⟨there, -⟩ := matchedPolicy_eq_some.mp matched
    obtain ⟨small, unchecked⟩ := fits index policy matched
    have taken : t.takenBy error .retried = [index] := by simp [takenBy, matched]
    have free : t.retriesBy index < policy.maxAttempts.toNat := (hasBudgetAfter_iff small).mp budget
    have inside : t.retryState.attempts + 1 < u32Size := by
      cases checked with
      | true => exact room rfl
      | false => exact unchecked rfl
    rw [taken]
    refine ⟨counts.frozen, fun i => ?_, ?_, ?_, fun i p at_ => ?_⟩
    · show attemptsAt (recordAttempt _ index _) i = _
      rw [attemptsAt_recordAttempt, List.count_append, ← counts.each i]
      by_cases same : index = i
      · subst same
        simp
      · have other : [index].count i = 0 := List.count_eq_zero.mpr (by simpa using Ne.symm same)
        rw [if_neg same, other]
        rfl
    · show totalAttempts (recordAttempt _ index _) = _
      rw [totalAttempts_recordAttempt rfl, counts.total]
      simp
    · show (t.retryState.attempts + 1) % u32Size = _
      rw [Nat.mod_eq_of_lt inside, counts.attempts]
      simp
    · rw [List.count_append, List.count_singleton]
      have old := counts.budget i p at_
      by_cases same : index = i
      · subst same
        rw [counts.frozen, at_] at there
        cases there
        rw [counts.each] at free
        simp
        omega
      · simpa [same] using old

theorem Life.counts (fresh : t.retryState = .default)
    (life : Life backoff checked (Fits checked) t h t') : Counts t.retryPlan h t' := by
  induction life with
  | start =>
    have none : t.retryState.retrierAttempts = [] := by rw [fresh]; rfl
    exact ⟨rfl, by simp [retriesBy, none], by rw [none]; rfl, by rw [fresh]; rfl, by simp⟩
  | claimed _ _ _ _ ih => exact ih.kept rfl rfl rfl
  | failed _ good takes ih => exact ih.failed good (handleFailure_inv takes).2.2
  | ended _ _ plan state ih => exact ih.kept plan (by rw [state]) (by rw [state])

/-- A task that starts fresh is queued again by each retrier within its budget, and fails for good
    only when no retrier names the error or the one that decides has used its own budget up. -/
theorem retry_budget (fresh : t.retryState = .default)
    (life : Life backoff checked (Fits checked) t h t') :
    (∀ (i : Nat) (p : RetryPolicy), t.retryPlan[i]? = some p → h.count i ≤ p.maxAttempts.toNat) ∧
    (∀ i, t'.retriesBy i = h.count i) ∧
    t'.retryState.attempts = totalAttempts t'.retryState.retrierAttempts ∧
    ∀ shown workerId error now t'', t'.Fits checked error →
      t'.handleFailure shown backoff checked workerId error now = .ok (t'', .terminal) →
      matchedPolicy t.retryPlan error = none ∨ ∃ i p,
        matchedPolicy t.retryPlan error = some (i, p) ∧ h.count i = p.maxAttempts.toNat := by
  have counts := life.counts fresh
  refine ⟨counts.budget, counts.each, counts.attempts.trans counts.total.symm, ?_⟩
  intro shown workerId error now t'' fits takes
  rw [← counts.frozen]
  cases (handleFailure_inv takes).2.2 with
  | unmatched none => exact .inl none
  | @spent i p matched spent =>
    refine .inr ⟨i, p, matched, ?_⟩
    obtain ⟨there, -⟩ := matchedPolicy_eq_some.mp matched
    have within := counts.budget i p (counts.frozen ▸ there)
    have none : ¬t'.retriesBy i < p.maxAttempts.toNat := by
      rw [← hasBudgetAfter_iff (fits i p matched).1, spent]
      exact Bool.false_ne_true
    rw [counts.each] at none
    omega

end life

end Task

/-! ## The tasks of a run -/

/-- The row has had such a life since the task was asked for. -/
def Task.Lived (env : Env) (row : Task) : Prop :=
  ∃ t h, t.retryState = .default ∧ Life env.backoff env.debug (fun _ _ => True) t h row

section runs

variable {env : Env} {p : Projection} {c : Command} {ev : Event} {ts : Timestamp} {v row : Task}
  {log : List Entry} {n : Nat} {m : ObjectName}

theorem Task.Lived.claim (lived : row.Lived env) (workerId : String) (due at_ : Timestamp) :
    (row.claim workerId due at_).Lived env := by
  obtain ⟨t, h, fresh, life⟩ := lived
  exact ⟨t, h, fresh, life.claimed workerId due at_⟩

theorem Task.Lived.ended (lived : row.Lived env) (ends : v.status.isTerminal = true)
    (plan : v.retryPlan = row.retryPlan) (state : v.retryState = row.retryState) : v.Lived env := by
  obtain ⟨t, h, fresh, life⟩ := lived
  exact ⟨t, h, fresh, life.ended ends plan state⟩

theorem TaskTold.lived (told : TaskTold env p c ev) (filed : p.Filed) (inTime : ev.InTime ts)
    (member : v ∈ ev.tasks)
    (lived : ∀ row, p.tasks.lookup v.metadata.name = some row → row.Lived env)
    (after : (ev.apply ts p).tasks.lookup v.metadata.name = some row) : row.Lived env := by
  have stores (whole : ev.completesTask = false) : v = row :=
    Option.some.inj ((told.stores filed inTime member whole).symm.trans after)
  have told' := told
  cases told with
  | activated =>
    obtain rfl := stores rfl
    cases List.mem_singleton.mp member
    exact ⟨_, [], rfl, .start⟩
  | claimed lease granted =>
    obtain rfl := stores rfl
    obtain ⟨rows, -⟩ := Projection.granted_rows filed granted
    obtain ⟨row, there, rfl⟩ := List.mem_map.mp member
    exact (lived row (rows row there).1).claim _ _ _
  | completed found closes =>
    cases List.mem_singleton.mp member
    obtain ⟨_, worker, -, -, -, -, ended, stored⟩ := told'.completes ts filed
    obtain ⟨-, -, same, value⟩ := Task.markCompleted_eq closes
    have old := lived _ (filed.taskAgain found same.kin)
    cases stored.symm.trans after
    refine old.ended (by rw [ended]; rfl) ?_ ?_ <;> rw [value]
  | failed found fails =>
    obtain rfl := stores rfl
    cases List.mem_singleton.mp member
    obtain ⟨-, same, -⟩ := Task.handleFailure_eq fails
    obtain ⟨t, h, fresh, life⟩ := lived _ (filed.taskAgain found same.kin)
    exact ⟨t, _, fresh, life.failed trivial fails⟩
  | cancelled found closes =>
    obtain rfl := stores rfl
    cases List.mem_singleton.mp member
    obtain ⟨-, same, value⟩ := Task.markCancelled_eq closes
    refine (lived _ (filed.taskAgain found same.kin)).ended ?_ ?_ ?_ <;> rw [value]
    rfl

open Log in
/-- Every row of a task that a log folds to has had such a life. -/
theorem TaskHistory.lived (history : TaskHistory env log) (folds : FoldsTo log n p)
    (found : p.tasks.lookup m = some row) : row.Lived env := by
  induction n generalizing p row with
  | zero =>
    have empty : FoldsTo log 0 .empty := Mirrors.quiet (by simp) rfl
    obtain ⟨_, rfl⟩ := Projection.content_eq_iff.mp (Mirrors.unique empty folds)
    cases found
  | succ n ih =>
    obtain ⟨q, before⟩ := history.folds n
    rcases history.step before folds m with same | ⟨cause, ts, ev, v, entry, member, rfl, -⟩
    · exact ih before (same ▸ found)
    · obtain ⟨k, c, r, -, told⟩ := history.told _ _ _ _ entry (ev.isTask_of_mem member)
      refine told.told.lived told.filed told.inTime member (fun row found => ?_) ?_
      · exact ih told.before found
      · obtain ⟨_, rfl⟩ := Projection.content_eq_iff.mp (Mirrors.unique told.after folds)
        exact found

end runs

/-! A task whose budgets fit 32 bits, and one whose budget does not. -/

def slowError : ExecutionError := .runtime (.stateFailed "S" "Slow" .null)

/-- Its first retrier waits 100 seconds, once, and its second waits one, three times. -/
def slowTask : Task :=
  plannedTask [⟨["Slow"], 100, 1, ⟨0⟩, none⟩, ⟨["States.ALL"], 1, 3, ⟨0⟩, none⟩]

def interval (p : RetryPolicy) (_ : Nat) : Nat := max 1 p.intervalSeconds.toNat

def slowClaimed : Task := slowTask.claim "worker" ⟨60000⟩ ⟨0⟩

/-- Its worker has reported the slow error. -/
def slowed : Task := slowClaimed.requeued 0 100 ⟨0⟩

theorem slowed_taken : slowClaimed.handleFailure (fun _ => "") interval true "worker" slowError ⟨0⟩ =
    .ok (slowed, .retried) := by decide

/-- It has been claimed once more, and its worker has reported another error. -/
def slowedTwice : Task := (slowed.claim "worker" ⟨160000⟩ ⟨100000⟩).requeued 1 1 ⟨101000⟩

/-- A second slow error ends the task, with the budget of the first retrier spent and the one of the
    second not. -/
theorem Task.retry_budget_spent :
    (slowedTwice.handleFailure (fun _ => "") interval true "" slowError ⟨103000⟩ =
        .ok (slowedTwice.exhausted ⟨103000⟩, .terminal) ∧
      ∀ i, slowedTwice.retriesBy i = [0, 1].count i) ∧
    slowedTwice.retryState.attempts = totalAttempts slowedTwice.retryState.retrierAttempts ∧
    ∃ i p, matchedPolicy slowTask.retryPlan slowError = some (i, p) ∧
      [0, 1].count i = p.maxAttempts.toNat := by
  have fits (t : Task) (error : ExecutionError) (plan : t.retryPlan = slowTask.retryPlan) :
      t.Fits true error :=
    .of_checked (plan ▸ by decide)
  have life : Life interval true (Fits true) slowTask [0, 1] slowedTwice :=
    .failed (.claimed (.failed (.claimed .start "worker" ⟨60000⟩ ⟨0⟩) (fits _ _ rfl) slowed_taken)
      "worker" ⟨160000⟩ ⟨100000⟩) (fits _ workerError rfl) (rfl : handleFailure _ (fun _ => "") interval
        true "worker" workerError ⟨101000⟩ = .ok (slowedTwice, .retried))
  have ends : slowedTwice.handleFailure (fun _ => "") interval true "" slowError ⟨103000⟩ =
      .ok (slowedTwice.exhausted ⟨103000⟩, .terminal) := by decide
  obtain ⟨-, each, total, spent⟩ := retry_budget rfl life
  refine ⟨⟨ends, each⟩, total, (spent _ _ _ _ _ (fits _ _ rfl) ends).resolve_left ?_⟩
  decide

/-- A task that is retried whatever the error, so many times. -/
def retriedTask (maxAttempts : Int) : Task :=
  plannedTask [⟨["States.ALL"], 1, maxAttempts, ⟨0⟩, none⟩]

/-- With 2³² retries it fails for good on the first report. -/
theorem Task.budget_truncated :
    (retriedTask 4294967296).handleFailure (fun _ => "") (fun _ _ => 1) true "" workerError ⟨0⟩ =
        .ok ((retriedTask 4294967296).exhausted ⟨0⟩, .terminal) ∧
      (matchedPolicy (retriedTask 4294967296).retryPlan workerError).any
        (fun x => x.1 = 0 ∧ x.2.maxAttempts = 4294967296) = true ∧
      (retriedTask 4294967296).retriesBy 0 = 0 := by decide

/-! ## Gates -/

namespace Task

section gates

variable {backoff : RetryPolicy → Nat → Nat} {checked : Bool} {t t' t'' : Task}
  {error : ExecutionError} {shown : Option String → String} {workerId : String}
  {now at_ : Timestamp} {outcome : FailureOutcome}

/-- The delay the retrier that decides asks for. -/
def delayOf (backoff : RetryPolicy → Nat → Nat) (t : Task) (error : ExecutionError) : Option Nat :=
  (matchedPolicy t.retryPlan error).map fun x => backoff x.2 (t.retriesBy x.1)

/-- The gate a report sets, if it queues the task again. -/
def gateOf (backoff : RetryPolicy → Nat → Nat) (t : Task) (error : ExecutionError)
    (now : Timestamp) : Option Timestamp :=
  (matchedPolicy t.retryPlan error).bind fun x =>
    if x.2.hasBudgetAfter (t.retriesBy x.1) then
      some ((now.checkedAdd (backoff x.2 (t.retriesBy x.1))).getD now)
    else none

/-- The clock can hold the end of the delay. -/
def InClock (backoff : RetryPolicy → Nat → Nat) (t : Task) (error : ExecutionError)
    (now : Timestamp) : Prop :=
  ∀ d, t.delayOf backoff error = some d → now.millis + 1000 * d < u64Size

/-- Nobody can claim the task from now until the given instant. -/
def Closed (now : Timestamp) (until_ : Nat) (t : Task) : Prop :=
  ∀ at_ : Timestamp, now.millis ≤ at_.millis → at_.millis < until_ → t.isClaimableAt at_ = false

/-- A report does not open the task before the given instant. -/
def KeepsGate (backoff : RetryPolicy → Nat → Nat) (gate : Nat) (t : Task) (error : ExecutionError)
    (now : Timestamp) : Prop :=
  ∀ g, t.gateOf backoff error now = some g → gate ≤ g.millis

/-- The task until it is claimed or cancelled: it takes reports, from the given instant on. -/
inductive Waits (backoff : RetryPolicy → Nat → Nat) (checked : Bool) (now : Timestamp)
    (ok : Task → ExecutionError → Timestamp → Prop) (t : Task) : Task → Prop
  | still : Waits backoff checked now ok t t
  | failed {t' t'' : Task} {shown workerId error at_ outcome}
      (past : Waits backoff checked now ok t t') (later : now.millis ≤ at_.millis)
      (fine : ok t' error at_)
      (takes : t'.handleFailure shown backoff checked workerId error at_ = .ok (t'', outcome)) :
      Waits backoff checked now ok t t''

theorem checkedAdd_gate (now : Timestamp) (d : Nat) :
    ((now.checkedAdd d).getD now).millis =
      if now.millis + 1000 * d < u64Size then now.millis + 1000 * d else now.millis := by
  unfold Timestamp.checkedAdd
  by_cases room : now.millis + 1000 * d < u64Size
  · rw [if_pos (by omega), if_pos (by omega), if_pos room, Option.getD_some]
    show now.millis + d * 1000 = _
    omega
  · rw [if_neg room]
    split
    · rw [if_neg (by omega)]
      rfl
    · rfl

theorem gateOf_delay {g} (gate : t.gateOf backoff error now = some g) :
    ∃ d, t.delayOf backoff error = some d ∧ g = (now.checkedAdd d).getD now := by
  obtain ⟨x, matched, sets⟩ := Option.bind_eq_some_iff.mp gate
  split at sets
  · cases sets
    exact ⟨_, by rw [delayOf, matched]; rfl, rfl⟩
  · cases sets

theorem le_gateOf {g} (gate : t.gateOf backoff error now = some g) : now.millis ≤ g.millis := by
  obtain ⟨d, -, rfl⟩ := gateOf_delay gate
  rw [checkedAdd_gate]
  split <;> omega

/-- After a report the task is closed until the gate it sets, and for good if it sets none. -/
theorem Takes.claimable (takes : t.Takes backoff checked error now t' outcome) :
    t'.isClaimableAt at_ = false ↔
      ∀ g, t.gateOf backoff error now = some g → at_.millis < g.millis := by
  cases takes with
  | unmatched none => simp [gateOf, none, exhausted, isClaimableAt]
  | spent matched spent => simp [gateOf, matched, spent, exhausted, isClaimableAt]
  | retried matched budget => simp [gateOf, matched, budget, requeued, isClaimableAt]

theorem Takes.gateOf_retried (takes : t.Takes backoff checked error now t' .retried) :
    ∃ d, t.delayOf backoff error = some d ∧
      t.gateOf backoff error now = some ((now.checkedAdd d).getD now) := by
  cases takes with
  | retried matched budget =>
    exact ⟨_, by rw [delayOf, matched]; rfl, by simp [gateOf, matched, budget]⟩

/-- Only a report that keeps the gate leaves the task closed until then. -/
theorem Takes.keepsGate_iff (takes : t.Takes backoff checked error at_ t' outcome)
    (later : now.millis ≤ at_.millis) (gate : Nat) :
    t'.Closed now gate ↔ t.KeepsGate backoff gate error at_ := by
  constructor
  · intro closed g sets
    by_contra before
    have late := le_gateOf sets
    have open_ := takes.claimable.mp (closed g (by omega) (by omega)) g sets
    omega
  · intro keeps x _ early
    exact takes.claimable.mpr fun g sets => lt_of_lt_of_le early (keeps g sets)

theorem delayOf_pos (positive : ∀ p n, 1 ≤ backoff p n) {d}
    (delay : t.delayOf backoff error = some d) : 1 ≤ d := by
  obtain ⟨x, -, rfl⟩ := Option.map_eq_some_iff.mp delay
  exact positive _ _

/-- A delay the clock can hold takes at least a second. -/
theorem InClock.keepsGate (positive : ∀ p n, 1 ≤ backoff p n)
    (inClock : t.InClock backoff error at_) (later : now.millis ≤ at_.millis) :
    t.KeepsGate backoff (now.millis + 1000) error at_ := by
  intro g sets
  obtain ⟨d, delay, rfl⟩ := gateOf_delay sets
  have long := delayOf_pos positive delay
  rw [checkedAdd_gate, if_pos (inClock d delay)]
  omega

/-- A gate stays closed through the reports that keep it. -/
theorem Waits.closed {ok gate}
    (keeps : ∀ t error at_, now.millis ≤ at_.millis → ok t error at_ →
      t.KeepsGate backoff gate error at_)
    (waits : Waits backoff checked now ok t t') (start : t.Closed now gate) :
    t'.Closed now gate := by
  cases waits with
  | still => exact start
  | failed _ later fine takes =>
    exact ((handleFailure_inv takes).2.2.keepsGate_iff later gate).mpr (keeps _ _ _ later fine)

/-- A task that a report queues again is closed until its delay is over exactly if the clock can hold
    the end of the delay; otherwise it is open at once. It stays closed through further reports as
    long as they keep the gate, and each of them has to. The first second stays closed already if
    the clock can hold the ends of their delays. -/
theorem backoff_gate (positive : ∀ p n, 1 ≤ backoff p n)
    (takes : t.handleFailure shown backoff checked workerId error now = .ok (t', .retried)) :
    ∃ d, t.delayOf backoff error = some d ∧
      (t'.Closed now (now.millis + 1000 * d) ↔ now.millis + 1000 * d < u64Size) ∧
      (u64Size ≤ now.millis + 1000 * d → t'.isClaimableAt now = true) ∧
      (now.millis + 1000 * d < u64Size →
        (∀ t'', Waits backoff checked now (KeepsGate backoff (now.millis + 1000 * d)) t' t'' →
          t''.Closed now (now.millis + 1000 * d)) ∧
        ∀ t'', Waits backoff checked now (InClock backoff) t' t'' →
          t''.Closed now (now.millis + 1000)) ∧
      ∀ (t₁ t₂ : Task) shown workerId error (later : Timestamp) outcome,
        now.millis ≤ later.millis →
        t₁.handleFailure shown backoff checked workerId error later = .ok (t₂, outcome) →
        (t₂.Closed now (now.millis + 1000 * d) ↔
          t₁.KeepsGate backoff (now.millis + 1000 * d) error later) := by
  have taken := (handleFailure_inv takes).2.2
  obtain ⟨d, delay, gate⟩ := taken.gateOf_retried
  have long := delayOf_pos positive delay
  have keeps (until_ : Nat) : t.KeepsGate backoff until_ error now ↔
      until_ ≤ ((now.checkedAdd d).getD now).millis := by simp [KeepsGate, gate]
  have first : t'.Closed now (now.millis + 1000 * d) ↔ now.millis + 1000 * d < u64Size := by
    rw [taken.keepsGate_iff le_rfl, keeps, checkedAdd_gate]
    split <;> omega
  refine ⟨d, delay, first, fun ends => ?_, fun room => ⟨fun t'' waits => ?_, fun t'' waits => ?_⟩, ?_⟩
  · by_contra closed
    have early := taken.claimable.mp (Bool.eq_false_iff.mpr closed) _ gate
    rw [checkedAdd_gate, if_neg (by omega)] at early
    omega
  · exact waits.closed (fun _ _ _ _ keeps => keeps) (first.mpr room)
  · refine waits.closed (fun _ _ _ later inClock => inClock.keepsGate positive later) ?_
    exact fun at_ from_ early => first.mpr room at_ from_ (by omega)
  · intro t₁ t₂ shown workerId error later outcome after takes
    exact (handleFailure_inv takes).2.2.keepsGate_iff after _

end gates

/-- A report in the 100th second leaves the gate of the first one closed. -/
theorem backoff_gate_kept :
    slowed.handleFailure (fun _ => "") interval true "" workerError ⟨99500⟩ =
        .ok (slowed.requeued 1 1 ⟨99500⟩, .retried) ∧
      ∀ at_ : Timestamp, at_.millis < 100000 →
        (slowed.requeued 1 1 ⟨99500⟩).isClaimableAt at_ = false := by
  have second : slowed.handleFailure (fun _ => "") interval true "" workerError ⟨99500⟩ =
      .ok (slowed.requeued 1 1 ⟨99500⟩, .retried) := by decide
  obtain ⟨d, delay, -, -, waits, -⟩ := backoff_gate (fun _ _ => Nat.le_max_left _ _) slowed_taken
  have slow : slowClaimed.delayOf interval slowError = some 100 := by decide
  obtain rfl : d = 100 := Option.some.inj (delay.symm.trans slow)
  have keeps : slowed.KeepsGate interval 100000 workerError ⟨99500⟩ := by
    have gate : slowed.gateOf interval workerError ⟨99500⟩ = some ⟨100500⟩ := by decide
    simp [KeepsGate, gate]
  refine ⟨second, fun at_ early => ?_⟩
  exact (waits (by decide)).1 _ (.failed .still (Nat.zero_le _) keeps second) at_ (Nat.zero_le _) early

/-- A delay the clock cannot hold leaves the task open at once; and a report with an empty worker id,
    which a waiting task takes, opens it at two seconds in place of a hundred. -/
theorem gate_overflows :
    ((retriedTask 1).handleFailure (fun _ => "") (fun _ _ => 9223372036854775808) true "" workerError
          ⟨0⟩ = .ok ((retriedTask 1).requeued 0 9223372036854775808 ⟨0⟩, .retried) ∧
        ((retriedTask 1).requeued 0 9223372036854775808 ⟨0⟩).isClaimableAt ⟨0⟩ = true) ∧
      slowed.isClaimableAt ⟨2000⟩ = false ∧
      slowed.handleFailure (fun _ => "") interval true "" workerError ⟨1000⟩ =
        .ok (slowed.requeued 1 1 ⟨1000⟩, .retried) ∧
      (slowed.requeued 1 1 ⟨1000⟩).isClaimableAt ⟨2000⟩ = true := by decide

end Task

end Spica
