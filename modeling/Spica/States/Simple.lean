import Spica.States.Base

/-! # The states that own no children: Pass, Succeed, Fail, Choice and Wait -/

namespace Spica

/-! ## Pass -/

def passHandler (s : PassState) : StateHandler where
  afterCompleting := finishCompleting s.assign s.output s.next s.end_
  afterTerminating := terminateLeaf

/-! ## Succeed -/

def processSucceed (s : SucceedState) (act : Activity) (vars : Variables) :
    Handler (Except ExecutionError Json) :=
  let result := act.rawOutput.getD act.rawInput
  projectOutput s.output (finishStates act (some result)).build vars result

def succeedAfterCompleting (s : SucceedState) (act : Activity) (vars : Variables) :
    Handler Unit := do
  match ← processSucceed s act vars with
  | .error e => failState act.objectRef e
  | .ok output =>
    ThreadElement.open_ act.metadata.owner
    closeCompleted act output
    ThreadElement.afterChildCompleted act.metadata.owner act.objectRef.raw

def succeedHandler (s : SucceedState) : StateHandler where
  afterCompleting := succeedAfterCompleting s
  afterTerminating := terminateLeaf

/-! ## Fail -/

/-- An optional text of the state, evaluated. -/
def evalOptional (text : Option String) (states : Json) (vars : Variables) :
    Handler (Except ExecutionError (Option Json)) := do
  match text with
  | none => pure (.ok none)
  | some text =>
    match ← evalStringOrExpr text states vars with
    | .error e => pure (.error e)
    | .ok v => pure (.ok (some v))

/-- `fail_reason`: the error first, then the cause. -/
def failReason (s : FailState) (act : Activity) (states : Json) (vars : Variables) :
    Handler (Except ExecutionError TerminationReason) := do
  match ← evalOptional s.error states vars with
  | .error e => pure (.error e)
  | .ok error =>
    match ← evalOptional s.cause states vars with
    | .error e => pure (.error e)
    | .ok cause =>
      let name := (error.bind Json.asStr).getD "States.Fail"
      let fields := (cause.map fun c => ("Cause", c)).toList ++
        (error.map fun e => ("Error", e)).toList
      pure (.ok (.failed (.runtime
        (.stateFailed act.statePath.stateName name (.object fields)))))

def processFail (s : FailState) (act : Activity) (vars : Variables) :
    Handler (Except ExecutionError TerminationReason) :=
  failReason s act (finishStates act none).build vars

def failAfterCompleting (s : FailState) (act : Activity) (vars : Variables) : Handler Unit := do
  match ← processFail s act vars with
  | .error e => failState act.objectRef e
  | .ok reason => failCompleting act reason

def failHandler (s : FailState) : StateHandler where
  afterCompleting := failAfterCompleting s
  afterTerminating := terminateLeaf

/-! ## Choice -/

/-- Whether one rule applies. -/
def ruleMatches (rule : ChoiceRule) (states : Json) (vars : Variables) :
    Handler (Except ExecutionError Bool) := do
  match rule.condition with
  | none => pure (.ok false)
  | some (.bool b) => pure (.ok b)
  | some (.expr e) =>
    match extractJsonata e.text with
    | .panics => panicked "slice index starts at 2 but ends at 1"
    | .literal => pure (.error (.runtime (.invalidDefinition
        "Choice Condition must be a \x7b% %\x7d JSONata expression")))
    | .expr inner =>
      match ← evalExpr inner states vars with
      | .error e => pure (.error e)
      | .ok (.bool b) => pure (.ok b)
      | .ok _ => pure (.error (.runtime (.jsonata e.text
          "Condition must evaluate to a boolean")))

/-- The first rule that applies, in order. -/
def firstMatch (states : Json) (vars : Variables) :
    List ChoiceRule → Handler (Except ExecutionError (Option ChoiceRule))
  | [] => pure (.ok none)
  | rule :: rest => do
    match ← ruleMatches rule states vars with
    | .error e => pure (.error e)
    | .ok true => pure (.ok (some rule))
    | .ok false => firstMatch states vars rest

/-- `resolve_choice`: the rule's own assign and output with its target, or the default. -/
def resolveChoice (s : ChoiceState) (states : Json) (vars : Variables) (stateName : String) :
    Handler (Except ExecutionError (Option AssignObject × Option Json × String)) := do
  match ← firstMatch states vars s.choices with
  | .error e => pure (.error e)
  | .ok (some rule) => pure (.ok (rule.assign, rule.output, rule.next))
  | .ok none =>
    match s.default with
    | some d => pure (.ok (none, none, d))
    | none => pure (.error (.runtime (.noChoiceMatched stateName)))

def processChoice (s : ChoiceState) (act : Activity) (vars : Variables) :
    Handler (Except ExecutionError (StatePath × Json)) := do
  let states := (finishStates act none).build
  match ← resolveChoice s states vars act.statePath.stateName with
  | .error e => pure (.error e)
  | .ok (assign, output, next) =>
    match ← applyAssign act.metadata.owner (assign.or s.assign) states vars with
    | .error e => pure (.error e)
    | .ok scope =>
      match ← projectOutput (output.or s.output) states scope act.rawInput with
      | .error e => pure (.error e)
      | .ok out => pure (.ok (act.statePath.sibling next, out))

def choiceAfterCompleting (s : ChoiceState) (act : Activity) (vars : Variables) :
    Handler Unit := do
  match ← processChoice s act vars with
  | .error e => failState act.objectRef e
  | .ok (next, output) =>
    closeCompleted act output
    transitionTo act next output

def choiceHandler (s : ChoiceState) : StateHandler where
  afterCompleting := choiceAfterCompleting s
  afterTerminating := terminateLeaf

/-! ## Wait -/

def maxWaitSeconds : Int := 99999999

private def invalid {α : Type} (msg : String) : Except ExecutionError α :=
  .error (.runtime (.invalidDefinition msg))

/-- The deadline `seconds` from now, within the allowed range. -/
def waitUntil (at_ : Timestamp) (seconds : Int) (outOfRange : String) :
    Except ExecutionError Timestamp :=
  if 0 ≤ seconds ∧ seconds ≤ maxWaitSeconds then
    match at_.checkedAdd seconds.toNat with
    | some t => .ok t
    | none => invalid "Wait Seconds overflows the absolute deadline"
  else invalid outOfRange

/-- The whole number a value holds, if it does. -/
def wholeNumber (env : Env) : Json → Option Int
  | .number n => env.wholeOf n
  | _ => none

def resolveWaitDeadline (s : WaitState) (vars : Variables) (states : Json) (at_ : Timestamp) :
    Handler (Except ExecutionError Timestamp) := do
  match s.seconds, s.timestamp with
  | some (.int n), none =>
    pure (waitUntil at_ n "Wait Seconds must be an integer in the range 0..99999999")
  | some (.expr e), none =>
    match ← evalStringOrExpr e.text states vars with
    | .error e => pure (.error e)
    | .ok v =>
      match wholeNumber (← platform) v with
      | none => pure (invalid "Wait Seconds expression must evaluate to an integer")
      | some n => pure (waitUntil at_ n
          "Wait Seconds expression must evaluate to an integer in the range 0..99999999")
  | none, some (.literal text) =>
    match (← platform).parseTimestamp text with
    | some t => pure (.ok t)
    | none => pure (invalid s!"Wait Timestamp is not a valid RFC3339 timestamp: {text}")
  | none, some (.expr e) =>
    match ← evalStringOrExpr e.text states vars with
    | .error e => pure (.error e)
    | .ok (.string text) =>
      match (← platform).parseTimestamp text with
      | some t => pure (.ok t)
      | none => pure (invalid
          s!"Wait Timestamp expression must evaluate to a valid RFC3339 timestamp: {text}")
    | .ok _ => pure (invalid "Wait Timestamp expression must evaluate to a string")
  | _, _ => panicked "Wait state must specify exactly one of Seconds or Timestamp"

def waitProcessInput (s : WaitState) (act : Activity) (vars : Variables) (states : Json)
    (at_ : Timestamp) : Handler (Except ExecutionError (Json × Activity)) := do
  match ← resolveWaitDeadline s vars states at_ with
  | .error e => pure (.error e)
  | .ok resumeAt =>
    pure (.ok (act.rawInput, { act with activityState := some (.wait ⟨resumeAt⟩) }))

def waitHandler (s : WaitState) : StateHandler where
  processInput := waitProcessInput s
  completeDirectly := false
  afterCompleting := finishCompleting s.assign s.output s.next s.end_
  afterTerminating := terminateLeaf

end Spica
