import Spica.Types.Json

/-! # The state machine document and paths into it

The definition types a flow is made of and the walk that locates one state inside the shared
document. A path is the list of its decoded pointer tokens.
-/

namespace Spica

/-- A string holding a JSONata expression wrapped in its delimiters, kept verbatim. -/
structure JsonataExpr where
  text : String
  deriving Repr, DecidableEq

inductive IntOrExpr where
  | int (n : Int)
  | expr (e : JsonataExpr)
  deriving Repr, DecidableEq

/-- The body of an `Assign` object. -/
structure AssignObject where
  fields : List (String × Json)
  deriving Repr, DecidableEq

/-- One `Retry` policy. -/
structure Retrier where
  errorEquals : List String
  intervalSeconds : Option Int
  maxAttempts : Option Int
  backoffRate : Option F64
  maxDelaySeconds : Option Int
  deriving Repr, DecidableEq

/-- One `Catch` route. -/
structure Catcher where
  errorEquals : List String
  next : String
  assign : Option AssignObject
  output : Option Json
  deriving Repr, DecidableEq

structure PassState where
  output : Option Json
  assign : Option AssignObject
  next : Option String
  end_ : Option Bool
  deriving Repr, DecidableEq

inductive WaitTimestamp where
  | literal (s : String)
  | expr (e : JsonataExpr)
  deriving Repr, DecidableEq

structure WaitState where
  output : Option Json
  assign : Option AssignObject
  next : Option String
  end_ : Option Bool
  seconds : Option IntOrExpr
  timestamp : Option WaitTimestamp
  deriving Repr, DecidableEq

structure SucceedState where
  output : Option Json
  deriving Repr, DecidableEq

structure FailState where
  cause : Option String
  error : Option String
  deriving Repr, DecidableEq

structure TaskState where
  output : Option Json
  assign : Option AssignObject
  next : Option String
  end_ : Option Bool
  arguments : Option Json
  retry : Option (List Retrier)
  catch_ : Option (List Catcher)
  resource : String
  timeoutSeconds : Option IntOrExpr
  deriving Repr, DecidableEq

inductive ChoiceCondition where
  | bool (b : Bool)
  | expr (e : JsonataExpr)
  deriving Repr, DecidableEq

structure ChoiceRule where
  condition : Option ChoiceCondition
  next : String
  assign : Option AssignObject
  output : Option Json
  deriving Repr, DecidableEq

structure ChoiceState where
  output : Option Json
  assign : Option AssignObject
  default : Option String
  choices : List ChoiceRule
  deriving Repr, DecidableEq

inductive MapItems where
  | array (items : List Json)
  | expr (e : JsonataExpr)
  deriving Repr, DecidableEq

mutual
/-- A `Parallel` branch: a table of states and its entry point. -/
structure Branch where
  startAt : String
  states : List (String × State)

/-- A `Map`'s per-item sub-machine. -/
structure ItemProcessor where
  startAt : String
  states : List (String × State)

structure ParallelState where
  output : Option Json
  assign : Option AssignObject
  next : Option String
  end_ : Option Bool
  branches : List Branch
  arguments : Option Json

structure MapState where
  output : Option Json
  assign : Option AssignObject
  next : Option String
  end_ : Option Bool
  itemProcessor : Option ItemProcessor
  items : Option MapItems
  maxConcurrency : Option IntOrExpr

inductive State where
  | pass (s : PassState)
  | wait (s : WaitState)
  | succeed (s : SucceedState)
  | fail (s : FailState)
  | task (s : TaskState)
  | choice (s : ChoiceState)
  | parallel (s : ParallelState)
  | map (s : MapState)
end

/-- A table of named states. -/
abbrev StateTable : Type := List (String × State)

structure StateMachine where
  startAt : String
  timeoutSeconds : Option Int
  states : StateTable

namespace Retrier

def defaultIntervalSeconds : Int := 1
def defaultMaxAttempts : Int := 3
/-- `2.0`. -/
def defaultBackoffRate : F64 := ⟨0x4000000000000000⟩

def intervalSecondsOr (r : Retrier) : Int := r.intervalSeconds.getD defaultIntervalSeconds
def maxAttemptsOr (r : Retrier) : Int := r.maxAttempts.getD defaultMaxAttempts
def backoffRateOr (r : Retrier) : F64 := r.backoffRate.getD defaultBackoffRate

end Retrier

/-- `MapState::max_concurrency`: an omitted cap is `0`, no limit. -/
def MapState.maxConcurrencyOr (m : MapState) : IntOrExpr := m.maxConcurrency.getD (.int 0)

/-! ## Paths -/

/-- A pointer into the machine document, as its decoded tokens. -/
structure StatePath where
  tokens : List String
  deriving Repr, DecidableEq

namespace StatePath

def statesKey : String := "States"
def branchesKey : String := "Branches"
def itemProcessorKey : String := "ItemProcessor"

/-- The machine's own top-level table. -/
def root : StatePath := ⟨[statesKey]⟩

/-- The leaf token: the state's key in its table. -/
def stateName (p : StatePath) : String := p.tokens.getLast?.getD ""

def state (p : StatePath) (name : String) : StatePath := ⟨p.tokens ++ [name]⟩

def branch (p : StatePath) (index : Nat) : StatePath :=
  ⟨p.tokens ++ [branchesKey, toString index, statesKey]⟩

def itemProcessor (p : StatePath) : StatePath := ⟨p.tokens ++ [itemProcessorKey, statesKey]⟩

def sibling (p : StatePath) (next : String) : StatePath := ⟨p.tokens.dropLast ++ [next]⟩

end StatePath

/-- Why a walk did not land on a table. -/
inductive StatePathError where
  | malformed (msg : String)
  | notFound (msg : String)
  deriving Repr, DecidableEq

instance : ToString StatePathError where
  toString
    | .malformed msg => msg
    | .notFound msg => msg

private def digitValue (c : Char) : Option Nat :=
  if c.isDigit then some (c.toNat - '0'.toNat) else none

/-- `str::parse::<usize>`: an optional `+`, then at least one decimal digit, below `2 ^ 64`. -/
def parseUsize (s : String) : Option Nat :=
  let digits := match s.toList with
    | '+' :: rest => rest
    | all => all
  if digits.isEmpty then none
  else do
    let n ← digits.foldlM (fun acc c => do return acc * 10 + (← digitValue c)) 0
    if n < u64Size then some n else none

private theorem foldlM_digitValue {digits} (decimal : ∀ c ∈ digits, c.isDigit = true) (acc : Nat) :
    digits.foldlM (fun acc c => do return acc * 10 + (← digitValue c)) acc =
      some (Nat.ofDigitChars 10 digits acc) := by
  induction digits generalizing acc with
  | nil => rfl
  | cons c digits ih =>
    have first : digitValue c = some (c.toNat - '0'.toNat) := if_pos (decimal c (by simp))
    rw [List.foldlM_cons, first]
    show digits.foldlM _ (acc * 10 + (c.toNat - '0'.toNat)) = _
    rw [ih fun c' there => decimal c' (List.mem_cons_of_mem _ there), Nat.mul_comm]
    rfl

/-- An index is read back from its decimal form. -/
theorem parseUsize_toString {n} (fits : n < u64Size) : parseUsize (toString n) = some n := by
  have digits : (toString n).toList = Nat.toDigits 10 n := Nat.toList_repr
  have decimal : ∀ c ∈ Nat.toDigits 10 n, c.isDigit = true := fun c there =>
    Nat.isDigit_of_mem_toDigits (by decide) (by decide) there
  have value := foldlM_digitValue decimal 0
  rw [Nat.ofDigitChars_toDigits (by decide) (by decide)] at value
  unfold parseUsize
  rw [digits]
  split
  · next rest plus =>
      have sign := decimal '+' (by rw [plus]; simp)
      cases sign
  · have some_ : (Nat.toDigits 10 n).isEmpty = false := by simp [Nat.toDigits_ne_nil]
    dsimp only
    rw [some_, value]
    exact if_pos fits

namespace StateMachine

/-- `walk_states`: each step opens with `States`, names a container and the child to descend
    into; a walk with nothing left names the table it stands on. -/
def walkStates : StateTable → List String → Except StatePathError StateTable
  | states, [] => .ok states
  | states, opener :: rest =>
    if opener ≠ StatePath.statesKey then
      .error (.malformed s!"state_path malformed: expected '{StatePath.statesKey}', got '{opener}'")
    else
      match rest with
      | [] => .ok states
      | name :: rest =>
        match states.lookup name with
        | none => .error (.notFound name)
        | some (.parallel p) =>
          match rest with
          | key :: rest =>
            if key ≠ StatePath.branchesKey then
              .error (.malformed s!"state_path malformed: expected '{StatePath.branchesKey}'")
            else
              match rest with
              | [] => .error (.notFound "state_path truncated at branch index")
              | index :: rest =>
                match parseUsize index with
                | none => .error (.malformed "state_path branch index is not an integer")
                | some idx =>
                  match p.branches[idx]? with
                  | none => .error (.notFound s!"branch index {idx} of state {name}")
                  | some b => walkStates b.states rest
          | [] => .error (.malformed s!"state_path malformed: expected '{StatePath.branchesKey}'")
        | some (.map m) =>
          match rest with
          | key :: rest =>
            if key ≠ StatePath.itemProcessorKey then
              .error (.malformed
                s!"state_path malformed: expected '{StatePath.itemProcessorKey}'")
            else
              match m.itemProcessor with
              | none => .error (.malformed s!"Map state '{name}' has no ItemProcessor")
              | some processor => walkStates processor.states rest
          | [] => .error (.malformed
              s!"state_path malformed: expected '{StatePath.itemProcessorKey}'")
        | some _ =>
          .error (.malformed s!"state_path step '{name}' is not a Parallel or Map state")
termination_by structural _ tokens => tokens

/-- `state_at`: the leaf looked up in the table its parent path names. -/
def stateAt (m : StateMachine) (path : StatePath) : Except StatePathError State :=
  match walkStates m.states path.tokens.dropLast with
  | .error e => .error e
  | .ok table =>
    match table.lookup path.stateName with
    | some s => .ok s
    | none => .error (.notFound path.stateName)

end StateMachine

end Spica
