import Spica.Handler

/-! # Expression evaluation

A string wrapped in `{% %}` is an expression; a JSON value is evaluated string by string. The
expression language itself is the library's: each evaluation is one operation.
-/

namespace Spica

/-- Unicode `White_Space`. -/
def isWhiteSpace (c : Char) : Bool :=
  let n := c.toNat
  (9 ≤ n && n ≤ 13) || n == 0x20 || n == 0x85 || n == 0xA0 || n == 0x1680 ||
    (0x2000 ≤ n && n ≤ 0x200A) || n == 0x2028 || n == 0x2029 || n == 0x202F || n == 0x205F ||
    n == 0x3000

/-- `str::trim`. -/
def trimmed (s : List Char) : List Char :=
  ((s.dropWhile isWhiteSpace).reverse.dropWhile isWhiteSpace).reverse

/-- What a string is to the evaluator. -/
inductive Extracted where
  | literal
  | expr (inner : String)
  /-- `{%}` opens and closes with the same `%`, and slicing it panics -/
  | panics
  deriving DecidableEq

def extractJsonata (s : String) : Extracted :=
  let t := trimmed s.toList
  if t.take 2 = ['{', '%'] ∧ t.drop (t.length - 2) = ['%', '}'] then
    if t.length < 4 then .panics
    else .expr (String.ofList (trimmed ((t.drop 2).take (t.length - 4))))
  else .literal

def evalExpr (expr : String) (states : Json) (vars : Variables) :
    Handler (Except ExecutionError Json) := do
  match (← Prog.perform (Op.evalJsonata expr states vars) : Except String Json) with
  | .ok v => pure (.ok v)
  | .error message => pure (.error (.runtime (.jsonata expr message)))

mutual
def evalJson (value states : Json) (vars : Variables) : Handler (Except ExecutionError Json) :=
  match value with
  | .string s =>
    match extractJsonata s with
    | .expr inner => evalExpr inner states vars
    | .literal => pure (.ok value)
    | .panics => panicked "slice index starts at 2 but ends at 1"
  | .object fields => do
    match ← evalFields fields states vars with
    | .ok out => pure (.ok (.object out))
    | .error e => pure (.error e)
  | .array items => do
    match ← evalItems items states vars with
    | .ok out => pure (.ok (.array out))
    | .error e => pure (.error e)
  | .null | .bool _ | .number _ => pure (.ok value)

def evalFields (fields : List (String × Json)) (states : Json) (vars : Variables) :
    Handler (Except ExecutionError (List (String × Json))) :=
  match fields with
  | [] => pure (.ok [])
  | (key, v) :: rest => do
    match ← evalJson v states vars with
    | .error e => pure (.error e)
    | .ok v' =>
      match ← evalFields rest states vars with
      | .error e => pure (.error e)
      | .ok rest' => pure (.ok ((key, v') :: rest'))

def evalItems (items : List Json) (states : Json) (vars : Variables) :
    Handler (Except ExecutionError (List Json)) :=
  match items with
  | [] => pure (.ok [])
  | v :: rest => do
    match ← evalJson v states vars with
    | .error e => pure (.error e)
    | .ok v' =>
      match ← evalItems rest states vars with
      | .error e => pure (.error e)
      | .ok rest' => pure (.ok (v' :: rest'))
end

/-- The inputs of the `$states` object. -/
structure States where
  input : Json
  result : Option Json := none
  stateName : String
  assignCtx : Option Json := none
  retryCount : Nat
  errorOutput : Option Json := none

/-- `States::build`, keys in the map's order. -/
def States.build (s : States) : Json :=
  let errorOutput := s.errorOutput.getD .null
  let exec : List (String × Json) :=
    if errorOutput ≠ .null then
      [("Cause", (errorOutput.get "Cause").getD .null),
       ("Error", (errorOutput.get "Error").getD .null)]
    else []
  .object
    [("context", .object
      [("Execution", .object exec),
       ("Map", .object []),
       ("State", .object
         [("Name", .string s.stateName), ("RetryCount", .number (.posInt s.retryCount))]),
       ("StateMachine", .object [])]),
     ("errorOutput", errorOutput),
     ("input", s.assignCtx.getD s.input),
     ("result", s.result.getD .null)]

end Spica
