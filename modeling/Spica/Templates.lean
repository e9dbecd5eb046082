import Spica.Scenario
import Spica.Lib.Scan

/-! # Templates

A JSON value of a definition is a template: `eval_json` walks it and puts the value of each
expression string in its place. The parsed expressions are kept in a cache for the life of the
environment. Parsing and evaluation are the library's, arbitrary functions here.
-/

namespace Spica

variable {s : String} {v : Json} {f : EvalFault}

/-! ## Which strings are expressions -/

/-- `spica_asl::utils::is_jsonata_expr`, the notion of the parser. -/
def isJsonataExpr (value : String) : Bool :=
  let t := trimmed value.toList
  ['{', '%'].isPrefixOf t && ['%', '}'].isSuffixOf t

/-- The text between the delimiters. -/
def innerText (value : String) : String :=
  let t := trimmed value.toList
  String.ofList (trimmed ((t.drop 2).take (t.length - 4)))

/-- The delimiters share their `%`. -/
def Overlaps (value : String) : Prop := trimmed value.toList = ['{', '%', '}']

instance : DecidablePred Overlaps := fun value =>
  inferInstanceAs (Decidable (trimmed value.toList = ['{', '%', '}']))

theorem delimited_iff (t : List Char) :
    (t.take 2 = ['{', '%'] ∧ t.drop (t.length - 2) = ['%', '}']) ↔
      (['{', '%'].isPrefixOf t && ['%', '}'].isSuffixOf t) = true := by
  rw [Bool.and_eq_true, List.isPrefixOf_iff_prefix, List.isSuffixOf_iff_suffix,
    List.prefix_iff_eq_take, List.suffix_iff_eq_drop]
  exact and_congr eq_comm eq_comm

/-- Two delimiters in fewer than four characters. -/
theorem overlap_of_short {t} (opens : t.take 2 = ['{', '%'])
    (closes : t.drop (t.length - 2) = ['%', '}']) (short : t.length < 4) : t = ['{', '%', '}'] := by
  rcases t with _ | ⟨a, _ | ⟨b, _ | ⟨c, _ | ⟨d, t⟩⟩⟩⟩
  · cases opens
  · simp at opens
  · simp at opens closes
    simp [opens] at closes
  · simp at opens closes
    simp [opens, closes]
  · simp at short
    omega

/-- The evaluator and the parser take the same strings for expressions. -/
theorem extractJsonata_eq (s : String) :
    extractJsonata s = if isJsonataExpr s = true then
      if Overlaps s then .panics else .expr (innerText s)
    else .literal := by
  have same := delimited_iff (trimmed s.toList)
  unfold extractJsonata isJsonataExpr innerText
  dsimp only
  by_cases isExpr : (['{', '%'].isPrefixOf (trimmed s.toList) &&
      ['%', '}'].isSuffixOf (trimmed s.toList)) = true
  · obtain ⟨opens, closes⟩ := same.mpr isExpr
    rw [if_pos isExpr, if_pos ⟨opens, closes⟩]
    by_cases short : (trimmed s.toList).length < 4
    · have overlaps : Overlaps s := overlap_of_short opens closes short
      rw [if_pos short, if_pos overlaps]
    · have apart : ¬Overlaps s := by
        intro overlaps
        have three : (trimmed s.toList).length = 3 := congrArg List.length overlaps
        omega
      rw [if_neg short, if_neg apart]
  · rw [if_neg isExpr, if_neg (mt same.mp isExpr)]

theorem Overlaps.isJsonataExpr (overlaps : Overlaps s) : isJsonataExpr s = true := by
  unfold Spica.isJsonataExpr
  rw [show trimmed s.toList = ['{', '%', '}'] from overlaps]
  decide

/-! ## The evaluation environment -/

/-- The library: a parser and an evaluator, which is given the input data and the bindings. -/
structure Jsonata where
  AstNode : Type
  parse : String → Except String AstNode
  evaluate : AstNode → Json → Variables → Except String Json

/-- Why an evaluation gives no value. -/
inductive EvalFault where
  | error (e : ExecutionError)
  | panicked (msg : String)
  deriving DecidableEq

/-- Parsed expressions are only ever added by `ast_for`. -/
structure EvalEnv (lib : Jsonata) where
  astCache : Table String lib.AstNode
  parsed : ∀ expr ast, astCache.lookup expr = some ast → lib.parse expr = .ok ast

namespace EvalEnv

variable {lib : Jsonata}

def new : EvalEnv lib := ⟨∅, by simp⟩

def insert (env : EvalEnv lib) (expr : String) (ast : lib.AstNode) (ok : lib.parse expr = .ok ast) :
    EvalEnv lib where
  astCache := env.astCache.insert expr ast
  parsed := by
    intro expr' ast' found
    by_cases same : expr' = expr
    · subst same
      rw [AList.lookup_insert] at found
      cases found
      exact ok
    · rw [AList.lookup_insert_ne same] at found
      exact env.parsed expr' ast' found

/-- What an evaluation reads: `$states` and the variables. -/
abbrev Evaluation (lib : Jsonata) (α : Type) : Type :=
  Eff (Json × Variables) EvalFault (EvalEnv lib) α

def jsonataFault (expr message : String) : EvalFault := .error (.runtime (.jsonata expr message))

def astFor (expr : String) : Evaluation lib lib.AstNode := fun _ env =>
  match env.astCache.lookup expr with
  | some ast => (.ok ast, env)
  | none =>
    match ok : lib.parse expr with
    | .error message => (.error (jsonataFault expr message), env)
    | .ok ast => (.ok ast, env.insert expr ast ok)

/-- `$states` and the variables under their bare names; a variable called `states` hides the
    former. -/
def context (states : Json) (vars : Variables) : Variables :=
  Variables.bindAll (AList.singleton "states" states) (Scan.bindings vars)

def evalExpr (expr : String) : Evaluation lib Json := do
  let ast ← astFor expr
  fun (states, vars) env =>
    match lib.evaluate ast ((states.get "input").getD .null) (context states vars) with
    | .ok v => (.ok v, env)
    | .error message => (.error (jsonataFault expr message), env)

mutual
def evalJson (value : Json) : Evaluation lib Json :=
  match value with
  | .string s =>
    match extractJsonata s with
    | .expr inner => evalExpr inner
    | .literal => pure value
    | .panics => Eff.fail (.panicked "slice index starts at 2 but ends at 1")
  | .object fields => do pure (.object (← evalFields fields))
  | .array items => do pure (.array (← evalItems items))
  | .null | .bool _ | .number _ => pure value

def evalFields (fields : List (String × Json)) : Evaluation lib (List (String × Json)) :=
  match fields with
  | [] => pure []
  | (key, v) :: rest => do
    let v ← evalJson v
    let rest ← evalFields rest
    pure ((key, v) :: rest)

def evalItems (items : List Json) : Evaluation lib (List Json) :=
  match items with
  | [] => pure []
  | v :: rest => do
    let v ← evalJson v
    let rest ← evalItems rest
    pure (v :: rest)
end

end EvalEnv

/-! ## What a template comes to

The expression language is one partial function from the text of an expression to a value. -/

/-- The value of an expression, without a cache. -/
def Jsonata.value (lib : Jsonata) (states : Json) (vars : Variables) (expr : String) :
    Except String Json := do
  let ast ← lib.parse expr
  lib.evaluate ast ((states.get "input").getD .null) (EvalEnv.context states vars)

def Jsonata.run (lib : Jsonata) (states : Json) (vars : Variables) (expr : String) :
    Except ExecutionError Json :=
  (lib.value states vars expr).mapError fun message => .runtime (.jsonata expr message)

section template

variable (run : String → Except ExecutionError Json)

def fillString (s : String) : Except EvalFault Json :=
  match extractJsonata s with
  | .expr inner => (run inner).mapError .error
  | .literal => .ok (.string s)
  | .panics => .error (.panicked "slice index starts at 2 but ends at 1")

mutual
/-- The template with every string filled in, from the first to the last. -/
def Json.fill : Json → Except EvalFault Json
  | .string s => fillString run s
  | .object fields => do pure (.object (← Json.fillFields fields))
  | .array items => do pure (.array (← Json.fillItems items))
  | .null => .ok .null
  | .bool b => .ok (.bool b)
  | .number n => .ok (.number n)

def Json.fillFields : List (String × Json) → Except EvalFault (List (String × Json))
  | [] => .ok []
  | (key, v) :: rest => do
    let v ← Json.fill v
    let rest ← Json.fillFields rest
    pure ((key, v) :: rest)

def Json.fillItems : List Json → Except EvalFault (List Json)
  | [] => .ok []
  | v :: rest => do
    let v ← Json.fill v
    let rest ← Json.fillItems rest
    pure (v :: rest)
end

end template

mutual
/-- The strings of a value, its keys apart, in the order they are met. -/
def Json.strings : Json → List String
  | .string s => [s]
  | .object fields => Json.stringsOfFields fields
  | .array items => Json.stringsOfItems items
  | .null | .bool _ | .number _ => []

def Json.stringsOfFields : List (String × Json) → List String
  | [] => []
  | (_, v) :: rest => v.strings ++ Json.stringsOfFields rest

def Json.stringsOfItems : List Json → List String
  | [] => []
  | v :: rest => v.strings ++ Json.stringsOfItems rest
end

mutual
/-- A value has the shape of a template outside of its expressions, their values in their place. -/
inductive Fills (run : String → Except ExecutionError Json) : Json → Json → Prop
  | null : Fills run .null .null
  | bool (b : Bool) : Fills run (.bool b) (.bool b)
  | number (n : Number) : Fills run (.number n) (.number n)
  | literal {s : String} (literal : isJsonataExpr s = false) : Fills run (.string s) (.string s)
  | expr {s : String} {v} (isExpr : isJsonataExpr s = true) (value : run (innerText s) = .ok v) :
      Fills run (.string s) v
  | array {items values} (each : FillsItems run items values) :
      Fills run (.array items) (.array values)
  | object {fields values} (each : FillsFields run fields values) :
      Fills run (.object fields) (.object values)

inductive FillsItems (run : String → Except ExecutionError Json) : List Json → List Json → Prop
  | nil : FillsItems run [] []
  | cons {v v' rest rest'} (first : Fills run v v') (later : FillsItems run rest rest') :
      FillsItems run (v :: rest) (v' :: rest')

/-- The keys stay. -/
inductive FillsFields (run : String → Except ExecutionError Json) :
    List (String × Json) → List (String × Json) → Prop
  | nil : FillsFields run [] []
  | cons {key v v' rest rest'} (first : Fills run v v') (later : FillsFields run rest rest') :
      FillsFields run ((key, v) :: rest) ((key, v') :: rest')
end

/-! ## The cache -/

namespace EvalEnv

variable {lib : Jsonata} {states : Json} {vars : Variables}

/-- The cache holds what the parser would say. -/
theorem astFor_run (expr : String) (env : EvalEnv lib) :
    (astFor expr (states, vars) env).1 = (lib.parse expr).mapError (jsonataFault expr) := by
  unfold astFor
  split
  next ast cached =>
    rw [env.parsed expr ast cached]
    rfl
  next =>
    split
    next message failed =>
      rw [failed]
      rfl
    next ast ok =>
      show Except.ok ast = _
      rw [ok]
      rfl

theorem evalExpr_run (expr : String) (env : EvalEnv lib) :
    (evalExpr expr (states, vars) env).1 = (lib.run states vars expr).mapError .error := by
  let value (ast : lib.AstNode) : Except EvalFault Json :=
    (lib.evaluate ast ((states.get "input").getD .null) (context states vars)).mapError
      (jsonataFault expr)
  have split : (evalExpr expr (states, vars) env).1 =
      (astFor expr (states, vars) env).1 >>= value := by
    refine Eff.bind_fst fun ast env' => ?_
    dsimp only [value]
    cases lib.evaluate ast ((states.get "input").getD .null) (context states vars) <;> rfl
  rw [split, astFor_run, Jsonata.run, Jsonata.value]
  cases lib.parse expr with
  | error message => rfl
  | ok ast =>
    show value ast = (Except.mapError _ (lib.evaluate ast _ _)).mapError _
    dsimp only [value]
    cases lib.evaluate ast ((states.get "input").getD .null) (context states vars) <;> rfl

-- by recursion on the value; the state of the environment is whatever the values before left
mutual
theorem evalJson_run (v : Json) (env : EvalEnv lib) :
    (evalJson v (states, vars) env).1 = v.fill (lib.run states vars) := by
  cases v with
  | null | bool _ | number _ => rfl
  | string s =>
    rw [evalJson, Json.fill, fillString]
    cases extractJsonata s with
    | literal | panics => rfl
    | expr inner => exact evalExpr_run inner env
  | object fields =>
    rw [evalJson, Json.fill, ← evalFields_run fields env]
    exact Eff.bind_fst fun out env' => rfl
  | array items =>
    rw [evalJson, Json.fill, ← evalItems_run items env]
    exact Eff.bind_fst fun out env' => rfl

theorem evalFields_run (fields : List (String × Json)) (env : EvalEnv lib) :
    (evalFields fields (states, vars) env).1 = Json.fillFields (lib.run states vars) fields := by
  cases fields with
  | nil => rfl
  | cons field rest =>
    obtain ⟨key, v⟩ := field
    rw [evalFields, Json.fillFields, ← evalJson_run v env]
    refine Eff.bind_fst fun v' env' => ?_
    rw [← evalFields_run rest env']
    exact Eff.bind_fst fun rest' env'' => rfl

theorem evalItems_run (items : List Json) (env : EvalEnv lib) :
    (evalItems items (states, vars) env).1 = Json.fillItems (lib.run states vars) items := by
  cases items with
  | nil => rfl
  | cons v rest =>
    rw [evalItems, Json.fillItems, ← evalJson_run v env]
    refine Eff.bind_fst fun v' env' => ?_
    rw [← evalItems_run rest env']
    exact Eff.bind_fst fun rest' env'' => rfl
end

end EvalEnv

/-! ## Filling in -/

section template

variable {run : String → Except ExecutionError Json}

theorem fillString_literal (literal : isJsonataExpr s = false) :
    fillString run s = .ok (.string s) := by
  rw [fillString, extractJsonata_eq, if_neg (Bool.eq_false_iff.mp literal)]

theorem fillString_overlap (overlaps : Overlaps s) :
    fillString run s = .error (.panicked "slice index starts at 2 but ends at 1") := by
  rw [fillString, extractJsonata_eq, if_pos overlaps.isJsonataExpr, if_pos overlaps]

theorem fillString_expr (isExpr : isJsonataExpr s = true) (apart : ¬Overlaps s) :
    fillString run s = (run (innerText s)).mapError .error := by
  rw [fillString, extractJsonata_eq, if_pos isExpr, if_neg apart]

theorem fillString_fills (filled : fillString run s = .ok v) : Fills run (.string s) v := by
  by_cases overlaps : Overlaps s
  · rw [fillString_overlap overlaps] at filled
    cases filled
  · by_cases isExpr : isJsonataExpr s = true
    · rw [fillString_expr isExpr overlaps] at filled
      cases value : run (innerText s) with
      | error e =>
        rw [value] at filled
        cases filled
      | ok v' =>
        rw [value] at filled
        cases filled
        exact .expr isExpr value
    · rw [fillString_literal (Bool.eq_false_iff.mpr isExpr)] at filled
      cases filled
      exact .literal (Bool.eq_false_iff.mpr isExpr)

/-- Why a string cannot be filled in. -/
def stringFault (run : String → Except ExecutionError Json) (s : String) : Option EvalFault :=
  match fillString run s with
  | .ok _ => none
  | .error f => some f

theorem stringFault_eq_some : stringFault run s = some f ↔ fillString run s = .error f := by
  unfold stringFault
  cases fillString run s <;> simp

theorem stringFault_eq_none : stringFault run s = none ↔ ∃ v, fillString run s = .ok v := by
  unfold stringFault
  cases fillString run s <;> simp

/-- A walk gives a good value, or the fault of the first of its strings that has one. -/
inductive Walks (run : String → Except ExecutionError Json) {α : Type} (strings : List String)
    (Good : α → Prop) : Except EvalFault α → Prop
  | ok {a} (good : Good a) (none : strings.findSome? (stringFault run) = none) :
      Walks run strings Good (.ok a)
  | error {f : EvalFault} (first : strings.findSome? (stringFault run) = some f) :
      Walks run strings Good (.error f)

namespace Walks

variable {α β : Type} {strings later : List String} {Good : α → Prop} {Fine : β → Prop}
  {r : Except EvalFault α}

theorem bind {k} (walks : Walks run strings Good r)
    (rest : ∀ a, Good a → Walks run later Fine (k a)) :
    Walks run (strings ++ later) Fine (r >>= k) := by
  cases walks with
  | error first => exact .error (by rw [List.findSome?_append, first]; rfl)
  | @ok a good none =>
    show Walks run (strings ++ later) Fine (k a)
    have gives := rest a good
    generalize k a = next at gives
    cases gives with
    | ok fine later => exact .ok fine (by rw [List.findSome?_append, none, later]; rfl)
    | error first => exact .error (by rw [List.findSome?_append, none, first]; rfl)

theorem map {g : α → β} (walks : Walks run strings Good r) (fine : ∀ a, Good a → Fine (g a)) :
    Walks run strings Fine (r >>= fun a => pure (g a)) := by
  cases walks with
  | error first => exact .error first
  | ok good none => exact .ok (fine _ good) none

end Walks

-- by recursion on the value, the strings in the order of the walk
mutual
theorem Json.fill_walks (v : Json) : Walks run v.strings (Fills run v) (v.fill run) := by
  cases v with
  | null => exact .ok .null rfl
  | bool b => exact .ok (.bool b) rfl
  | number n => exact .ok (.number n) rfl
  | string s =>
    rw [Json.fill, Json.strings]
    cases filled : fillString run s with
    | ok v => exact .ok (fillString_fills filled) (by simp [stringFault, filled])
    | error f => exact .error (by simp [stringFault, filled])
  | object fields =>
    rw [Json.fill, Json.strings]
    exact (Json.fillFields_walks fields).map fun _ each => .object each
  | array items =>
    rw [Json.fill, Json.strings]
    exact (Json.fillItems_walks items).map fun _ each => .array each

theorem Json.fillFields_walks (fields : List (String × Json)) :
    Walks run (Json.stringsOfFields fields) (FillsFields run fields)
      (Json.fillFields run fields) := by
  cases fields with
  | nil => exact .ok .nil rfl
  | cons field rest =>
    obtain ⟨key, v⟩ := field
    rw [Json.fillFields, Json.stringsOfFields]
    exact (Json.fill_walks v).bind fun _ first =>
      (Json.fillFields_walks rest).map fun _ later => .cons first later

theorem Json.fillItems_walks (items : List Json) :
    Walks run (Json.stringsOfItems items) (FillsItems run items) (Json.fillItems run items) := by
  cases items with
  | nil => exact .ok .nil rfl
  | cons v rest =>
    rw [Json.fillItems, Json.stringsOfItems]
    exact (Json.fill_walks v).bind fun _ first =>
      (Json.fillItems_walks rest).map fun _ later => .cons first later
end

/-! ## The walk as a whole -/

/-- The walk comes to a string whose delimiters overlap: each expression before it has a value. -/
def Json.Trips (run : String → Except ExecutionError Json) (v : Json) : Prop :=
  ∃ before s later, v.strings = before ++ s :: later ∧ Overlaps s ∧
    ∀ s' ∈ before, isJsonataExpr s' = true → ∃ r, run (innerText s') = .ok r

theorem Json.fill_eq_error :
    v.fill run = .error f ↔ v.strings.findSome? (stringFault run) = some f := by
  have walks : Walks run v.strings (Fills run v) (v.fill run) := Json.fill_walks v
  generalize v.fill run = r at walks
  cases walks with
  | ok good none => simp [none]
  | error first => simp [first, eq_comm]

theorem stringFault_panicked {msg} (fault : stringFault run s = some (.panicked msg)) :
    Overlaps s := by
  by_contra apart
  rw [stringFault_eq_some] at fault
  by_cases isExpr : isJsonataExpr s = true
  · rw [fillString_expr isExpr apart] at fault
    cases value : run (innerText s) <;> rw [value] at fault <;> cases fault
  · rw [fillString_literal (Bool.eq_false_iff.mpr isExpr)] at fault
    cases fault

theorem stringFault_error {e} (fault : stringFault run s = some (.error e)) :
    isJsonataExpr s = true ∧ run (innerText s) = .error e := by
  rw [stringFault_eq_some] at fault
  by_cases overlaps : Overlaps s
  · rw [fillString_overlap overlaps] at fault
    cases fault
  · by_cases isExpr : isJsonataExpr s = true
    · rw [fillString_expr isExpr overlaps] at fault
      cases value : run (innerText s) with
      | ok v =>
        rw [value] at fault
        cases fault
      | error e' =>
        rw [value] at fault
        cases fault
        exact ⟨isExpr, rfl⟩
    · rw [fillString_literal (Bool.eq_false_iff.mpr isExpr)] at fault
      cases fault

theorem Json.fill_panics_iff : (∃ msg, v.fill run = .error (.panicked msg)) ↔ v.Trips run := by
  simp only [Json.fill_eq_error]
  constructor
  · rintro ⟨msg, first⟩
    obtain ⟨before, s, later, split, fault, none⟩ := List.findSome?_eq_some_iff.mp first
    refine ⟨before, s, later, split, stringFault_panicked fault, fun s' there isExpr => ?_⟩
    obtain ⟨r, filled⟩ := stringFault_eq_none.mp (none s' there)
    cases fillString_fills filled with
    | literal literal =>
      rw [isExpr] at literal
      cases literal
    | expr _ value => exact ⟨_, value⟩
  · rintro ⟨before, s, later, split, overlaps, filled⟩
    rw [split, List.findSome?_append]
    cases early : before.findSome? (stringFault run) with
    | none =>
      have fault : stringFault run s = _ := stringFault_eq_some.mpr (fillString_overlap overlaps)
      rw [List.findSome?_cons_of_isSome (by rw [fault]; rfl), fault]
      exact ⟨_, rfl⟩
    | some f =>
      cases f with
      | panicked msg => exact ⟨msg, rfl⟩
      | error e =>
        obtain ⟨s', there, fault⟩ := List.exists_of_findSome?_eq_some early
        obtain ⟨isExpr, failed⟩ := stringFault_error fault
        obtain ⟨r, value⟩ := filled s' there isExpr
        rw [value] at failed
        cases failed

theorem Json.fill_fails_iff (clear : ¬v.Trips run) :
    (∃ e, v.fill run = .error (.error e)) ↔
      ∃ s ∈ v.strings, isJsonataExpr s = true ∧ ∃ e, run (innerText s) = .error e := by
  constructor
  · rintro ⟨e, failed⟩
    obtain ⟨s, there, fault⟩ := List.exists_of_findSome?_eq_some (Json.fill_eq_error.mp failed)
    obtain ⟨isExpr, value⟩ := stringFault_error fault
    exact ⟨s, there, isExpr, e, value⟩
  · rintro ⟨s, there, isExpr, e, value⟩
    cases filled : v.fill run with
    | error f =>
      cases f with
      | error e' => exact ⟨e', rfl⟩
      | panicked msg => exact absurd (Json.fill_panics_iff.mp ⟨msg, filled⟩) clear
    | ok r =>
      have walks : Walks run v.strings (Fills run v) (v.fill run) := Json.fill_walks v
      rw [filled] at walks
      cases walks with
      | ok _ none =>
        obtain ⟨r', one⟩ := stringFault_eq_none.mp (List.findSome?_eq_none_iff.mp none s there)
        cases fillString_fills one with
        | literal literal =>
          rw [isExpr] at literal
          cases literal
        | expr _ value' =>
          rw [value] at value'
          cases value'

end template

/-- A template is evaluated string by string, whatever is cached, unless the walk comes to a string
    whose delimiters overlap. -/
theorem evalJson_structural_iff (lib : Jsonata) (v states : Json) (vars : Variables) :
    ((∀ (env : EvalEnv lib) msg, (EvalEnv.evalJson v (states, vars) env).1 ≠
        .error (.panicked msg)) ∧
      (∀ (env : EvalEnv lib) r, (EvalEnv.evalJson v (states, vars) env).1 = .ok r →
        Fills (lib.run states vars) v r) ∧
      (∀ env : EvalEnv lib, (∃ e, (EvalEnv.evalJson v (states, vars) env).1 = .error (.error e)) ↔
        ∃ s ∈ v.strings, isJsonataExpr s = true ∧
          ∃ e, lib.run states vars (innerText s) = .error e) ∧
      ∀ env env' : EvalEnv lib, (EvalEnv.evalJson v (states, vars) env).1 =
        (EvalEnv.evalJson v (states, vars) env').1) ↔
    ¬v.Trips (lib.run states vars) := by
  simp only [EvalEnv.evalJson_run]
  constructor
  · rintro ⟨safe, -⟩ trips
    obtain ⟨msg, panics⟩ := Json.fill_panics_iff.mpr trips
    exact safe .new msg panics
  · intro clear
    refine ⟨fun _ msg panics => clear (Json.fill_panics_iff.mp ⟨msg, panics⟩), fun _ r filled => ?_,
      fun _ => Json.fill_fails_iff clear, fun _ _ => trivial⟩
    have walks : Walks (lib.run states vars) v.strings (Fills (lib.run states vars) v) _ :=
      Json.fill_walks v
    rw [filled] at walks
    cases walks with
    | ok good _ => exact good

/-! The shortest string the parser takes for an expression. -/

def echo : Jsonata := ⟨String, .ok, fun ast _ _ => .ok (.string ast)⟩

theorem overlap_panics : isJsonataExpr "\x7b%\x7d" = true ∧
    (EvalEnv.evalJson (.array [.string "\x7b% a %\x7d", .string "\x7b%\x7d"]) (.null, ∅)
      (.new : EvalEnv echo)).1 = .error (.panicked "slice index starts at 2 but ends at 1") := by
  rw [EvalEnv.evalJson_run]
  decide +kernel

/-! ## The handlers' evaluation -/

/-- How a handler sees the outcome. -/
def EvalFault.settle {α : Type} : Except EvalFault α → Except Abort (Except ExecutionError α)
  | .ok a => .ok (.ok a)
  | .error (.error e) => .ok (.error e)
  | .error (.panicked msg) => .error (.panicked msg)

section handlers

variable {lib : Jsonata} {c : Ctx} {states : Json} {vars : Variables} {w : Work} {α β : Type}

/-- A handler that passes an error on goes on as the template does. -/
theorem settle_bind {m : Handler (Except ExecutionError α)} {k r} {g : α → Except EvalFault β}
    (first : (m.run Handler.interpret c w).1 = EvalFault.settle r)
    (stops : ∀ e, k (.error e) = pure (.error e))
    (rest : ∀ a w', ((k (.ok a)).run Handler.interpret c w').1 = EvalFault.settle (g a)) :
    ((m >>= k).run Handler.interpret c w).1 = EvalFault.settle (r >>= g) := by
  rw [Prog.run_bind]
  rcases ran : m.run Handler.interpret c w with ⟨result, w'⟩
  rw [ran] at first
  obtain rfl : result = _ := first
  rcases r with (e | msg) | a
  · rw [Eff.bind_of_ok ran, stops]
    rfl
  · rw [Eff.bind_of_error ran]
    rfl
  · rw [Eff.bind_of_ok ran]
    exact rest a w'

/-- The library answers alike each time it is asked. -/
def Jsonata.Answers (lib : Jsonata) (c : Ctx) (states : Json) (vars : Variables) : Prop :=
  ∀ k expr, c.jsonata k expr states vars = lib.value states vars expr

theorem evalExpr_handler (answers : lib.Answers c states vars) (expr : String) (w : Work) :
    ((evalExpr expr states vars).run Handler.interpret c w).1 =
      EvalFault.settle ((lib.run states vars expr).mapError .error) := by
  rw [evalExpr, Prog.run_bind, Prog.run_perform]
  have answer : Handler.interpret (.evalJsonata expr states vars) c w =
      (.ok (lib.value states vars expr), { w with evals := w.evals + 1 }) := by
    rw [← answers w.evals expr]
    rfl
  rw [Eff.bind_of_ok answer, Jsonata.run]
  cases lib.value states vars expr <;> rfl

mutual
/-- A handler's evaluation is that of the template. -/
theorem evalJson_handler (answers : lib.Answers c states vars) (v : Json) (w : Work) :
    ((evalJson v states vars).run Handler.interpret c w).1 =
      EvalFault.settle (v.fill (lib.run states vars)) := by
  cases v with
  | null | bool _ | number _ => rfl
  | string s =>
    rw [evalJson, Json.fill, fillString]
    cases extractJsonata s with
    | literal | panics => rfl
    | expr inner => exact evalExpr_handler answers inner w
  | object fields =>
    rw [evalJson, Json.fill]
    exact settle_bind (evalFields_handler answers fields w) (fun _ => rfl) fun _ _ => rfl
  | array items =>
    rw [evalJson, Json.fill]
    exact settle_bind (evalItems_handler answers items w) (fun _ => rfl) fun _ _ => rfl

theorem evalFields_handler (answers : lib.Answers c states vars) (fields : List (String × Json))
    (w : Work) :
    ((evalFields fields states vars).run Handler.interpret c w).1 =
      EvalFault.settle (Json.fillFields (lib.run states vars) fields) := by
  cases fields with
  | nil => rfl
  | cons field rest =>
    obtain ⟨key, v⟩ := field
    rw [evalFields, Json.fillFields]
    refine settle_bind (evalJson_handler answers v w) (fun _ => rfl) fun v' w' => ?_
    exact settle_bind (evalFields_handler answers rest w') (fun _ => rfl) fun _ _ => rfl

theorem evalItems_handler (answers : lib.Answers c states vars) (items : List Json) (w : Work) :
    ((evalItems items states vars).run Handler.interpret c w).1 =
      EvalFault.settle (Json.fillItems (lib.run states vars) items) := by
  cases items with
  | nil => rfl
  | cons v rest =>
    rw [evalItems, Json.fillItems]
    refine settle_bind (evalJson_handler answers v w) (fun _ => rfl) fun v' w' => ?_
    exact settle_bind (evalItems_handler answers rest w') (fun _ => rfl) fun _ _ => rfl
end

/-- A handler is given what the evaluator returns, whatever that has parsed before. -/
theorem handler_evaluates (answers : lib.Answers c states vars) (v : Json) (w : Work)
    (env : EvalEnv lib) : ((evalJson v states vars).run Handler.interpret c w).1 =
      EvalFault.settle (EvalEnv.evalJson v (states, vars) env).1 := by
  rw [EvalEnv.evalJson_run]
  exact evalJson_handler answers v w

/-- A library whose expressions are names of variables. -/
def lookups : Jsonata :=
  ⟨String, fun expr => if expr = "" then .error "empty" else .ok expr, fun ast _ vars =>
    match vars.lookup ast with
    | some v => .ok v
    | none => .error "undefined"⟩

open Scenario in
def answering : Ctx := ⟨backend, host true (single pass), 1, fun _ => ⟨0⟩, fun _ => .nil,
  fun _ expr states vars => lookups.value states vars expr⟩

/-- Two names, one of them twice, and a text without a name. -/
def nested : Json :=
  .object [("a", .array [.string "\x7b% x %\x7d", .string "plain", .string "\x7b% x %\x7d"]),
    ("b", .object [("c", .string "\x7b% y %\x7d")])]

/-- The first name has been parsed before. -/
def warm : EvalEnv lookups := EvalEnv.new.insert "x" "x" rfl

/-- With both variables there is a value; without the second there is an error. -/
theorem handler_evaluates_nested :
    ((evalJson nested .null (.bindAll ∅ [("x", .bool true), ("y", .null)])).run Handler.interpret
      answering (.start .empty ∅)).1 = .ok (.ok (.object
        [("a", .array [.bool true, .string "plain", .bool true]), ("b", .object [("c", .null)])])) ∧
    ((evalJson nested .null (.bindAll ∅ [("x", .bool true)])).run Handler.interpret answering
      (.start .empty ∅)).1 = .ok (.error (.runtime (.jsonata "y" "undefined"))) := by
  rw [handler_evaluates (fun _ _ => rfl) nested _ warm,
    handler_evaluates (fun _ _ => rfl) nested _ warm]
  simp only [EvalEnv.evalJson_run]
  decide +kernel

end handlers

end Spica
