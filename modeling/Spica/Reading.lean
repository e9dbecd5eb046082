import Spica.Logic

/-! # Programs that only read

A program that reads rows, the clock or an expression and leaves the draft alone. Nothing about
its result is kept.
-/

namespace Spica

/-- The operation leaves the draft as it is. -/
def Op.reads : Op → Bool
  | .appendEvent _ | .appendCommand _ | .reject _ | .nextGeneratedSeq | .cache _ _ => false
  | _ => true

/-- Every operation of the program leaves the draft as it is. -/
def Reads {α : Type} (m : Handler α) : Prop := m.Uses (·.reads = true)

namespace Reads

variable {α β : Type}

theorem same {m : Handler α} (reads : Reads m) {env cause s t a}
    (gives : m.Runs (Handler.does env cause) s a t) : t = s := by
  refine Prog.Uses.runs (R := fun s t => t = s) (fun _ => rfl) ?_ ?_ reads gives
  · rintro s t u rfl rfl
    rfl
  · intro o s a t reads did
    cases o with
    | ask | peek | env | cached => exact did.2
    | mint | now | evalJsonata => exact did
    | _ => cases reads

protected theorem pure (a : α) : Reads (pure a : Handler α) := trivial

protected theorem rejected (type : RejectionType) (reason : String) :
    Reads (rejected type reason : Handler α) := trivial

protected theorem panicked (msg : String) : Reads (panicked msg : Handler α) := trivial

protected theorem bind {m : Handler α} {f : α → Handler β} (first : Reads m)
    (rest : ∀ a, Reads (f a)) : Reads (m >>= f) := Prog.Uses.bind first rest

theorem perform {o : Op} (reads : o.reads = true) : Reads (Prog.perform o : Handler o.Ret) :=
  Prog.Uses.perform reads

theorem ask (q : Query) (onFault : StorageError → Abort) :
    Reads (Prog.perform (Op.ask q onFault) : Handler q.Ret) := perform rfl

theorem peek (q : Query) :
    Reads (Prog.perform (Op.peek q) : Handler (Except StorageError q.Ret)) := perform rfl

theorem platform : Reads platform := perform rfl

end Reads

/-! ## Expressions -/

/-- The operation evaluates an expression. -/
def Op.evaluates : Op → Bool
  | .evalJsonata _ _ _ => true
  | _ => false

/-- The program evaluates expressions, and does nothing else. -/
def Evaluates {α : Type} (m : Handler α) : Prop := m.Uses (·.evaluates = true)

namespace Evaluates

variable {α β : Type}

theorem reads {m : Handler α} (evaluates : Evaluates m) : Reads m :=
  Prog.Uses.mono evaluates fun o evaluates => by
    cases o with
    | evalJsonata => rfl
    | _ => cases evaluates

protected theorem pure (a : α) : Evaluates (pure a : Handler α) := trivial

protected theorem panicked (msg : String) : Evaluates (panicked msg : Handler α) := trivial

protected theorem bind {m : Handler α} {f : α → Handler β} (first : Evaluates m)
    (rest : ∀ a, Evaluates (f a)) : Evaluates (m >>= f) := Prog.Uses.bind first rest

theorem evalExpr (expr : String) (states : Json) (vars : Variables) :
    Evaluates (evalExpr expr states vars) := by
  refine .bind (Prog.Uses.perform rfl) fun r => ?_
  cases r with
  | ok v => exact .pure _
  | error e => exact .pure _

end Evaluates

mutual
theorem Evaluates.evalJson (value states : Json) (vars : Variables) :
    Evaluates (evalJson value states vars) := by
  cases value with
  | null | bool _ | number _ => unfold Spica.evalJson; exact .pure _
  | string s =>
    unfold Spica.evalJson
    split
    · exact .evalExpr _ _ _
    · exact .pure _
    · exact .panicked _
  | object fields =>
    unfold Spica.evalJson
    refine .bind (Evaluates.evalFields fields states vars) fun r => ?_
    cases r <;> exact .pure _
  | array items =>
    unfold Spica.evalJson
    refine .bind (Evaluates.evalItems items states vars) fun r => ?_
    cases r <;> exact .pure _

theorem Evaluates.evalFields (fields : List (String × Json)) (states : Json) (vars : Variables) :
    Evaluates (evalFields fields states vars) := by
  cases fields with
  | nil => unfold Spica.evalFields; exact .pure _
  | cons field rest =>
    obtain ⟨key, v⟩ := field
    unfold Spica.evalFields
    refine .bind (Evaluates.evalJson v states vars) fun r => ?_
    cases r with
    | error e => exact .pure _
    | ok v' =>
      refine .bind (Evaluates.evalFields rest states vars) fun r => ?_
      cases r <;> exact .pure _

theorem Evaluates.evalItems (items : List Json) (states : Json) (vars : Variables) :
    Evaluates (evalItems items states vars) := by
  cases items with
  | nil => unfold Spica.evalItems; exact .pure _
  | cons v rest =>
    unfold Spica.evalItems
    refine .bind (Evaluates.evalJson v states vars) fun r => ?_
    cases r with
    | error e => exact .pure _
    | ok v' =>
      refine .bind (Evaluates.evalItems rest states vars) fun r => ?_
      cases r <;> exact .pure _
end

namespace Evaluates

theorem evalStringOrExpr (s : String) (states : Json) (vars : Variables) :
    Evaluates (evalStringOrExpr s states vars) := by
  unfold Spica.evalStringOrExpr
  split
  · exact .evalExpr _ _ _
  · exact .pure _
  · exact .panicked _

theorem projectOutput (output : Option Json) (states : Json) (scope : Variables) (fallback : Json) :
    Evaluates (projectOutput output states scope fallback) := by
  unfold Spica.projectOutput
  split
  · exact .evalJson _ _ _
  · exact .pure _

theorem ruleMatches (rule : ChoiceRule) (states : Json) (vars : Variables) :
    Evaluates (ruleMatches rule states vars) := by
  unfold Spica.ruleMatches
  split
  · exact .pure _
  · exact .pure _
  · split
    · exact .panicked _
    · exact .pure _
    · refine .bind (.evalExpr _ _ _) fun r => ?_
      split <;> exact .pure _

theorem firstMatch (states : Json) (vars : Variables) (rules : List ChoiceRule) :
    Evaluates (firstMatch states vars rules) := by
  induction rules with
  | nil => exact .pure _
  | cons rule rest ih =>
    unfold Spica.firstMatch
    refine .bind (.ruleMatches _ _ _) fun r => ?_
    split
    · exact .pure _
    · exact .pure _
    · exact ih

theorem resolveChoice (s : ChoiceState) (states : Json) (vars : Variables) (stateName : String) :
    Evaluates (resolveChoice s states vars stateName) := by
  unfold Spica.resolveChoice
  refine .bind (.firstMatch _ _ _) fun r => ?_
  split
  · exact .pure _
  · exact .pure _
  · split <;> exact .pure _

end Evaluates

namespace Reads

theorem evalJson (value states : Json) (vars : Variables) : Reads (evalJson value states vars) :=
  (Evaluates.evalJson value states vars).reads

theorem evalStringOrExpr (s : String) (states : Json) (vars : Variables) :
    Reads (evalStringOrExpr s states vars) := (Evaluates.evalStringOrExpr s states vars).reads

theorem projectOutput (output : Option Json) (states : Json) (scope : Variables) (fallback : Json) :
    Reads (projectOutput output states scope fallback) :=
  (Evaluates.projectOutput output states scope fallback).reads

theorem resolveChoice (s : ChoiceState) (states : Json) (vars : Variables) (stateName : String) :
    Reads (resolveChoice s states vars stateName) :=
  (Evaluates.resolveChoice s states vars stateName).reads

/-! ## Inputs, deadlines and reasons -/

theorem taskProcessInput (s : TaskState) (act : Activity) (vars : Variables) (states : Json)
    (at_ : Timestamp) : Reads (taskProcessInput s act vars states at_) := by
  unfold Spica.taskProcessInput
  split
  · exact .pure _
  · refine .bind (.evalJson _ _ _) fun r => ?_
    cases r <;> exact .pure _

theorem timeoutSeconds (timeout : IntOrExpr) (vars : Variables) (states : Json) :
    Reads (timeoutSeconds timeout vars states) := by
  unfold Spica.timeoutSeconds
  split
  · exact .pure _
  · refine .bind (.evalStringOrExpr _ _ _) fun r => ?_
    split
    · exact .pure _
    · exact .bind .platform fun _ => .pure _
    · exact .pure _

theorem resolveTaskDeadline (timeout : Option IntOrExpr) (vars : Variables) (states : Json)
    (at_ : Timestamp) : Reads (resolveTaskDeadline timeout vars states at_) := by
  unfold Spica.resolveTaskDeadline
  split
  · exact .pure _
  · refine .bind (.timeoutSeconds _ _ _) fun r => ?_
    split
    · exact .pure _
    · exact .pure _
    · split <;> exact .pure _

theorem evalOptional (text : Option String) (states : Json) (vars : Variables) :
    Reads (evalOptional text states vars) := by
  unfold Spica.evalOptional
  split
  · exact .pure _
  · refine .bind (.evalStringOrExpr _ _ _) fun r => ?_
    cases r <;> exact .pure _

theorem processFail (s : FailState) (act : Activity) (vars : Variables) :
    Reads (processFail s act vars) := by
  unfold Spica.processFail failReason
  refine .bind (.evalOptional _ _ _) fun r => ?_
  split
  · exact .pure _
  · refine .bind (.evalOptional _ _ _) fun r => ?_
    split <;> exact .pure _

theorem resolveWaitDeadline (s : WaitState) (vars : Variables) (states : Json) (at_ : Timestamp) :
    Reads (resolveWaitDeadline s vars states at_) := by
  unfold Spica.resolveWaitDeadline
  split
  · exact .pure _
  · refine .bind (.evalStringOrExpr _ _ _) fun r => ?_
    split
    · exact .pure _
    · refine .bind .platform fun _ => ?_
      split <;> exact .pure _
  · refine .bind .platform fun _ => ?_
    split <;> exact .pure _
  · refine .bind (.evalStringOrExpr _ _ _) fun r => ?_
    split
    · exact .pure _
    · refine .bind .platform fun _ => ?_
      split <;> exact .pure _
    · exact .pure _
  · exact .panicked _

theorem parallelProcessInput (s : ParallelState) (act : Activity) (vars : Variables) (states : Json)
    (at_ : Timestamp) : Reads (parallelProcessInput s act vars states at_) := by
  unfold Spica.parallelProcessInput
  split
  · exact .pure _
  · refine .bind (.evalJson _ _ _) fun r => ?_
    cases r <;> exact .pure _

theorem resolveMapItems (s : MapState) (act : Activity) (vars : Variables) (states : Json) :
    Reads (resolveMapItems s act vars states) := by
  unfold Spica.resolveMapItems
  split
  · exact .pure _
  · refine .bind (.evalStringOrExpr _ _ _) fun r => ?_
    split <;> exact .pure _
  · split <;> exact .pure _

theorem resolveMaxConcurrency (s : MapState) (vars : Variables) (states : Json) :
    Reads (resolveMaxConcurrency s vars states) := by
  unfold Spica.resolveMaxConcurrency
  split
  · split <;> exact .pure _
  · refine .bind (.evalStringOrExpr _ _ _) fun r => ?_
    split
    · exact .pure _
    · refine .bind .platform fun _ => ?_
      split <;> exact .pure _
    · exact .pure _

/-! ## Owners -/

theorem threadOpen (owner : ObjectRef .thread) : Reads (ThreadElement.open_ owner) := by
  refine .bind (.ask _ _) fun row => ?_
  split
  · exact .rejected _ _
  · exact .pure _

theorem executionOpen (owner : ObjectRef .execution) : Reads (ExecutionElement.open_ owner) := by
  refine .bind (.ask _ _) fun row => ?_
  split
  · exact .rejected _ _
  · exact .pure _

theorem activityOpen (owner : ObjectRef .activity) : Reads (ActivityElement.open_ owner) := by
  refine .bind (.ask _ _) fun row => ?_
  split
  · exact .rejected _ _
  · exact .pure _

theorem openOwner (owner : ThreadOwner) : Reads (ThreadElement.openOwner owner) := by
  cases owner with
  | execution r => exact executionOpen r
  | activity r => exact activityOpen r

/-! ## Progress of a fan-out -/

theorem peekThread (r : ObjectRef .thread) : Reads (peekThread r) := peek ..

theorem scanBranches (refs : List (ObjectRef .thread)) : Reads (scanBranches refs) := by
  induction refs with
  | nil => exact .pure _
  | cons ref rest ih =>
    unfold Spica.scanBranches
    refine .bind (.peekThread _) fun r => ?_
    split
    · exact .pure _
    · split
      · exact .pure _
      · refine .bind ih fun r => ?_
        split <;> exact .pure _

theorem countSucceeded (refs : List (ObjectRef .thread)) : Reads (countSucceeded refs) := by
  induction refs with
  | nil => exact .pure _
  | cons ref rest ih =>
    unfold Spica.countSucceeded
    exact .bind (.peekThread _) fun _ => .bind ih fun _ => .pure _

theorem subUsize (a b : Nat) : Reads (subUsize a b) := by
  unfold Spica.subUsize
  split
  · exact .pure _
  · refine .bind .platform fun _ => ?_
    split
    · exact .panicked _
    · exact .pure _

end Reads

end Spica
