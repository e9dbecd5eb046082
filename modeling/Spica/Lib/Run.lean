import Mathlib.Logic.Relation
import Mathlib.Logic.Function.Iterate

/-! # Runs of a partial step function

A system is a function that says what each action does in each state, if it is enabled. A run
takes only steps that meet a condition on the state and the action.
-/

namespace Run

variable {S A : Type} {step : S → A → Option S} {ok : S → A → Prop} {s t : S}

/-- One step that meets the condition. -/
def Move (step : S → A → Option S) (ok : S → A → Prop) (s t : S) : Prop :=
  ∃ a, ok s a ∧ step s a = some t

/-- A run: any number of steps that all meet the condition. -/
def Reach (step : S → A → Option S) (ok : S → A → Prop) : S → S → Prop :=
  Relation.ReflTransGen (Move step ok)

/-- What holds at the start and survives every step holds wherever the run gets to. -/
theorem Reach.keeps {I : S → Prop} (run : Reach step ok s t)
    (kept : ∀ s a t, I s → ok s a → step s a = some t → I t) (start : I s) : I t := by
  induction run with
  | refl => exact start
  | tail _ move ih =>
    obtain ⟨a, good, moved⟩ := move
    exact kept _ a _ ih good moved

/-- A condition may be weakened. -/
theorem Reach.weaken {ok'} (run : Reach step ok s t) (weaker : ∀ s a, ok s a → ok' s a) :
    Reach step ok' s t :=
  Relation.ReflTransGen.mono (fun s _ ⟨a, good, moved⟩ => ⟨a, weaker s a good, moved⟩) _ _ run

/-- Take the given actions in order, passing over those that are not enabled. -/
def script (step : S → A → Option S) : S → List A → S
  | s, [] => s
  | s, a :: as => script step ((step s a).getD s) as

/-- An action that meets the condition is a run, enabled or not. -/
theorem reach_act {a} (good : ok s a) : Reach step ok s ((step s a).getD s) := by
  cases moved : step s a with
  | none => exact .refl
  | some m => exact .single ⟨a, good, moved⟩

/-- A script is a run, if each of its actions meets the condition wherever it is taken. -/
theorem reach_script {as} (good : ∀ s, ∀ a ∈ as, ok s a) : Reach step ok s (script step s as) := by
  induction as generalizing s with
  | nil => exact .refl
  | cons a as ih =>
    have first : Reach step ok s ((step s a).getD s) := reach_act (good s a (by simp))
    exact first.trans (ih fun s a member => good s a (by simp [member]))

/-- Each action of a script passes a check where it is taken. -/
def checked (step : S → A → Option S) (good : S → A → Bool) : S → List A → Bool
  | _, [] => true
  | s, a :: as => good s a && checked step good ((step s a).getD s) as

theorem reach_checked {as} (good : S → A → Bool) (sound : ∀ s, ∀ a ∈ as, good s a = true → ok s a)
    (all : checked step good s as = true) : Reach step ok s (script step s as) := by
  induction as generalizing s with
  | nil => exact .refl
  | cons a as ih =>
    simp only [checked, Bool.and_eq_true] at all
    have first : Reach step ok s ((step s a).getD s) :=
      reach_act (sound s a List.mem_cons_self all.1)
    exact first.trans (ih (fun s a member => sound s a (List.mem_cons_of_mem _ member)) all.2)

theorem reach_script_cons {a as} (first : ok s a) (rest : ∀ s, ∀ b ∈ as, ok s b) :
    Reach step ok s (script step s (a :: as)) :=
  (reach_act first).trans (reach_script rest)

/-- A deterministic step that comes closer to its aim wherever it is not there yet reaches it. -/
theorem iterate_reaches {f} {I aim : S → Prop} (distance : S → Nat) (kept : ∀ s, I s → I (f s))
    (closer : ∀ s, I s → ¬ aim s → distance (f s) < distance s) (start : I s) :
    ∃ n, aim (f^[n] s) := by
  induction far : distance s using Nat.strongRecOn generalizing s with
  | ind d ih =>
    subst far
    by_cases there : aim s
    · exact ⟨0, there⟩
    · obtain ⟨n, reached⟩ := ih _ (closer s start there) (kept s start) rfl
      exact ⟨n + 1, reached⟩

end Run
