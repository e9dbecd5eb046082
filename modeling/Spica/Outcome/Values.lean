import Spica.Lawful
import Spica.Outcome.Menu
import Spica.Within

/-! # The values of an activity

An activity event carries the whole new row. Wherever the value comes from, some fields are those
the activity was born with; only a task that is to be retried counts in the row of its activity.
-/

namespace Spica

/-- The activity an event carries the new value of. -/
def Event.activity? : Event → Option Activity
  | .stateActivating a | .stateActivated a | .stateCompleting a | .stateCompleted a
  | .stateTerminating a | .stateTerminated a => some a
  | _ => none

/-- The event re-queues a task, which counts in the row of its activity. -/
def Event.retries : Event → Bool
  | .taskFailed t _ => t.status = .pending
  | _ => false

/-- What no event of an activity changes. -/
structure Activity.Kept (a a' : Activity) : Prop where
  identity : a.metadata.SameIdentity a'.metadata
  execution : a'.execution = a.execution
  statePath : a'.statePath = a.statePath
  rawInput : a'.rawInput = a.rawInput
  retryState : a'.retryState = a.retryState

section values

variable {env : Env} {M : Machines} {p q : Projection} {c : Command} {ds : List Deed}
  {act a b : Activity} {d : State} {ending : Ending} {at_ : Timestamp}

namespace Activity.Kept

theorem refl (a : Activity) : a.Kept a := ⟨.refl _, rfl, rfl, rfl, rfl⟩

theorem trans (first : act.Kept a) (second : a.Kept b) : act.Kept b where
  identity := first.identity.trans second.identity
  execution := second.execution.trans first.execution
  statePath := second.statePath.trans first.statePath
  rawInput := second.rawInput.trans first.rawInput
  retryState := second.retryState.trans first.retryState

theorem name (kept : act.Kept a) : a.metadata.name = act.metadata.name :=
  kept.identity.2.2.1.symm

/-- Whatever else is updated. -/
theorem updated (at_ : Timestamp) {status input rawOutput output state} : a.Kept { a with
      status := status, input := input, rawOutput := rawOutput, output := output
      activityState := state, metadata := a.metadata.withUpdateAt at_ } :=
  ⟨a.metadata.sameIdentity_withUpdateAt at_, rfl, rfl, rfl, rfl⟩

theorem markCompleting {output} (ok : a.markCompleting output at_ = .ok b) : a.Kept b := by
  unfold Activity.markCompleting at ok
  split at ok <;> cases ok
  exact updated at_

theorem markCompleted {output} (ok : a.markCompleted output at_ = .ok b) : a.Kept b := by
  unfold Activity.markCompleted at ok
  split at ok <;> cases ok
  exact updated at_

theorem markTerminating {reason} (ok : a.markTerminating reason at_ = .ok b) : a.Kept b := by
  unfold Activity.markTerminating at ok
  split at ok <;> cases ok
  exact updated at_

theorem markTerminated (ok : a.markTerminated at_ = .ok b) : a.Kept b := by
  unfold Activity.markTerminated at ok
  split at ok <;> cases ok
  exact updated at_

theorem asserted {update} (made : Asserted env a update b)
    (kept : ∀ {at_ b}, update at_ = .ok b → a.Kept b) : a.Kept b := by
  unfold Asserted at made
  split at made
  · obtain ⟨at_, ok⟩ := made
    exact kept ok
  · subst made
    exact .refl _

end Activity.Kept

theorem Ending.Emits.kept {ev} (emits : ending.Emits env act q ds) (there : .event ev ∈ ds)
    (carries : ev.activity? = some a) : act.Kept a := by
  cases emits with
  | fails => simp at there
  | moves closes =>
    rcases (by simpa using there : ev = _ ∨ ev = _) with rfl | rfl <;> cases carries
    exact .asserted closes .markCompleted
  | ends closes =>
    obtain rfl : ev = _ := by simpa using there
    cases carries
    exact .asserted closes .markCompleted
  | succeeds closes =>
    obtain rfl : ev = _ := by simpa using there
    cases carries
    exact .asserted closes .markCompleted
  | breaks opens closes =>
    have opened : act.Kept _ := .asserted opens .markTerminating
    rcases (by simpa using there : ev = _ ∨ ev = _) with rfl | rfl <;> cases carries
    · exact opened
    · exact opened.trans (.asserted closes .markTerminated)

theorem Terminates.kept {ev} (terminates : Terminates env d act p q ds) (there : .event ev ∈ ds)
    (carries : ev.activity? = some a) : act.Kept a := by
  have closing {ds : List Deed} (closes : Closes env act q ds) (there : .event ev ∈ ds) :
      act.Kept a := by
    cases closes with
    | intro closes =>
      obtain rfl : ev = _ := by simpa using there
      cases carries
      exact .asserted closes .markTerminated
  unfold Terminates at terminates
  cases d with
  | task s =>
    obtain ⟨cs, -, ⟨-, closes⟩ | ⟨-, rfl⟩⟩ := terminates
    · exact closing closes there
    · simp at there
  | parallel | map =>
    rcases terminates with ⟨-, closes⟩ | ⟨-, cs, -, rfl⟩
    · exact closing closes there
    · simp at there
  | _ => exact closing terminates there

theorem Assigns.no_activity {owner states vars assign r ev}
    (assigns : Assigns env owner states vars assign r ds) (there : .event ev ∈ ds) :
    ev.activity? = none := by
  obtain ⟨vars', same⟩ := assigns.event there
  cases same
  rfl

/-- The value an activity event carries comes from the row the command is sent to, or from the birth
    in the same answer. -/
theorem Outcome.activity_value {ev} (outcome : Outcome env M p q c ds) (there : .event ev ∈ ds)
    (carries : ev.activity? = some a) :
    (∃ r act, c.target = some r.raw.key ∧ p.getActivity r = some act ∧ act.Kept a) ∨
      ∃ act, .event (.stateActivating act) ∈ ds ∧ act.Kept a := by
  have told := outcome.event_menu there
  cases outcome with
  | stateRefused =>
    obtain rfl : ev = _ := by simpa using there
    cases carries
    exact .inr ⟨_, by simp, .refl _⟩
  | @stateEntered _ _ d _ _ _ at_'' act _ _ v _ r _ _ _ _ input isActivated launches =>
    have quiet : .event ev ∉ afterLaunch d act.objectRef v r := afterLaunch_command
    refine .inr ⟨act, by simp, ?_⟩
    rcases (by simpa [launches.command, quiet] using there : ev = _ ∨ ev = _) with
      rfl | rfl <;> cases carries
    · exact .refl _
    · obtain ⟨state, rfl⟩ := processInput_keeps input
      rw [isActivated]
      exact .updated at_''
  | stateCompleted found _ _ _ opens _ concludes emits =>
    have opened : Activity.Kept _ _ := .markCompleting opens
    obtain ⟨states, assign, r, assigns⟩ := concludes.assigns
    refine .inl ⟨_, _, rfl, found, ?_⟩
    rcases List.mem_cons.mp there with first | there
    · cases first
      cases carries
      exact opened
    rcases List.mem_append.mp there with assigned | ended
    · rw [assigns.no_activity assigned] at carries
      cases carries
    · exact opened.trans (emits.kept ended carries)
  | @stateCaught _ _ _ _ _ _ _ _ _ at_ _ found _ _ _ _ _ projects _ isCaught =>
    obtain ⟨r, assigns⟩ := projects.assigns
    refine .inl ⟨_, _, rfl, found, ?_⟩
    simp only [List.mem_append, List.mem_cons, Deed.event.injEq, List.mem_map, reduceCtorEq,
      and_false, exists_false, List.not_mem_nil, or_false] at there
    rcases there with assigned | rfl | rfl
    · rw [assigns.no_activity assigned] at carries
      cases carries
    · cases carries
      rw [isCaught]
      exact .updated at_
    · cases carries
  | catchFailed _ _ _ _ _ _ projects =>
    obtain ⟨r, assigns⟩ := projects.assigns
    rcases List.mem_append.mp there with assigned | failed
    · rw [assigns.no_activity assigned] at carries
      cases carries
    · simp at failed
  | stateTerminated found _ _ _ _ opens terminates =>
    have opened : Activity.Kept _ _ := .markTerminating opens
    refine .inl ⟨_, _, rfl, found, ?_⟩
    rcases List.mem_cons.mp there with first | there
    · cases first
      cases carries
      exact opened
    · exact opened.trans (terminates.kept there carries)
  | activityConcluded kind found _ _ _ _ _ concludes emits =>
    obtain ⟨states, assign, r, assigns⟩ := concludes.assigns
    refine .inl ⟨_, _, by rw [RawObjectRef.typed_raw kind]; rfl, found, ?_⟩
    rcases List.mem_append.mp there with assigned | ended
    · rw [assigns.no_activity assigned] at carries
      cases carries
    · exact emits.kept ended carries
  | activityClosedTerminated kind found _ _ _ _ _ terminates =>
    exact .inl ⟨_, _, by rw [RawObjectRef.typed_raw kind]; rfl, found,
      terminates.kept there carries⟩
  | activitySwept | threadSweptAgain | executionSweptAgain => simp at there
  | threadClosedCompleted | executionClosedCompleted | threadClosedTerminated
  | executionClosedTerminated =>
    obtain rfl : ev = _ := by simpa using there
    cases carries
  | _ => cases ev <;> first | (cases told; done) | cases carries

/-- The activity an answer gives birth to gets the next name, and has not been retried. -/
theorem Outcome.newborn (outcome : Outcome env M p q c ds)
    (there : .event (.stateActivating act) ∈ ds) :
    (∃ b : PlainName, act.metadata.name = b.generatedFromKey p.nextGeneratedSeq) ∧
      act.retryState = none ∧ ∀ a, .event (.stateActivating a) ∈ ds → a = act := by
  have told := outcome.event_menu there
  have entered {d : State} {c : ActivateState} {uid : Ulid} {at_ : Timestamp}
      (isNew : act = enteredActivity d c uid p.nextGeneratedSeq at_) :
      (∃ b : PlainName, act.metadata.name = b.generatedFromKey p.nextGeneratedSeq) ∧
        act.retryState = none := by
    subst isNew
    exact ⟨⟨c.execution.name.base, by cases d <;> rfl⟩, by cases d <;> rfl⟩
  cases outcome with
  | stateRefused _ _ _ isNew =>
    obtain rfl : act = _ := by simpa using there
    obtain ⟨named, unretried⟩ := entered isNew
    exact ⟨named, unretried, by simp⟩
  | stateEntered _ _ _ isNew _ _ launches =>
    obtain rfl : act = _ := by simpa [launches.command, afterLaunch_command] using there
    obtain ⟨named, unretried⟩ := entered isNew
    refine ⟨named, unretried, ?_⟩
    simp [launches.command, afterLaunch_command]
  | activitySwept | threadSweptAgain | executionSweptAgain => simp at there
  | _ => cases told

end values

/-! ## Rows that are kept -/

section rows

variable {env : Env} {M : Machines} {cause : Nat} {p q : Projection} {c : Command} {ds : List Deed}
  {es : List Entry} {ev : Event} {ts : Timestamp} {n : ObjectName} {act a base : Activity}

theorem Projection.lookup_putActivity (p : Projection) (b : Activity) :
    (p.putActivity b).activities.lookup n =
      if n = b.metadata.name then some b else p.activities.lookup n := by
  split
  · next same =>
      rw [same]
      exact AList.lookup_insert _
  · next other => exact AList.lookup_insert_ne other

theorem Projection.lookup_onActivity {r f}
    (named : ∀ row, p.getActivity r = some row → (f row).metadata.name = r.name) :
    (p.onActivity r f).activities.lookup n =
      if n = r.name then (p.activities.lookup n).map f else p.activities.lookup n := by
  have here (same : n = r.name) : p.activities.lookup n = p.getActivity r := by rw [same]; rfl
  cases found : p.getActivity r with
  | none =>
    rw [onActivity]
    simp only [found]
    split
    · next same => rw [here same, found]; rfl
    · rfl
  | some row =>
    rw [onActivity_some found, lookup_putActivity, named row found]
    split
    · next same => rw [here same, found]; rfl
    · rfl

/-- A new thread is recorded in its container, which changes nothing else of it. -/
theorem Projection.createThread_keeps (filed : p.Filed) (ts : Timestamp) (t : Thread)
    (found : p.activities.lookup n = some a) :
    ∃ a', (p.createThread ts t).activities.lookup n = some a' ∧ a'.status = a.status ∧
      a.Kept a' := by
  obtain ⟨scopes, k, equal⟩ := createThread_eq (p := p) ts t
  rw [equal]
  unfold recordFanOut
  split
  · exact ⟨a, found, rfl, .refl a⟩
  · next r _ =>
      split
      · next row here =>
          have here : p.activities.lookup r.name = some row := here
          split
          · next state _ =>
              rw [lookup_putActivity]
              split
              · next same =>
                  have named : row.metadata.name = r.name := filed.activities _ _ here
                  have same : n = r.name := Eq.trans same named
                  rw [same, here] at found
                  cases found
                  exact ⟨_, rfl, rfl, .updated ts⟩
              · exact ⟨a, found, rfl, .refl a⟩
          · exact ⟨a, found, rfl, .refl a⟩
      · exact ⟨a, found, rfl, .refl a⟩

/-- What an event leaves of the row of an activity: the value it brings or, if it brings none, the
    old one with its status, and with its retries unless it counts one. -/
theorem Event.activity_after (ts : Timestamp) (filed : p.Filed)
    (found : p.activities.lookup n = some a) :
    ∃ a', (ev.apply ts p).activities.lookup n = some a' ∧
      (ev.activity? = some a' ∧ a'.metadata.name = n ∨
        (∀ b, ev.activity? = some b → b.metadata.name ≠ n) ∧ a'.status = a.status ∧
          (ev.retries = false → a.Kept a')) := by
  by_cases touched : ev.Touches p (.activity n)
  · cases ev with
    | stateActivating b =>
      obtain rfl : n = b.metadata.name := by simpa [Event.Touches] using touched
      exact ⟨b, AList.lookup_insert _, .inl ⟨rfl, rfl⟩⟩
    | stateActivated b | stateCompleting b | stateTerminating b =>
      obtain rfl : n = b.metadata.name := by simpa [Event.Touches] using touched
      refine ⟨b, ?_, .inl ⟨rfl, rfl⟩⟩
      refine (Projection.lookup_onActivity fun _ _ => rfl).trans ?_
      rw [found]
      exact if_pos rfl
    | stateCompleted b | stateTerminated b =>
      obtain rfl : n = b.metadata.name := by simpa [Event.Touches] using touched
      refine ⟨b, ?_, .inl ⟨rfl, rfl⟩⟩
      have here : p.getActivity b.objectRef = some a := found
      simp only [Event.apply, Projection.settleActivity_some here]
      exact AList.lookup_insert _
    | taskCompleted _ t output =>
      obtain ⟨row, here, rfl⟩ : ∃ row, p.getTask t.objectRef = some row ∧
          n = row.metadata.owner.name := by simpa [Event.Touches] using touched
      refine ⟨{ a with rawOutput := some output, metadata := a.metadata.withUpdateAt ts }, ?_,
        .inr ⟨by rintro b ⟨⟩, rfl, fun _ => .updated ts⟩⟩
      simp only [Event.apply, Projection.completeTask, here]
      refine (Projection.lookup_onActivity fun b there => ?_).trans ?_
      · exact filed.activities _ b there
      · rw [if_pos rfl]
        exact congrArg (Option.map _) found
    | taskFailed t e =>
      obtain ⟨row, here, rfl⟩ : ∃ row, p.getTask t.objectRef = some row ∧
          n = row.metadata.owner.name := by simpa [Event.Touches] using touched
      simp only [Event.apply, Projection.failTask, here]
      by_cases pending : t.status = .pending
      · rw [if_pos pending]
        refine ⟨{ a with
            retryState := some { a.retryState.getD .default with
              attempts := t.retryState.attempts }
            metadata := a.metadata.withUpdateAt ts }, ?_,
          .inr ⟨by rintro b ⟨⟩, rfl, fun retries => ?_⟩⟩
        · refine (Projection.lookup_onActivity fun b there => ?_).trans ?_
          · exact filed.activities _ b there
          · rw [if_pos rfl]
            exact congrArg (Option.map _) found
        · simp [Event.retries, pending] at retries
      · rw [if_neg pending]
        exact ⟨a, found, .inr ⟨by rintro b ⟨⟩, rfl, fun _ => .refl a⟩⟩
    | threadCreated t =>
      obtain ⟨a', there, status, same⟩ := Projection.createThread_keeps filed ts t found
      exact ⟨a', there, .inr ⟨by rintro b ⟨⟩, status, fun _ => same⟩⟩
    | _ => simp [Event.Touches] at touched
  · have alike : p.Alike (ev.apply ts p) (.activity n) := ev.frame filed touched
    refine ⟨a, Eq.trans alike found, .inr ⟨fun b carries named => touched ?_, rfl, fun _ => .refl a⟩⟩
    subst named
    cases ev <;> cases carries <;> simp [Event.Touches]

/-- An event keeps the rows of the activities it brings no other value of. -/
theorem Event.keeps_activity (ts : Timestamp) (filed : p.Filed) (retries : ev.retries = false)
    (value : ∀ b, ev.activity? = some b → b.metadata.name = n → base.Kept b)
    (found : p.activities.lookup n = some a) (kept : base.Kept a) :
    ∃ a', (ev.apply ts p).activities.lookup n = some a' ∧ base.Kept a' := by
  obtain ⟨a', found', ⟨carries, named⟩ | ⟨-, -, same⟩⟩ := ev.activity_after ts filed found
  · exact ⟨a', found', value a' carries named⟩
  · exact ⟨a', found', kept.trans (same retries)⟩

/-- What holds of the status of an activity, and of every value it is given, holds at the end. -/
theorem Writes.keeps_status {P : Status → Prop} (writes : Writes cause p ds es q) (filed : p.Filed)
    (value : ∀ ev b, .event ev ∈ ds → ev.activity? = some b → b.metadata.name = n → P b.status)
    (found : p.activities.lookup n = some a) (holds : P a.status) :
    ∃ a', q.activities.lookup n = some a' ∧ P a'.status := by
  induction writes generalizing a with
  | nil => exact ⟨a, found, holds⟩
  | take _ ih =>
    exact ih { filed with } (fun ev b there => value ev b (List.mem_cons_of_mem _ there)) found
      holds
  | @event p q ds es ev ts _ _ ih =>
    obtain ⟨a', found', came⟩ := ev.activity_after ts filed found
    have holds' : P a'.status := by
      rcases came with ⟨carries, named⟩ | ⟨-, same, -⟩
      · exact value ev a' List.mem_cons_self carries named
      · exact same ▸ holds
    exact ih (ev.apply_filed filed ts)
      (fun ev b there => value ev b (List.mem_cons_of_mem _ there)) found' holds'
  | command _ _ ih | reject _ _ ih =>
    exact ih filed (fun ev b there => value ev b (List.mem_cons_of_mem _ there)) found holds

/-- What holds of every value an activity is given holds at the end, if it is given one. -/
theorem Writes.takes_status {P : Status → Prop} (writes : Writes cause p ds es q) (filed : p.Filed)
    (value : ∀ ev b, .event ev ∈ ds → ev.activity? = some b → b.metadata.name = n → P b.status)
    (found : p.activities.lookup n = some a) (there : .event ev ∈ ds)
    (carries : ev.activity? = some act) (named : act.metadata.name = n) :
    ∃ a', q.activities.lookup n = some a' ∧ P a'.status := by
  induction writes generalizing a with
  | nil => cases there
  | take _ ih =>
    exact ih { filed with } (fun ev b there => value ev b (List.mem_cons_of_mem _ there)) found
      (by simpa using there)
  | @event p q ds es ev' ts _ writes ih =>
    obtain ⟨a', found', came⟩ := ev'.activity_after ts filed found
    have filed' := ev'.apply_filed filed ts
    have value' ev b (there : .event ev ∈ ds) := value ev b (List.mem_cons_of_mem _ there)
    rcases List.mem_cons.mp there with first | later
    · cases first
      refine writes.keeps_status filed' value' found' ?_
      rcases came with ⟨carries', named'⟩ | ⟨other, -⟩
      · exact value ev a' List.mem_cons_self carries' named'
      · exact absurd named (other act carries)
    · exact ih filed' value' found' later
  | command _ _ ih | reject _ _ ih =>
    exact ih filed (fun ev b there => value ev b (List.mem_cons_of_mem _ there)) found
      (by simpa using there)

theorem Writes.keeps_activity (writes : Writes cause p ds es q) (filed : p.Filed)
    (retries : ∀ ev, .event ev ∈ ds → ev.retries = false)
    (value : ∀ ev b, .event ev ∈ ds → ev.activity? = some b → b.metadata.name = n → base.Kept b)
    (found : p.activities.lookup n = some a) (kept : base.Kept a) :
    ∃ a', q.activities.lookup n = some a' ∧ base.Kept a' := by
  induction writes generalizing a with
  | nil => exact ⟨a, found, kept⟩
  | take _ ih =>
    exact ih { filed with } (fun ev there => retries ev (List.mem_cons_of_mem _ there))
      (fun ev b there => value ev b (List.mem_cons_of_mem _ there)) found kept
  | @event p q ds es ev ts _ _ ih =>
    obtain ⟨a', found', kept'⟩ := ev.keeps_activity ts filed
      (retries ev List.mem_cons_self) (fun b => value ev b List.mem_cons_self) found kept
    exact ih (ev.apply_filed filed ts) (fun ev there => retries ev (List.mem_cons_of_mem _ there))
      (fun ev b there => value ev b (List.mem_cons_of_mem _ there)) found' kept'
  | command _ _ ih | reject _ _ ih =>
    exact ih filed (fun ev there => retries ev (List.mem_cons_of_mem _ there))
      (fun ev b there => value ev b (List.mem_cons_of_mem _ there)) found kept

/-- A newborn is there at the end, unless another value takes its place. -/
theorem Writes.bears_activity (writes : Writes cause p ds es q) (filed : p.Filed)
    (retries : ∀ ev, .event ev ∈ ds → ev.retries = false)
    (value : ∀ ev b, .event ev ∈ ds → ev.activity? = some b →
      b.metadata.name = act.metadata.name → act.Kept b)
    (there : .event (.stateActivating act) ∈ ds) :
    ∃ a', q.activities.lookup act.metadata.name = some a' ∧ act.Kept a' := by
  induction writes with
  | nil => cases there
  | take _ ih =>
    exact ih { filed with } (fun ev there => retries ev (List.mem_cons_of_mem _ there))
      (fun ev b there => value ev b (List.mem_cons_of_mem _ there)) (by simpa using there)
  | @event p q ds es ev ts _ writes ih =>
    have filed' := ev.apply_filed filed ts
    have retries' ev (there : .event ev ∈ ds) := retries ev (List.mem_cons_of_mem _ there)
    have value' ev b (there : .event ev ∈ ds) := value ev b (List.mem_cons_of_mem _ there)
    rcases List.mem_cons.mp there with first | later
    · cases first
      exact writes.keeps_activity filed' retries' value' (AList.lookup_insert _) (.refl act)
    · exact ih filed' retries' value' later
  | command _ _ ih | reject _ _ ih =>
    exact ih filed (fun ev there => retries ev (List.mem_cons_of_mem _ there))
      (fun ev b there => value ev b (List.mem_cons_of_mem _ there)) (by simpa using there)

theorem Outcome.newborn_unused (outcome : Outcome env M p q c ds) (family : p.Family)
    (there : .event (.stateActivating act) ∈ ds) :
    p.activities.lookup act.metadata.name = none := by
  obtain ⟨⟨b, named⟩, -⟩ := outcome.newborn there
  have unused := family.unused (by simp : ObjectKind.activity ≠ .execution) b le_rfl
  rw [named]
  exact Option.map_eq_none_iff.mp unused

/-- The value an answer brings for a name is kept from the row of that name, or from the birth. -/
theorem Outcome.value_of (outcome : Outcome env M p q c ds) (family : p.Family)
    (there : .event ev ∈ ds) (carries : ev.activity? = some a) :
    (∃ row, c.target = some (.activity, a.metadata.name) ∧
        p.activities.lookup a.metadata.name = some row ∧ row.Kept a) ∨
      ∃ act, .event (.stateActivating act) ∈ ds ∧ act.metadata.name = a.metadata.name ∧
        act.Kept a := by
  rcases outcome.activity_value there carries with ⟨r, row, target, found, kept⟩ | ⟨act, born, kept⟩
  · have found : p.activities.lookup r.name = some row := found
    have named : a.metadata.name = r.name := kept.name.trans (family.filed.activities _ _ found)
    refine .inl ⟨row, ?_, ?_, kept⟩
    · rw [named]
      exact target
    · rw [named]
      exact found
  · exact .inr ⟨act, born, kept.name.symm, kept⟩

/-- An answer that re-queues no task keeps all activities. -/
theorem Outcome.keeps_activity (outcome : Outcome env M p q c ds) (writes : Writes cause p ds es q)
    (family : p.Family) (retries : ∀ ev, .event ev ∈ ds → ev.retries = false)
    (found : p.activities.lookup n = some a) :
    ∃ a', q.activities.lookup n = some a' ∧ a.Kept a' := by
  refine writes.keeps_activity family.filed retries (fun ev b there carries named => ?_) found
    (.refl a)
  rcases outcome.value_of family there carries with ⟨row, -, here, kept⟩ | ⟨act, born, same, -⟩
  · rw [named, found] at here
    cases here
    exact kept
  · have unused := outcome.newborn_unused family born
    rw [same, named, found] at unused
    cases unused

/-- The newborn is there when the answer is written. -/
theorem Outcome.bears_activity (outcome : Outcome env M p q c ds)
    (writes : Writes cause p ds es q) (family : p.Family)
    (retries : ∀ ev, .event ev ∈ ds → ev.retries = false)
    (there : .event (.stateActivating act) ∈ ds) :
    ∃ a', q.activities.lookup act.metadata.name = some a' ∧ act.Kept a' := by
  refine writes.bears_activity family.filed retries (fun ev b within carries named => ?_) there
  have unused := outcome.newborn_unused family there
  rcases outcome.value_of family within carries with ⟨row, -, here, -⟩ | ⟨act', born, -, kept⟩
  · rw [named, unused] at here
    cases here
  · rw [(outcome.newborn there).2.2 act' born] at kept
    exact kept

end rows

end Spica
