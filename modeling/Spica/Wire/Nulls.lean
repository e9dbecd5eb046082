import Spica.Wire.Log

/-! # What is read back

A row or an entry is read back as itself, but for the optional fields that hold a JSON value: a null
in one of them is read as an absent field. Executions, threads and activities have such fields, and
so have the events that carry them.
-/

namespace Spica

/-! ## Optional values that are not null -/

def Execution.NullFree (e : Execution) : Prop := e.output ≠ some .null

def Thread.NullFree (t : Thread) : Prop := t.output ≠ some .null

def Activity.NullFree (a : Activity) : Prop :=
  a.input ≠ some .null ∧ a.rawOutput ≠ some .null ∧ a.output ≠ some .null

instance : DecidablePred Execution.NullFree := fun e =>
  inferInstanceAs (Decidable (e.output ≠ some .null))

instance : DecidablePred Thread.NullFree := fun t =>
  inferInstanceAs (Decidable (t.output ≠ some .null))

instance : DecidablePred Activity.NullFree := fun a =>
  inferInstanceAs (Decidable (a.input ≠ some .null ∧ a.rawOutput ≠ some .null ∧ a.output ≠ some .null))

def Event.NullFree : Event → Prop
  | .executionCreated _ e | .executionCompleting e | .executionCompleted e
  | .executionTerminating e | .executionTerminated e => e.NullFree
  | .threadCreated t | .threadCompleting t | .threadCompleted t | .threadTerminating t
  | .threadTerminated t => t.NullFree
  | .stateActivating a | .stateActivated a | .stateCompleting a | .stateCompleted a
  | .stateTerminating a | .stateTerminated a => a.NullFree
  | .flowCreated _ _ | .flowVersionCreated _ _ | .variablesAssigned _ _ | .stateTransitioned _ _
  | .taskActivated _ | .tasksClaimed _ _ | .taskCompleted _ _ _ | .taskFailed _ _
  | .taskCancelled _ => True

instance : DecidablePred Event.NullFree := fun e => by
  cases e <;> unfold Event.NullFree <;> infer_instance

def EntryPayload.NullFree : EntryPayload → Prop
  | .event e => e.NullFree
  | .command _ | .reject _ | .noop => True

instance : DecidablePred EntryPayload.NullFree := fun p => by
  cases p <;> unfold EntryPayload.NullFree <;> infer_instance

namespace Wire

open Serde

/-! ## Rows -/

theorem read_write_iff {α : Type} (c : Codec α) {a} (valid : c.Valid a) :
    c.read (c.write a) = .ok a ↔ c.back a = a := by
  rw [c.law a valid, Except.ok.injEq]

theorem backOption_json (v : Option Json) : Codec.backOption Codec.json v = v ↔ v ≠ some .null := by
  cases v with
  | none => simp [Codec.backOption]
  | some v =>
    have kept : Codec.backOption Codec.json (some v) = if v = .null then none else some v := rfl
    rw [kept]
    split
    next null => simp [null]
    next other => simp [other]

theorem newtype_back_iff {α β : Type} (tag : String) (c : Codec α) {mk : α → β} (a : α)
    (inj : Function.Injective mk) : (Variant.newtype tag c mk a).back = mk a ↔ c.back a = a :=
  ⟨fun same => inj same, fun same => congrArg mk same⟩

variable [Texts]

theorem execution_back (e : Execution) :
    execution.back e = { e with output := Codec.backOption Codec.json e.output } := by
  show Execution.mk (executionMeta.back e.metadata) ((objectRef .flowVersion).back e.flowVersion)
    (status.back e.status) (Codec.backOption timestamp e.deadline) e.input
    (Codec.backOption Codec.json e.output) = _
  rw [Codec.Exact.back_eq, Codec.Exact.back_eq, Codec.Exact.back_eq, Codec.backOption_exact]

theorem execution_back_iff (e : Execution) : execution.back e = e ↔ e.NullFree := by
  rw [execution_back, Execution.NullFree, ← backOption_json]
  cases e
  simp

theorem thread_back (t : Thread) :
    thread.back t = { t with output := Codec.backOption Codec.json t.output } := by
  show Thread.mk (threadMeta.back t.metadata) ((objectRef .execution).back t.execution)
    (statePath.back t.statePath) t.startAt t.index (status.back t.status) t.input
    (Codec.backOption Codec.json t.output) = _
  rw [Codec.Exact.back_eq, Codec.Exact.back_eq, Codec.Exact.back_eq, Codec.Exact.back_eq]

theorem thread_back_iff (t : Thread) : thread.back t = t ↔ t.NullFree := by
  rw [thread_back, Thread.NullFree, ← backOption_json]
  cases t
  simp

theorem activity_back (a : Activity) :
    activity.back a = { a with
      input := Codec.backOption Codec.json a.input
      rawOutput := Codec.backOption Codec.json a.rawOutput
      output := Codec.backOption Codec.json a.output } := by
  show Activity.mk (activityMeta.back a.metadata) ((objectRef .execution).back a.execution)
    (statePath.back a.statePath) (status.back a.status) a.rawInput
    (Codec.backOption Codec.json a.input) (Codec.backOption Codec.json a.rawOutput)
    (Codec.backOption Wire.activityState a.activityState)
    (Codec.backOption Wire.retryState a.retryState) (Codec.backOption Codec.json a.output) = _
  rw [Codec.Exact.back_eq, Codec.Exact.back_eq, Codec.Exact.back_eq, Codec.Exact.back_eq,
    Codec.backOption_exact Wire.activityState, Codec.backOption_exact Wire.retryState]

theorem activity_back_iff (a : Activity) : activity.back a = a ↔ a.NullFree := by
  rw [activity_back, Activity.NullFree, ← backOption_json, ← backOption_json, ← backOption_json]
  cases a
  simp

/-! ## Events and entries -/

theorem executionCreated_back_iff (r : RequestId) (e : Execution) :
    executionCreated.back (r, e) = (r, e) ↔ e.NullFree := by
  rw [← execution_back_iff]
  show (requestId.back r, execution.back e) = (r, e) ↔ _
  rw [Codec.Exact.back_eq, Prod.mk.injEq]
  exact ⟨And.right, fun same => ⟨rfl, same⟩⟩

theorem event_back_iff (e : Event) : event.back e = e ↔ e.NullFree := by
  show (eventVariant e).back = e ↔ _
  cases e with
  | executionCreated r e =>
    rw [Event.NullFree, ← executionCreated_back_iff r e]
    refine newtype_back_iff "ExecutionCreated" executionCreated (r, e) fun s t same => ?_
    obtain ⟨first, second⟩ := Event.executionCreated.inj same
    exact Prod.ext first second
  | executionCompleting e | executionCompleted e | executionTerminating e | executionTerminated e =>
    rw [Event.NullFree, ← execution_back_iff e]
    exact newtype_back_iff _ (only "execution" execution) e fun s t same => by cases same; rfl
  | threadCreated t | threadCompleting t | threadCompleted t | threadTerminating t
  | threadTerminated t =>
    rw [Event.NullFree, ← thread_back_iff t]
    exact newtype_back_iff _ (only "thread" thread) t fun s t same => by cases same; rfl
  | stateActivating a | stateActivated a | stateCompleting a | stateCompleted a
  | stateTerminating a | stateTerminated a =>
    rw [Event.NullFree, ← activity_back_iff a]
    exact newtype_back_iff _ (only "activity" activity) a fun s t same => by cases same; rfl
  | _ => simp only [eventVariant, Variant.back_newtype, Event.NullFree]

theorem entryPayload_back_iff (p : EntryPayload) : entryPayload.back p = p ↔ p.NullFree := by
  show (entryPayloadVariant p).back = p ↔ _
  cases p with
  | event e =>
    rw [EntryPayload.NullFree, ← event_back_iff e]
    exact newtype_back_iff _ event e fun s t same => by cases same; rfl
  | _ =>
    simp only [entryPayloadVariant, Variant.back_newtype, Variant.back_unit, EntryPayload.NullFree]

theorem entry_back (e : Streams.Entry EntryPayload) :
    entry.back e = { e with payload := entryPayload.back e.payload } := by
  show Streams.Entry.mk e.streamId e.entryId (Codec.backOption Codec.i64 e.causeId)
    (timestamp.back e.timestamp) (entryPayload.back e.payload) = _
  rw [Codec.Exact.back_eq, Codec.backOption_exact]

theorem entry_back_iff (e : Streams.Entry EntryPayload) :
    entry.back e = e ↔ e.payload.NullFree := by
  rw [entry_back, ← entryPayload_back_iff]
  cases e
  simp

end Wire

end Spica
