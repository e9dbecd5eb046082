import Spica.Answers
import Spica.Frame
import Spica.Ledger
import Spica.Outcome.Shape

/-! # Names are created once

Flows and executions are created by the leader alone, which answers one command at a time from the
rows of the whole log. So however requests race, and however often a command is dispatched again
after a restart, a name is created once, and what it was created with stays.
-/

namespace Spica

open Log Scenario

variable {e : Execution} {cause : Nat} {ds : List Deed} {name : FlowName} {v : FlowVersion}
    {c : Command}

/-- The flow an entry creates. -/
def Entry.flowCreated? (e : Entry) : Option FlowName :=
  match e.payload with
  | .event (.flowCreated _ f) => f.metadata.name.asPlain
  | _ => none

/-- The execution an entry creates. -/
def Entry.executionCreated? (e : Entry) : Option ObjectName :=
  match e.payload with
  | .event (.executionCreated _ x) => some x.metadata.name
  | _ => none

def flowsCreated (log : List Entry) : List FlowName := log.filterMap Entry.flowCreated?

def executionsCreated (log : List Entry) : List ObjectName := log.filterMap Entry.executionCreated?

/-- What the life of an execution never changes about its row. -/
structure Execution.Bound (e e' : Execution) : Prop where
  same : e.Same e'
  input : e'.input = e.input
  deadline : e'.deadline = e.deadline

/-- No flow, no version and nothing an execution was created with is changed. -/
structure Projection.Keeps (p q : Projection) : Prop where
  flows : ∀ name f, p.getFlowByName name = some f → q.getFlowByName name = some f
  versions : ∀ r v, p.getFlowVersion r = some v → q.getFlowVersion r = some v
  executions : ∀ r e, p.getExecution r = some e → ∃ e', q.getExecution r = some e' ∧ e.Bound e'

/-- The version was submitted for the name with a request that the log shows to be accepted. -/
def Submitted (log : List Entry) (name : FlowName) (v : FlowVersion) : Prop :=
  ∃ k cause ts c, entryAt log k = some ⟨cause, ts, .command (.createFlow c)⟩ ∧ c.name = name ∧
    v.definition = c.definition ∧
    ∃ e ∈ log, e.causeId = some k ∧
      ∃ f, e.payload = .event (.flowCreated c.requestId f) ∧ f.metadata.name = .plain name

/-- The names are each there once, and all in the table. -/
structure Once {κ ν : Type} [DecidableEq κ] (names : List κ) (table : Table κ ν) : Prop where
  nodup : names.Nodup
  filed : ∀ k ∈ names, table.lookup k ≠ none

/-- What a log of creations leaves in the rows. -/
structure Registered (log : List Entry) (p : Projection) : Prop where
  filed : p.Filed
  flows : Once (flowsCreated log) p.flows
  executions : Once (executionsCreated log) p.executions
  /-- a version is there only with its flow -/
  versions : ∀ name, p.flowVersions.lookup (FlowVersion.versionName name 1) ≠ none →
    p.flows.lookup name ≠ none
  submitted : ∀ name f, p.flows.lookup name = some f → ∃ v,
    p.flowVersions.lookup (FlowVersion.versionName name f.latestVersion) = some v ∧
      Submitted log name v

/-- The name a create command asks for is taken. -/
def Command.Taken (p : Projection) : Command → Prop
  | .createFlow c => p.getFlowByName c.name ≠ none
  | .createExecution c => p.getExecution ⟨c.name, .nil⟩ ≠ none
  | _ => False

namespace Projection.Keeps

variable {p q r : Projection}

theorem refl (p : Projection) : p.Keeps p where
  flows _ _ found := found
  versions _ _ found := found
  executions _ e found := ⟨e, found, .refl e, rfl, rfl⟩

theorem trans (first : p.Keeps q) (second : q.Keeps r) : p.Keeps r where
  flows name f found := second.flows name f (first.flows name f found)
  versions x v found := second.versions x v (first.versions x v found)
  executions x e found := by
    obtain ⟨e', found', bound⟩ := first.executions x e found
    obtain ⟨e'', found'', bound'⟩ := second.executions x e' found'
    exact ⟨e'', found'', bound.same.trans bound'.same, bound'.input.trans bound.input,
      bound'.deadline.trans bound.deadline⟩

theorem of_content (same : p.content = q.content) : p.Keeps q := by
  obtain ⟨n, rfl⟩ := content_eq_iff.mp same
  exact { refl p with }

end Projection.Keeps

open Projection

variable {p q : Projection} {log es : List Entry} {ts : Timestamp}

theorem Projection.onExecution_bound (filed : p.Filed) {r s f}
    (bound : ∀ row : Execution, row.Bound (f row)) (found : p.getExecution s = some e) :
    ∃ e', (p.onExecution r f).getExecution s = some e' ∧ e.Bound e' := by
  have named (row : Execution) : (f row).metadata.name = row.metadata.name :=
    congrArg ObjectRef.name ((bound row).same.identity.objectRef .execution)
  by_cases same : s.name = r.name
  · have there : p.getExecution r = some e := by
      unfold getExecution at found ⊢
      rwa [← same]
    refine ⟨f e, ?_, bound e⟩
    rw [onExecution_some there, getExecution, same, ← filed.executions _ _ there, ← named]
    exact AList.lookup_insert _
  · refine ⟨e, ?_, .refl e, rfl, rfl⟩
    have alike : p.Alike (p.onExecution r f) (.execution s.name) :=
      alike_onExecution filed named fun other => same (Place.execution.inj other)
    exact Eq.trans alike found

/-- An event that creates nothing leaves the flows and their versions alone. -/
theorem Event.flows_alike (filed : p.Filed) (e : Event) (other : e.founds = false)
    (ts : Timestamp) :
    (∀ name, p.Alike (e.apply ts p) (.flow name)) ∧
      ∀ n, p.Alike (e.apply ts p) (.flowVersion n) := by
  constructor
  all_goals
    intro name
    refine e.frame filed fun touches => ?_
    cases e with
    | flowCreated | flowVersionCreated => cases other
    | _ => simp [Event.Touches] at touches

theorem Event.keeps (filed : p.Filed) (e : Event) (other : e.founds = false) :
    p.Keeps (e.apply ts p) := by
  obtain ⟨flows, versions⟩ := e.flows_alike filed other ts
  refine ⟨fun name f found => Eq.trans (flows name) found,
    fun r v found => Eq.trans (versions r.name) found, fun r row found => ?_⟩
  cases e with
  | flowCreated | flowVersionCreated | executionCreated => cases other
  | executionCompleting | executionCompleted | executionTerminating | executionTerminated =>
    exact onExecution_bound filed (fun row => ⟨⟨by simp, rfl⟩, rfl, rfl⟩) found
  | _ =>
    refine ⟨row, Eq.trans ?_ found, .refl row, rfl, rfl⟩
    exact Event.frame (c := .execution r.name) filed (by simp [Event.Touches])

/-- Nothing is created on the way from one projection to the other. -/
structure Projection.Continues (p q : Projection) : Prop where
  filed : q.Filed
  keeps : p.Keeps q
  flows : ∀ name, p.Alike q (.flow name)
  versions : ∀ n, p.Alike q (.flowVersion n)

theorem Projection.Filed.continues (filed : p.Filed) : p.Continues p :=
  ⟨filed, .refl p, fun _ => .refl p _, fun _ => .refl p _⟩

theorem Projection.Continues.trans {r} (first : p.Continues q) (second : q.Continues r) :
    p.Continues r where
  filed := second.filed
  keeps := first.keeps.trans second.keeps
  flows name := (first.flows name).trans (second.flows name)
  versions n := (first.versions n).trans (second.versions n)

theorem Writes.continues (writes : Writes cause p ds es q) (filed : p.Filed)
    (other : ∀ e, .event e ∈ ds → e.founds = false) : p.Continues q := by
  induction writes with
  | nil => exact filed.continues
  | @take p q ds es _ ih =>
    have first : p.Continues (p.putNextGeneratedSeq (p.nextGeneratedSeq + 1)) :=
      { filed.continues with keeps := .of_content rfl, filed := { filed with } }
    exact first.trans (ih first.filed fun e there => other e (List.mem_cons_of_mem _ there))
  | @event p q ds es e ts _ _ ih =>
    have creates := other e List.mem_cons_self
    obtain ⟨flows, versions⟩ := e.flows_alike filed creates ts
    have first : p.Continues (e.apply ts p) :=
      ⟨e.apply_filed filed ts, e.keeps filed creates, flows, versions⟩
    exact first.trans (ih first.filed fun e there => other e (List.mem_cons_of_mem _ there))
  | command _ _ ih | reject _ _ ih =>
    exact ih filed fun e there => other e (List.mem_cons_of_mem _ there)

/-- Deeds that create nothing show no creation in the log. -/
theorem Writes.creates_nothing (writes : Writes cause p ds es q)
    (other : ∀ e, .event e ∈ ds → e.founds = false) :
    flowsCreated es = [] ∧ executionsCreated es = [] := by
  induction writes with
  | nil => exact ⟨rfl, rfl⟩
  | take _ ih => exact ih fun e there => other e (List.mem_cons_of_mem _ there)
  | @event p q ds es e ts _ _ ih =>
    have creates := other e List.mem_cons_self
    obtain ⟨flows, executions⟩ := ih fun e there => other e (List.mem_cons_of_mem _ there)
    have none : Entry.flowCreated? ⟨some cause, ts, .event e⟩ = none ∧
        Entry.executionCreated? ⟨some cause, ts, .event e⟩ = none := by
      cases e <;> first | exact ⟨rfl, rfl⟩ | cases creates
    exact ⟨(List.filterMap_cons_none none.1).trans flows,
      (List.filterMap_cons_none none.2).trans executions⟩
  | command ts _ ih | reject ts _ ih =>
    exact ih fun e there => other e (List.mem_cons_of_mem _ there)

theorem Submitted.append (submitted : Submitted log name v) : Submitted (log ++ es) name v := by
  obtain ⟨k, cause, ts, c, entry, named, defined, e, there, rest⟩ := submitted
  exact ⟨k, cause, ts, c, by rw [entryAt_append (entryAt_eq_some entry).2, entry], named, defined, e,
    List.mem_append_left _ there, rest⟩

namespace Once

variable {κ ν : Type} [DecidableEq κ] {names : List κ} {table table' : Table κ ν} {k : κ}

theorem keeps (once : Once names table)
    (kept : ∀ k, table.lookup k ≠ none → table'.lookup k ≠ none) : Once names table' :=
  ⟨once.nodup, fun k there => kept k (once.filed k there)⟩

/-- One more name, which was not in the table. -/
theorem add (once : Once names table) (fresh : table.lookup k = none)
    (kept : ∀ k, table.lookup k ≠ none → table'.lookup k ≠ none) (there : table'.lookup k ≠ none) :
    Once (names ++ [k]) table' where
  nodup := by
    refine List.nodup_append.mpr ⟨once.nodup, List.nodup_singleton k, ?_⟩
    intro j old i new same
    rw [List.mem_singleton.mp new] at same
    exact once.filed j old (same ▸ fresh)
  filed j member := by
    rcases List.mem_append.mp member with old | new
    · exact kept j (once.filed j old)
    · rwa [List.mem_singleton.mp new]

end Once

theorem flowsCreated_append : flowsCreated (log ++ es) = flowsCreated log ++ flowsCreated es :=
  List.filterMap_append ..

theorem executionsCreated_append :
    executionsCreated (log ++ es) = executionsCreated log ++ executionsCreated es :=
  List.filterMap_append ..

theorem Projection.Keeps.execution_rows (keeps : p.Keeps q) (n : ObjectName)
    (there : p.executions.lookup n ≠ none) : q.executions.lookup n ≠ none := by
  obtain ⟨e, found⟩ := Option.ne_none_iff_exists'.mp there
  obtain ⟨e', found', -⟩ := keeps.executions ⟨n, .nil⟩ e found
  exact Option.ne_none_iff_exists'.mpr ⟨e', found'⟩

theorem Projection.Keeps.flow_rows (keeps : p.Keeps q) (name : FlowName)
    (there : p.flows.lookup name ≠ none) : q.flows.lookup name ≠ none := by
  obtain ⟨f, found⟩ := Option.ne_none_iff_exists'.mp there
  exact Option.ne_none_iff_exists'.mpr ⟨f, keeps.flows name f found⟩

/-- A flow and its version are filed. -/
def Projection.register (p : Projection) (name : FlowName) (f : Flow) (v : FlowVersion) :
    Projection :=
  { p with
    flows := p.flows.insert name f
    flowVersions := p.flowVersions.insert v.metadata.name v }

/-- What the two events of a new flow leave. -/
theorem created_flow_eq {id flowUid versionUid definition checksum at_ ts₁ ts₂} :
    Event.apply ts₂ (Event.apply ts₁ p (.flowCreated id (.new flowUid name at_)))
        (.flowVersionCreated id
          (.new versionUid ⟨.plain name, flowUid⟩ name 1 definition checksum at_)) =
      p.register name
        { Flow.new flowUid name at_ with
          metadata := (Flow.new flowUid name at_).metadata.withUpdateAt ts₂ }
        (.new versionUid ⟨.plain name, flowUid⟩ name 1 definition checksum at_) := by
  have filed : Event.apply ts₁ p (.flowCreated id (.new flowUid name at_)) =
      p.putFlow name (.new flowUid name at_) := rfl
  have found : (p.putFlow name (.new flowUid name at_)).getFlowByName name =
      some (.new flowUid name at_) := AList.lookup_insert _
  rw [filed]
  simp only [Event.apply, createFlowVersion, FlowVersion.flowName, FlowVersion.new,
    ObjectMeta.build, ObjectName.asPlain, flowOf, found, Option.getD_some]
  simp only [register, fileFlow, Flow.new, ObjectMeta.build, ObjectMeta.withUpdateAt,
    ObjectName.asPlain, putFlow, putFlowVersion, AList.insert_insert]

namespace Registered

theorem empty : Registered [] .empty where
  filed := empty_filed
  flows := ⟨.nil, by simp [flowsCreated]⟩
  executions := ⟨.nil, by simp [executionsCreated]⟩
  versions _ there := absurd rfl there
  submitted _ _ found := by cases found

theorem content (registered : Registered log p) (same : p.content = q.content) :
    Registered log q := by
  obtain ⟨n, rfl⟩ := content_eq_iff.mp same
  exact { registered with filed := { registered.filed with } }

/-- Entries and rows that create nothing. -/
theorem continues (registered : Registered log p) (continues : p.Continues q)
    (none : flowsCreated es = [] ∧ executionsCreated es = []) : Registered (log ++ es) q where
  filed := continues.filed
  flows := by
    rw [flowsCreated_append, none.1, List.append_nil]
    exact registered.flows.keeps continues.keeps.flow_rows
  executions := by
    rw [executionsCreated_append, none.2, List.append_nil]
    exact registered.executions.keeps continues.keeps.execution_rows
  versions name there := by
    rw [show q.flowVersions.lookup _ = p.flowVersions.lookup _ from continues.versions _] at there
    exact continues.keeps.flow_rows name (registered.versions name there)
  submitted name f found := by
    rw [show q.flows.lookup name = p.flows.lookup name from continues.flows name] at found
    obtain ⟨v, there, submitted⟩ := registered.submitted name f found
    exact ⟨v, Eq.trans (continues.versions _) there, submitted.append⟩

/-- A flow is created under a name that is not taken. -/
theorem flow {f} (registered : Registered log p) (unused : p.flows.lookup name = none)
    (first : f.latestVersion = 1) (version : v.metadata.name = FlowVersion.versionName name 1)
    (flows : flowsCreated es = [name]) (executions : executionsCreated es = [])
    (submitted : Submitted (log ++ es) name v) :
    Registered (log ++ es) (p.register name f v) ∧ p.Keeps (p.register name f v) := by
  have fresh : p.flowVersions.lookup v.metadata.name = none := by
    by_contra there
    rw [version] at there
    exact registered.versions name there unused
  have keeps : p.Keeps (p.register name f v) := by
    refine ⟨fun other g found => ?_, fun r w found => ?_, fun r e found => ?_⟩
    · refine (AList.lookup_insert_ne ?_).trans found
      rintro rfl
      cases unused.symm.trans found
    · refine (AList.lookup_insert_ne fun same => ?_).trans found
      rw [getFlowVersion, same, fresh] at found
      cases found
    · exact ⟨e, found, .refl e, rfl, rfl⟩
  refine ⟨⟨{ registered.filed with }, ?_, ?_, fun other there => ?_, fun other g found => ?_⟩, keeps⟩
  · rw [flowsCreated_append, flows]
    refine registered.flows.add unused keeps.flow_rows ?_
    simp [register]
  · rw [executionsCreated_append, executions, List.append_nil]
    exact registered.executions
  · by_cases same : other = name
    · simp [register, same]
    · refine keeps.flow_rows other (registered.versions other ?_)
      refine fun none => there ((AList.lookup_insert_ne fun equal => same ?_).trans none)
      rw [version] at equal
      exact (ObjectName.generated.inj equal).1
  · by_cases same : other = name
    · subst same
      obtain rfl : f = g := Option.some.inj ((AList.lookup_insert _).symm.trans found)
      refine ⟨v, ?_, submitted⟩
      rw [first, ← version]
      exact AList.lookup_insert _
    · have old : p.flows.lookup other = some g := (AList.lookup_insert_ne same).symm.trans found
      obtain ⟨w, there, submitted⟩ := registered.submitted other g old
      exact ⟨w, keeps.versions ⟨_, .nil⟩ w there, submitted.append⟩

/-- An execution is created under a name that is not taken. -/
theorem execution (registered : Registered log p)
    (unused : p.executions.lookup e.metadata.name = none) (flows : flowsCreated es = [])
    (executions : executionsCreated es = [e.metadata.name]) :
    Registered (log ++ es) (p.putExecution e) ∧ p.Keeps (p.putExecution e) := by
  have keeps : p.Keeps (p.putExecution e) := by
    refine ⟨fun _ _ found => found, fun _ _ found => found, fun r row found => ?_⟩
    refine ⟨row, (AList.lookup_insert_ne fun same => ?_).trans found, .refl row, rfl, rfl⟩
    have found : p.executions.lookup r.name = some row := found
    rw [same, unused] at found
    cases found
  refine ⟨⟨registered.filed.putExecution e, ?_, ?_, registered.versions, ?_⟩, keeps⟩
  · rw [flowsCreated_append, flows, List.append_nil]
    exact registered.flows
  · rw [executionsCreated_append, executions]
    refine registered.executions.add unused keeps.execution_rows ?_
    simp [putExecution]
  · intro name f found
    obtain ⟨v, there, submitted⟩ := registered.submitted name f found
    exact ⟨v, there, submitted.append⟩

/-- An answer keeps the registry in order, and leaves what is in it alone. -/
theorem answer {env M n cause} (registered : Registered log p) (noopAt : Timestamp)
    (entry : entryAt log n = some ⟨cause, ts, .command c⟩) (answers : Answer env M n c p es q) :
    Registered (log ++ (es ++ [⟨some n, noopAt, .noop⟩])) q ∧ p.Keeps q := by
  have closing (es : List Entry) : flowsCreated (es ++ [⟨some n, noopAt, .noop⟩]) = flowsCreated es ∧
      executionsCreated (es ++ [⟨some n, noopAt, .noop⟩]) = executionsCreated es := by
    rw [flowsCreated_append, executionsCreated_append]
    exact ⟨List.append_nil _, List.append_nil _⟩
  have quiet (none : flowsCreated es = [] ∧ executionsCreated es = []) (continues : p.Continues q) :
      Registered (log ++ (es ++ [⟨some n, noopAt, .noop⟩])) q ∧ p.Keeps q := by
    refine ⟨registered.continues continues ?_, continues.keeps⟩
    rw [(closing es).1, (closing es).2]
    exact none
  rcases answers with ⟨outcome, writes⟩ | ⟨ts, r⟩
  · by_cases founding : c.founds = true
    · cases outcome with
      | flowKnown =>
        cases writes with
        | reject ts rest =>
          cases rest
          exact quiet ⟨rfl, rfl⟩ registered.filed.continues
      | @flowCreated c machine flowUid versionUid at_ parsed unused =>
        cases writes with
        | event ts₁ _ rest =>
          cases rest with
          | event ts₂ _ rest =>
            cases rest
            rw [created_flow_eq]
            refine registered.flow unused rfl rfl rfl rfl ?_
            refine ⟨n, cause, ts, c, ?_, rfl, rfl, _, List.mem_append_right _ List.mem_cons_self,
              rfl, _, rfl, rfl⟩
            rw [entryAt_append (entryAt_eq_some entry).2, entry]
      | @executionCreated c machine uid rootUid deadline at_ at_' root unused bound due isRoot =>
        cases writes with
        | @event _ _ _ es _ ts' _ rest =>
          let created := ExecutionElement.createdExecution c uid deadline at_
          let founding : Entry := ⟨some n, ts', .event (.executionCreated c.requestId created)⟩
          have first : Registered (log ++ [founding]) (p.putExecution created) ∧
              p.Keeps (p.putExecution created) := registered.execution unused rfl rfl
          have other (e : Event) (there : .event e ∈ [Deed.take, .event (.threadCreated root),
              .command (.activateState ⟨⟨c.name, uid⟩, root.objectRef,
                StatePath.root.state machine.startAt, c.input⟩)]) : e.founds = false := by
            obtain rfl : e = .threadCreated root := by simpa using there
            rfl
          have continues := rest.continues first.1.filed other
          refine ⟨?_, first.2.trans continues.keeps⟩
          have all : Registered (log ++ [founding] ++ (es ++ [⟨some n, noopAt, .noop⟩])) q := by
            refine first.1.continues continues ?_
            rw [(closing es).1, (closing es).2]
            exact rest.creates_nothing other
          simpa using all
      | activitySwept _ _ phase | threadSweptAgain _ _ phase =>
        rcases phase with ⟨rfl, -⟩ | ⟨rfl, -⟩ <;> cases founding
      | _ => cases founding
    · have other := fun e there => outcome.founds (Bool.not_eq_true _ ▸ founding) (e := e) there
      exact quiet (writes.creates_nothing other) (writes.continues registered.filed other)
  · exact quiet ⟨rfl, rfl⟩ registered.filed.continues

end Registered

/-! ## The whole system -/

section annals

variable {env : Env} {M : Machines} {n m : Nat}

theorem Annals.registered (annals : Annals (Answer env M) log p) : Registered log p := by
  induction annals with
  | empty => exact .empty
  | client at_ noopAt _ _ ih => exact ih.continues ih.filed.continues ⟨rfl, rfl⟩
  | answer noopAt _ entry same answers ih => exact ((ih.content same).answer noopAt entry answers).1

/-- What is in the registry at the end of a batch stays in it. -/
theorem Annals.keeps (annals : Annals (Answer env M) log p) (ends : Boundary log n)
    (fold : FoldsTo log n q) : q.Keeps p := by
  have sound := Answer.sound env M
  induction annals generalizing n q with
  | empty => exact .of_content (Mirrors.unique (by simpa [FoldsTo] using fold) (.quiet (by simp) rfl))
  | @client log p c at_ noopAt past client ih =>
    have ends : Boundary (log ++ ([⟨none, at_, .command c⟩] ++ [⟨none, noopAt, .noop⟩])) n := ends
    rcases ends.split (by simp [Entry.isNoop]) with ⟨old, inside⟩ | rfl
    · exact ih old ((FoldsTo.append inside).mp fold)
    · have whole := (past.client at_ noopAt client).mirrors sound
      exact .of_content (Mirrors.unique (FoldsTo.whole.mp (by simpa using fold)) whole)
  | @answer log es p p' r m cause ts c noopAt past entry same answers ih =>
    rcases ends.split fun e there => (sound.answers answers e there).2 with ⟨old, inside⟩ | rfl
    · have before := (ih old ((FoldsTo.append inside).mp fold)).trans (.of_content same)
      exact before.trans ((past.registered.content same).answer noopAt entry answers).2
    · have whole := (past.answer noopAt entry same answers).mirrors sound
      exact .of_content (Mirrors.unique (FoldsTo.whole.mp (by simpa using fold)) whole)

/-- A reader that has moved on keeps what it had. -/
theorem Annals.keeps_between (annals : Annals (Answer env M) log p) {q'} (ends : Boundary log n)
    (fold : FoldsTo log n q) (ends' : Boundary log m) (fold' : FoldsTo log m q') (order : n ≤ m) :
    q.Keeps q' := by
  have inside := ends'.le
  obtain ⟨r, past, same⟩ := annals.of_fold (Answer.sound env M) ends' fold'
  have short : n ≤ (log.take m).length := by simp; omega
  have cut : log.take m ++ log.drop m = log := List.take_append_drop m log
  have ends : Boundary (log.take m) n := by
    rcases ends with rfl | ⟨e, found, noop⟩
    · exact .inl rfl
    · rw [← cut, entryAt_append short] at found
      exact .inr ⟨e, found, noop⟩
  rw [← cut, FoldsTo.append short] at fold
  exact (past.keeps ends fold).trans (.of_content same)

end annals

/-- What the creations in the log of a state guarantee. -/
structure World.CreatedOnce (env : Env) (w : World) : Prop where
  flows : (flowsCreated w.log).Nodup
  executions : (executionsCreated w.log).Nodup
  /-- every later state, of the leader and of the follower, keeps what was created -/
  kept : ∀ w', Runs env w w' → w.storage.rows.Keeps w'.storage.rows ∧
    w.follower.storage.rows.Keeps w'.follower.storage.rows
  /-- a create command for a name that is taken changes nothing at all -/
  taken : ∀ {next leader cause ts c d produced definitions}, w.proc = .running next leader →
    entryAt w.log next = some ⟨cause, ts, .command c⟩ → c.Taken w.storage.rows → d.FaultFree →
    processCommand env next c w.storage.rows leader.definitions d = (some produced, definitions) →
    produced.rows = w.storage.rows ∧ ∀ e ∈ produced.entries, e.event? = none
  /-- the latest version of a flow is the one its accepted request submitted -/
  submitted : ∀ rows, rows = w.storage.rows ∨ rows = w.follower.storage.rows →
    ∀ name f, rows.getFlowByName name = some f → ∃ v,
      rows.getFlowVersion ⟨FlowVersion.versionName name f.latestVersion, .nil⟩ = some v ∧
        Submitted w.log name v

namespace World

variable {env : Env} {w w' : World}

theorem annals (run : Runs env init w) : ∃ p, Annals (Answer env fun _ _ => True) w.log p :=
  Annals.of_run (Answer.sound env _) (fun _ _ ff => ff.spared)
    (fun _ ff _ _ decided => processCommand_answer ff decided) run

/-- Neither reader moves its committed position back. -/
theorem readers_mono {w₀} (start : Runs env init w₀) (run : Runs env w₀ w) :
    w₀.storage.lastProcessedPosition ≤ w.storage.lastProcessedPosition ∧
      w₀.follower.storage.lastProcessedPosition ≤ w.follower.storage.lastProcessedPosition ∧
      ∃ es, w.log = w₀.log ++ es := by
  induction run with
  | refl => exact ⟨le_rfl, le_rfl, [], (List.append_nil _).symm⟩
  | @tail w w' run move ih =>
    obtain ⟨a, ff, moved⟩ := move
    obtain ⟨leader, follower, es, grown⟩ := ih
    have placed := Placed.reach (Relation.ReflTransGen.trans start run)
    obtain ⟨fs, longer⟩ := log_grows moved
    refine ⟨leader.trans (committed_mono placed moved), follower.trans ?_, es ++ fs,
      by rw [longer, grown, List.append_assoc]⟩
    cases step_inv moved with
    | follow entry replayed => exact placed.follower.committed_mono replayed
    | _ => exact le_rfl

/-- An answer to a create command for a name that is taken. -/
theorem Answer.taken {M n p q es} (answers : Answer env M n c p es q) (taken : c.Taken p) :
    q = p ∧ ∀ e ∈ es, e.event? = none := by
  rcases answers with ⟨outcome, writes⟩ | ⟨ts, r⟩
  · cases outcome with
    | flowKnown =>
      cases writes with
      | reject ts rest =>
        cases rest
        exact ⟨rfl, by simp [Entry.event?]⟩
    | flowCreated parsed unused => exact absurd unused taken
    | executionCreated unused => exact absurd unused taken
    | activitySwept _ _ phase | threadSweptAgain _ _ phase =>
      rcases phase with ⟨rfl, -⟩ | ⟨rfl, -⟩ <;> exact taken.elim
    | _ => exact taken.elim
  · exact ⟨rfl, by simp [Entry.event?]⟩

/-- Every name is created once, whatever requests race and whenever the leader restarts. -/
theorem names_created_once (run : Runs env init w) : w.CreatedOnce env := by
  obtain ⟨p, annals⟩ := annals run
  have registered := annals.registered
  have faithful := Faithful.reach (Runs.spared run)
  have placed := faithful.placed
  refine ⟨registered.flows.nodup, registered.executions.nodup, fun w' later => ?_, ?_, ?_⟩
  · have run' : Runs env init w' := Relation.ReflTransGen.trans run later
    obtain ⟨p', annals'⟩ := World.annals run'
    have faithful' := Faithful.reach (Runs.spared run')
    obtain ⟨leader, follower, es, grown⟩ := readers_mono run later
    have committed := faithful.committed
    have replicated := faithful.follower.committed
    have boundary := placed.boundary
    have boundary' := placed.follower.boundary
    have committed : FoldsTo w'.log _ w.storage.rows :=
      grown ▸ (FoldsTo.append boundary.le).mpr committed
    have replicated : FoldsTo w'.log _ w.follower.storage.rows :=
      grown ▸ (FoldsTo.append boundary'.le).mpr replicated
    exact ⟨annals'.keeps_between (grown ▸ boundary.append) committed faithful'.placed.boundary
        faithful'.committed leader,
      annals'.keeps_between (grown ▸ boundary'.append) replicated
        faithful'.placed.follower.boundary faithful'.follower.committed follower⟩
  · intro next leader cause ts c d produced definitions _ _ taken ff decided
    exact Answer.taken (processCommand_answer ff decided) taken
  · have reader {n : Nat} {rows : Projection} (ends : Boundary w.log n) (fold : FoldsTo w.log n rows)
        (name : FlowName) (f : Flow) (found : rows.getFlowByName name = some f) : ∃ v,
        rows.getFlowVersion ⟨FlowVersion.versionName name f.latestVersion, .nil⟩ = some v ∧
          Submitted w.log name v := by
      obtain ⟨q, past, same⟩ := annals.of_fold (Answer.sound env _) ends fold
      obtain ⟨v, there, submitted⟩ := (past.registered.content same).submitted name f found
      have submitted : Submitted (w.log.take n ++ w.log.drop n) name v := submitted.append
      rw [List.take_append_drop] at submitted
      exact ⟨v, there, submitted⟩
    rintro rows (rfl | rfl)
    · exact reader placed.boundary faithful.committed
    · exact reader placed.follower.boundary faithful.follower.committed

/-- The same flow and the same execution are asked for twice, and the leader restarts. -/
def racing : List Action :=
  appends [createFlow, createFlow, createExecution exec, createExecution exec] ++ starts 8 ++
    leads 4 ++ [.stop] ++ starts 16 ++ leads 24

theorem names_created_once_racing :
    flowsCreated (after true (single pass) racing).log = [flow] ∧
      executionsCreated (after true (single pass) racing).log = [.plain exec] ∧
      (after true (single pass) racing).CreatedOnce (host true (single pass)) := by
  refine ⟨by decide +kernel, by decide +kernel, names_created_once (reach_after fun _ => ?_)⟩
  exact ((((appends_calm _).append (starts_calm _)).append (leads_calm _)).append
    (by simp [Calm, Action.FaultFree])).append (starts_calm _) |>.append (leads_calm _)

end World

end Spica
