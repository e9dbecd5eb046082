import Spica.Follow
import Spica.Scenario

/-! # Executions do not interfere

Without a stop the rows are a family in every state, and every command that waits can be answered
within it. What a command addressed to one execution's tree changes and what it leaves behind is
then in that tree.
-/

namespace Spica

open Log Projection

variable {name : ObjectName} {cs : List Command} {e : Event} {m : Kin.Member RawObjectRef}
  {log : List Entry} {l : Ledger}

/-! ## Along a ledger -/

/-- The rows are a family, the waiting commands name owners that are there, and no two of them ask
    for the same task. -/
structure Ledger.Kindred (l : Ledger) : Prop where
  family : l.rows.Family
  founded : ∀ c ∈ l.queue, c.Founded l.rows.kin l.rows.nextGeneratedSeq
  once : (l.queue.filterMap Command.activates).Nodup
  fresh : ∀ name ∈ l.queue.filterMap Command.activates, l.rows.kin (.task, name) = none

theorem Projection.empty_family : Projection.empty.Family where
  sound := by
    have none : Projection.empty.kin = fun _ => Option.none := by
      funext ⟨kind, name⟩
      cases kind <;> rfl
    rw [none]
    exact Kin.empty_sound
  edges := by rintro parent child ⟨⟩
  bounded := by
    rintro ⟨kind, name⟩ m found
    cases kind <;> cases found

section ledger

variable {env : Env} {M : Machines} {n cause : Nat} {c : Command} {p q : Projection}
  {seq next : Nat} {κ : Census} {R : ObjectKind × ObjectName → Prop}

/-- The name of a task that is asked for is below the counter. -/
theorem Command.Founded.below (founded : c.Founded κ next) (asks : c.activates = some name) :
    name.Below next := by
  cases c with
  | activateTask t =>
    cases asks
    exact founded.2.1
  | _ => cases asks

theorem Command.founded_of_client (client : c.isClient = true) : c.Founded κ next := by
  cases c <;> first | exact trivial | cases client

theorem Command.activates_of_client (client : c.isClient = true) : c.activates = none := by
  cases c <;> first | rfl | cases client

theorem FollowUps.founded (follow : FollowUps κ R True seq next cs) :
    ∀ c ∈ cs, c.Founded κ next := by
  intro c there
  rcases follow with stays | ⟨t, rest, rfl, asked, stays⟩
  · exact (stays c there).founded trivial _
  · rcases List.mem_cons.mp there with rfl | later
    · exact asked.founded
    · exact (stays c later).founded trivial _

/-- At most one task is asked for, under the name minted for it. -/
theorem FollowUps.activates (follow : FollowUps κ R True seq next cs) :
    cs.filterMap Command.activates = [] ∨
      ∃ b : PlainName, cs.filterMap Command.activates = [b.generatedFromKey seq] := by
  have none {cs : List Command} (stays : ∀ c ∈ cs, c.Stays κ R True) :
      cs.filterMap Command.activates = [] :=
    List.filterMap_eq_nil_iff.mpr fun c there => (stays c there).other
  rcases follow with stays | ⟨t, rest, rfl, asked, stays⟩
  · exact .inl (none stays)
  · obtain ⟨b, name⟩ := asked.minted
    refine .inr ⟨b, ?_⟩
    have asks : (Command.activateTask t).activates = some t.task.name := rfl
    rw [List.filterMap_cons_some asks, none stays, name]

theorem Event.About.birth (about : e.About m) : e.birth = none := by
  cases about with
  | value carries => cases e <;> first | rfl | cases carries
  | moved | assigned => rfl

/-- A task is born by the command that asked for it. -/
theorem Outcome.task_birth (outcome : Outcome env M p q c ds) (there : .event e ∈ ds)
    (birth : e.birth = some ((.task, name), m)) : c.activates = some name := by
  have old (bears : c.bears = false) (k) (target : c.target = some k) :
      c.activates = some name := by
    obtain ⟨m', -, about⟩ := outcome.about target bears
    rw [(about e there).birth] at birth
    cases birth
  cases outcome with
  | flowKnown => simp at there
  | flowCreated | executionCreated =>
    rcases (by simpa using there : e = _ ∨ e = _) with rfl | rfl <;> cases birth
  | tasksClaimed | threadSpawned | stateRefused =>
    obtain rfl : e = _ := by simpa using there
    cases birth
  | stateEntered _ _ _ _ _ _ launches =>
    rcases (by simpa [launches.command, afterLaunch_command] using there : e = _ ∨ e = _)
      with rfl | rfl <;> cases birth
  | taskActivated =>
    obtain rfl : e = _ := by simpa using there
    cases birth
    rfl
  | activitySwept _ _ phase => rcases phase with ⟨rfl, -⟩ | ⟨rfl, -⟩ <;> exact old rfl _ rfl
  | threadSweptAgain _ _ phase => rcases phase with ⟨rfl, -⟩ | ⟨rfl, -⟩ <;> exact old rfl _ rfl
  | _ => exact old rfl _ rfl

/-- Everything an answer guarantees, given in a family. -/
structure Confined (p q : Projection) (c : Command) (ds : List Deed) : Prop where
  fit : DeedsFit p.kin p.nextGeneratedSeq ds
  within : ∀ k, c.target = some k → DeedsWithin p.kin k ds
  follow : ∀ k, c.target = some k →
    FollowUps q.kin (q.kin.Kindred k) True (p.nextGeneratedSeq + 1) q.nextGeneratedSeq (deedCommands ds)

theorem Ledger.Kindred.confined (kindred : Kindred ⟨log, p, c :: rest⟩)
    (outcome : Outcome env M p q c ds) (writes : Writes cause p ds es q) : Confined p q c ds := by
  have founded := kindred.founded c List.mem_cons_self
  have fresh (name) (asks : c.activates = some name) : p.kin (.task, name) = none :=
    kindred.fresh name (List.mem_filterMap.mpr ⟨c, List.mem_cons_self, asks⟩)
  obtain ⟨fit, within⟩ := outcome.fits kindred.family founded fresh
  refine ⟨fit, within, fun k target => ?_⟩
  exact outcome.follow kindred.family fit (fun _ => founded) writes target
    (writes.family kindred.family fit).1.reaches_kindred

/-- Whatever is left behind names owners that are there, and asks for one task at most. -/
theorem Confined.queue (confined : Confined p q c ds) (outcome : Outcome env M p q c ds) :
    (∀ c' ∈ deedCommands ds, c'.Founded q.kin q.nextGeneratedSeq) ∧
      ((deedCommands ds).filterMap Command.activates = [] ∨ ∃ b : PlainName,
        (deedCommands ds).filterMap Command.activates =
          [b.generatedFromKey (p.nextGeneratedSeq + 1)]) := by
  cases target : c.target with
  | none =>
    rw [outcome.silent target]
    exact ⟨by simp, .inl rfl⟩
  | some k =>
    have follow := confined.follow k target
    exact ⟨follow.founded, follow.activates⟩

theorem Ledger.Kindred.outcome (kindred : Kindred ⟨log, p, c :: rest⟩)
    (outcome : Outcome env M p q c ds) (writes : Writes cause p ds es q) (log' : List Entry) :
    Kindred ⟨log', q, rest ++ commandsOf es⟩ := by
  have confined := kindred.confined outcome writes
  obtain ⟨family', grows⟩ := writes.family kindred.family confined.fit
  obtain ⟨founded, asks⟩ := confined.queue outcome
  have once : (rest.filterMap Command.activates).Nodup ∧
      ∀ name, c.activates = some name → name ∉ rest.filterMap Command.activates := by
    have once := kindred.once
    cases own : c.activates with
    | none =>
      rw [List.filterMap_cons_none own] at once
      exact ⟨once, by rintro name ⟨⟩⟩
    | some name =>
      rw [List.filterMap_cons_some own, List.nodup_cons] at once
      refine ⟨once.2, ?_⟩
      rintro _ ⟨⟩
      exact once.1
  have old (name) (waits : name ∈ rest.filterMap Command.activates) : p.kin (.task, name) = none := by
    obtain ⟨c', there, asks⟩ := List.mem_filterMap.mp waits
    exact kindred.fresh name (List.mem_filterMap.mpr ⟨c', List.mem_cons_of_mem _ there, asks⟩)
  -- the names that wait are below the counter, and the new one is not
  have below (name) (waits : name ∈ rest.filterMap Command.activates) :
      name.Below p.nextGeneratedSeq := by
    obtain ⟨c', there, asks⟩ := List.mem_filterMap.mp waits
    exact (kindred.founded c' (List.mem_cons_of_mem _ there)).below asks
  have minted (b : PlainName) : ¬(b.generatedFromKey (p.nextGeneratedSeq + 1)).Below
      p.nextGeneratedSeq := fun low =>
    ObjectName.generated_not_below b _ (low.mono (Nat.le_succ _))
  rw [writes.commands]
  refine ⟨family', fun c' there => ?_, ?_, fun name waits => ?_⟩
  · rcases List.mem_append.mp there with waiting | new
    · have earlier := kindred.founded c' (List.mem_cons_of_mem _ waiting)
      exact earlier.mono grows writes.counter_le
    · exact founded c' new
  · rw [List.filterMap_append]
    rcases asks with none | ⟨b, one⟩
    · rw [none, List.append_nil]
      exact once.1
    · rw [one]
      refine List.nodup_append.mpr ⟨once.1, List.nodup_singleton _, ?_⟩
      rintro name waits _ there rfl
      cases List.mem_singleton.mp there
      exact minted b (below _ waits)
  · cases found : q.kin (.task, name) with
    | none => rfl
    | some m =>
      have known := writes.born kindred.family confined.fit found
      rw [List.filterMap_append] at waits
      rcases List.mem_append.mp waits with waiting | new
      · rcases known with known | ⟨e, there, birth⟩
        · cases (old name waiting).symm.trans known
        · exact absurd waiting (once.2 name (outcome.task_birth there birth))
      · obtain ⟨b, rfl⟩ : ∃ b : PlainName, name = b.generatedFromKey (p.nextGeneratedSeq + 1) := by
          rcases asks with none | ⟨b, one⟩
          · rw [none] at new
            cases new
          · rw [one] at new
            exact ⟨b, List.mem_singleton.mp new⟩
        rcases known with known | ⟨e, there, birth⟩
        · cases (kindred.family.unused (by simp) b (Nat.le_succ _)).symm.trans known
        · have own := outcome.task_birth there birth
          exact absurd ((kindred.founded c List.mem_cons_self).below own) (minted b)

theorem Ledger.Kindred.step {l'} (kindred : l.Kindred) (step : Step (Answer env M) l l') :
    l'.Kindred := by
  cases step with
  | client _ _ client =>
    have asks := Command.activates_of_client client
    refine ⟨kindred.family, fun c there => ?_, ?_, ?_⟩
    · rcases List.mem_append.mp there with waiting | new
      · exact kindred.founded c waiting
      · cases List.mem_singleton.mp new
        exact Command.founded_of_client client
    · simp only [List.filterMap_append, List.filterMap_cons_none asks, List.filterMap_nil,
        List.append_nil]
      exact kindred.once
    · simp only [List.filterMap_append, List.filterMap_cons_none asks, List.filterMap_nil,
        List.append_nil]
      exact kindred.fresh
  | answer _ answers =>
    cases answers with
    | outcome outcome writes => exact kindred.outcome outcome writes _
    | refused =>
      simp only [commandsOf, Entry.command?, List.filterMap_cons, List.filterMap_nil,
        List.append_nil]
      refine ⟨kindred.family, fun c there => ?_, ?_, fun name waits => ?_⟩
      · exact kindred.founded c (List.mem_cons_of_mem _ there)
      · exact kindred.once.sublist ((List.sublist_cons_self _ _).filterMap _)
      · exact kindred.fresh name (((List.sublist_cons_self _ _).filterMap _).subset waits)

theorem Ledger.Reach.kindred (reach : Reach (Answer env M) l) : l.Kindred :=
  reach.keeps ⟨empty_family, by simp, by simp, by simp⟩ Kindred.step

/-- What an answer changes and what it leaves behind is in the tree its command was sent to. -/
theorem Ledger.Kindred.apart {x} (kindred : Kindred ⟨log, p, c :: rest⟩)
    (answers : Answer env M n c p es q) (target : c.target = some k) (root : p.kin.Root x k) :
    q.Family ∧ Kin.Grows p.kin q.kin ∧
      (∀ place : Place, ∀ j ∈ place.keys, ¬q.kin.Root x j → p.Alike q place) ∧
      ∀ c' ∈ commandsOf es, ∃ j, c'.target = some j ∧ q.kin.Root x j := by
  cases answers with
  | outcome outcome writes =>
    have confined := kindred.confined outcome writes
    obtain ⟨family', grows⟩ := writes.family kindred.family confined.fit
    refine ⟨family', grows, fun place j there other => ?_, fun c' left => ?_⟩
    · exact writes.apart kindred.family confined.fit (confined.within k target) root there other
    · rw [writes.commands] at left
      obtain ⟨j, goes, same⟩ := (confined.follow k target).target c' left
      exact ⟨j, goes, same x (root.grows grows)⟩
  | refused =>
    exact ⟨kindred.family, .refl, fun _ _ _ _ => .refl _ _, by simp [commandsOf, Entry.command?]⟩

end ledger

/-! ## In every run -/

/-- The chain of owners of the object ends at the execution. -/
def Projection.InTree (p : Projection) (execution : ObjectName) (k : ObjectKind × ObjectName) :
    Prop :=
  Kin.Rooted RawObjectRef.key p.kin k (.execution, execution)

/-- The execution a row names is there, and its chain of owners ends at it. -/
def Projection.BelongsTo (p : Projection) (r : RawObjectRef) (execution : ObjectRef .execution) :
    Prop :=
  (∃ e, p.getExecution execution = some e ∧ e.objectRef = execution) ∧ p.InTree execution.name r.key

/-- Every row names the execution at the root of its chain of owners, and all chains end. -/
structure Projection.Trees (p : Projection) : Prop where
  threads : ∀ r t, p.getThread r = some t → p.BelongsTo r.raw t.execution
  activities : ∀ r a, p.getActivity r = some a → p.BelongsTo r.raw a.execution
  tasks : ∀ r t, p.getTask r = some t → p.BelongsTo r.raw t.execution
  finite : WellFounded (Kin.Owns RawObjectRef.key p.kin)

section trees

variable {p : Projection} {k : ObjectKind × ObjectName} {x : ObjectName}

theorem Projection.Family.belongsTo (family : p.Family) {r execution}
    (found : p.kin r.key = some m) (root : m.root = execution.raw) : p.BelongsTo r execution := by
  have rooted := family.sound.rooted found
  obtain ⟨n, there, id⟩ := family.sound.root found
  rw [root] at rooted there id
  obtain ⟨e, known, rfl⟩ := Option.map_eq_some_iff.mp there
  exact ⟨⟨e, known, ObjectRef.raw_injective id⟩, rooted⟩

theorem Projection.Family.trees (family : p.Family) : p.Trees where
  threads _ _ found := family.belongsTo (kin_thread found) rfl
  activities _ _ found := family.belongsTo (kin_activity found) rfl
  tasks _ _ found := family.belongsTo (kin_task found) rfl
  finite := family.sound.wellFounded

theorem Projection.Family.inTree_iff (family : p.Family) :
    p.InTree x k ↔ p.kin.Root (.execution, x) k := family.sound.rooted_iff

end trees

namespace World

/-- What a state guarantees about the trees of its executions. -/
structure Separate (env : Env) (w : World) : Prop where
  trees : w.storage.rows.Trees
  /-- A command to the tree of `a` changes nothing of another tree, of what was in it before or is
      in it after, and all it leaves behind goes to the tree of `a`. -/
  apart : ∀ {next leader cause ts c d produced definitions}, w.proc = .running next leader →
    entryAt w.log next = some ⟨cause, ts, .command c⟩ → d.FaultFree →
    processCommand env next c w.storage.rows leader.definitions d = (some produced, definitions) →
    ∀ a b k last, a ≠ b → c.target = some k → w.storage.rows.InTree a k →
      (∀ place : Place, ∀ j ∈ place.keys, w.storage.rows.InTree b j ∨
          (w.storage.commit produced.rows last).rows.InTree b j →
        w.storage.rows.Alike (w.storage.commit produced.rows last).rows place) ∧
      ∀ c' ∈ commandsOf produced.entries, ∃ j, c'.target = some j ∧
        (w.storage.commit produced.rows last).rows.InTree a j

variable {env : Env} {w : World}

theorem executions_separate (run : Run.Reach (World.step env) (fun _ a => a.Steady) init w) :
    w.Separate env := by
  have kept : w.Kept (Answer env fun _ _ => True) :=
    Kept.of_run (Answer.sound env _) (fun _ _ steady => steady)
      (fun _ steady _ _ decided => processCommand_answer steady.1 decided) run
  constructor
  · obtain ⟨l, reach, rows, -⟩ := kept.stored
    rw [← rows]
    exact reach.kindred.family.trees
  · intro next leader cause ts c d produced definitions here entry ff decided a b k last other target
      inTree
    obtain ⟨⟨log, p, queue⟩, reach, same, shown⟩ := kept.current
    obtain rfl : log = w.log := same
    rw [here] at shown
    obtain ⟨rows, -, waiting⟩ := shown
    rw [commandsOf_drop entry] at waiting
    obtain rfl : p = w.storage.rows := rows
    obtain rfl : queue = _ := waiting
    have kindred := reach.kindred
    obtain ⟨family', grows, alike, follow⟩ := kindred.apart (processCommand_answer ff decided) target
      (kindred.family.inTree_iff.mp inTree)
    refine ⟨fun place j there elsewhere => ?_, fun c' left => ?_⟩
    · have committed : produced.rows.Alike (w.storage.commit produced.rows last).rows place :=
        alike_of_content rfl
      refine (alike place j there fun root => other ?_).trans committed
      have grown : produced.rows.kin.Root (.execution, b) j := elsewhere.elim
        (fun before => (kindred.family.inTree_iff.mp before).grows grows) family'.inTree_iff.mp
      cases root.unique grown
      rfl
    · obtain ⟨j, goes, root⟩ := follow c' left
      exact ⟨j, goes, family'.inTree_iff.mpr root⟩

open Scenario

/-- The object the command at the read position is sent to. -/
def addressed (w : World) : Option (ObjectKind × ObjectName) :=
  match w.proc with
  | .running next _ => ((entryAt w.log next).bind Entry.command?).bind Command.target
  | _ => none

/-- Two executions of one flow, stopped where the first state of the one is about to start. -/
def twoExecutions : List Action :=
  appends [createFlow, createExecution exec, createExecution second] ++ starts 6 ++ leads 8

theorem executions_separate_two :
    (after true (single pass) twoExecutions).addressed = some (.thread, .generated exec 0) ∧
      (after true (single pass) twoExecutions).storage.rows.getThread ⟨.generated second 1, .nil⟩ ≠
        none ∧
      (after true (single pass) twoExecutions).Separate (host true (single pass)) := by
  refine ⟨by decide +kernel, by decide +kernel, executions_separate (reach_after fun _ a there => ?_)⟩
  have calm : Calm twoExecutions := ((appends_calm _).append (starts_calm _)).append (leads_calm _)
  have noStop : .stop ∉ twoExecutions := by
    simp [twoExecutions, appends_no_stop, starts_no_stop, leads_no_stop]
  exact ⟨calm a there, fun stop => noStop (stop ▸ there)⟩

end World

end Spica
