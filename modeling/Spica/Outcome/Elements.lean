import Spica.Duty.Base
import Spica.Outcome.States

/-! # The answers of the elements -/

namespace Spica

open Handler

variable {env : Env} {M : Machines} {cause : Nat} {s t : Draft}
variable {β α : Type} {label : String} {activity : ObjectRef .activity} {act : Activity}
    {p : Projection} {r : RawObjectRef}

/-- What lies between the drafts is one of the answers to the command. -/
abbrev Draft.Answers (env : Env) (M : Machines) (cause : Nat) (c : Command) (s t : Draft) : Prop :=
  ∃ ds, Outcome env M s.rows t.rows c ds ∧ s.Writes cause ds t

/-! ## The definition of a state -/

/-- What a dispatch under way takes a version to stand for: what its cache holds and what it
    parses. -/
structure Draft.Coherent (env : Env) (M : Machines) (s : Draft) : Prop where
  cached : ∀ version machine, s.machines.lookup version = some machine → M version machine
  stored : ∀ version ver machine, s.rows.getFlowVersion version = some ver →
    env.parse ver.definition = .ok machine → M version machine

theorem Draft.Coherent.fold {e ts} (coherent : s.Coherent env M) (other : e.definesFlow = false) :
    (s.fold cause ts e).Coherent env M where
  cached := coherent.cached
  stored version ver machine found := by
    refine coherent.stored version ver machine ?_
    unfold Projection.getFlowVersion at found ⊢
    rwa [← e.apply_flowVersions other]

theorem machineOr_then {onFault} {version : ObjectRef .flowVersion} {f} {b : β}
    (coherent : s.Coherent env M)
    (gives : (machineOr onFault version >>= f).Runs (does env cause) s b t) :
    ∃ r machines, Draft.Coherent env M { s with machines := machines } ∧
      (∀ machine, r = .ok machine → M version machine) ∧
      (f r).Runs (does env cause) { s with machines := machines } b t := by
  obtain ⟨r, m, first, rest⟩ := Prog.runs_bind.mp gives
  unfold machineOr at first
  rw [cached_then] at first
  cases cached : s.machines.lookup version with
  | some machine =>
    rw [cached] at first
    obtain ⟨rfl, rfl⟩ := first
    refine ⟨_, m.machines, coherent, ?_, rest⟩
    rintro _ ⟨⟩
    exact coherent.cached version machine cached
  | none =>
    rw [cached] at first
    dsimp only at first
    rw [askFlowVersion_then] at first
    cases found : s.rows.getFlowVersion version with
    | none =>
      rw [found] at first
      obtain ⟨rfl, rfl⟩ := first
      exact ⟨_, m.machines, coherent, by rintro _ ⟨⟩, rest⟩
    | some ver =>
      simp only [found, platform_then] at first
      cases parsed : env.parse ver.definition with
      | error e =>
        rw [parsed] at first
        obtain ⟨rfl, rfl⟩ := first
        exact ⟨_, m.machines, coherent, by rintro _ ⟨⟩, rest⟩
      | ok machine =>
        rw [parsed] at first
        obtain ⟨rfl, rfl⟩ := cache_then.mp first
        have known : M version machine := coherent.stored version ver machine found parsed
        refine ⟨_, (s.remember version machine).machines, ⟨fun v m hit => ?_, coherent.stored⟩,
          ?_, rest⟩
        · dsimp only at hit
          by_cases same : v = version
          · subst same
            rw [Draft.remember, AList.lookup_insert] at hit
            cases hit
            exact known
          · rw [Draft.remember, AList.lookup_insert_ne same] at hit
            exact coherent.cached v m hit
        · rintro _ ⟨⟩
          exact known

theorem stateOfThread_then {subject} {thread : Thread} {path} {undefined : String → String} {f}
    {b : β} (coherent : s.Coherent env M)
    (gives : (stateOfThread label subject thread path undefined >>= f).Runs (does env cause) s b t)
    :
    ∃ d machines, Draft.Coherent env M { s with machines := machines } ∧ s.rows.Binds M thread path d ∧
      (f d).Runs (does env cause) { s with machines := machines } b t := by
  obtain ⟨d, m, resolved, rest⟩ := Prog.runs_bind.mp gives
  unfold stateOfThread machineForThread at resolved
  obtain ⟨r, m', found, first⟩ := Prog.runs_bind.mp resolved
  clear resolved
  rw [getExecution_then] at found
  rcases there : s.rows.getExecution thread.execution with _ | exec
  · rw [there] at found
    obtain ⟨rfl, rfl⟩ := found
    exact first.elim
  rw [there] at found
  have found : (machineOr storageFault exec.flowVersion >>= pure).Runs (does env cause) s r m' :=
    Prog.runs_bind.mpr ⟨r, m', found, rfl, rfl⟩
  obtain ⟨r', machines, coherent, version, rfl, rfl⟩ := machineOr_then coherent found
  cases r with
  | error e => exact first.elim
  | ok machine =>
    dsimp only at first
    split at first
    · next d' at_ =>
        obtain ⟨rfl, rfl⟩ := first
        exact ⟨d, machines, coherent, ⟨exec, machine, there, version machine rfl, at_⟩, rest⟩
    · exact first.elim

/-! ## An activity is told -/

theorem ne_nil_of_perm {a} {as bs : List α} (perm : (a :: as).Perm bs) : bs ≠ [] := by
  rintro rfl
  exact absurd (List.perm_nil.mp perm) (by simp)

theorem found_ok (v : Option α) : found (.ok v) = v := rfl

theorem scanBranches_then {f} {b : β} (refs : List (ObjectRef .thread))
    (gives : (scanBranches refs >>= f).Runs (does env cause) s b t) :
    (f (s.rows.branchScan refs)).Runs (does env cause) s b t := by
  obtain ⟨r, m, first, rest⟩ := Prog.runs_bind.mp gives
  obtain ⟨rfl, rfl⟩ : r = s.rows.branchScan refs ∧ m = s := by
    clear rest gives
    induction refs generalizing r m with
    | nil => exact first
    | cons ref refs ih =>
      unfold scanBranches at first
      unfold Projection.branchScan
      simp only [peekThread_then, found_ok] at first
      rcases there : s.rows.getThread ref with _ | child
      · rw [there] at first
        exact first
      simp only [there] at first ⊢
      cases settled : child.status.terminationReason with
      | some reason =>
        rw [settled] at first
        exact first
      | none =>
        simp only [settled] at first ⊢
        obtain ⟨r', m', scanned, first⟩ := Prog.runs_bind.mp first
        obtain ⟨rfl, rfl⟩ := ih _ _ scanned
        cases later : m'.rows.branchScan refs with
        | failed reason =>
          rw [later] at first
          exact first
        | all branches =>
          rw [later] at first
          exact first
  exact rest

theorem parallelChildCompleted_gives {child}
    (gives : (parallelChildCompleted activity act child).Runs (does env cause) s () t) :
    s.Sends cause (s.rows.parallelReaction activity act) t := by
  unfold parallelChildCompleted at gives
  simp only [peekActivity_then, found_ok] at gives
  unfold Projection.parallelReaction
  rcases there : s.rows.getActivity activity with _ | row
  · rw [there] at gives
    obtain ⟨-, rfl⟩ := gives
    exact .refl
  simp only [there, Option.bind_some] at gives ⊢
  rcases state : row.activityState with _ | st
  · rw [state] at gives
    obtain ⟨-, rfl⟩ := gives
    exact .refl
  rw [state] at gives
  cases st with
  | map | wait =>
    obtain ⟨-, rfl⟩ := gives
    exact .refl
  | parallel progress =>
    dsimp only at gives ⊢
    have gives := scanBranches_then _ gives
    rcases scanned : s.rows.branchScan (sortedByIndex progress.branches) with reason | branches
    · simp only [scanned, appendCommand_gives] at gives
      obtain ⟨ts, rfl⟩ := gives
      exact .one
    simp only [scanned, peekChildren_then] at gives
    obtain ⟨children, perm, gives⟩ := gives
    dsimp only
    cases children with
    | cons c rest =>
      rw [if_pos (ne_nil_of_perm perm)]
      obtain ⟨-, rfl⟩ := gives
      exact .refl
    | nil =>
      rw [if_neg (by simp [List.nil_perm.mp perm])]
      simp only [List.isEmpty_nil, Bool.not_true, Bool.false_eq_true, if_false] at gives
      split at gives
      · next terminal =>
          rw [if_pos terminal]
          obtain ⟨ts, rfl⟩ := appendCommand_gives.mp gives
          exact .one
      · next open_ =>
          rw [if_neg open_]
          obtain ⟨ts, rfl⟩ := appendCommand_gives.mp gives
          exact .one

theorem countSucceeded_gives {n} (refs : List (ObjectRef .thread))
    (gives : (countSucceeded refs).Runs (does env cause) s n t) :
    n = s.rows.succeededCount refs ∧ t = s := by
  induction refs generalizing n t with
  | nil => exact gives
  | cons ref refs ih =>
    unfold countSucceeded at gives
    simp only [peekThread_then, found_ok] at gives
    obtain ⟨others, m, counted, gives⟩ := Prog.runs_bind.mp gives
    obtain ⟨rfl, rfl⟩ := ih counted
    obtain ⟨rfl, rfl⟩ := gives
    refine ⟨?_, rfl⟩
    unfold Projection.succeededCount
    by_cases succeeded : (t.rows.getThread ref).any Thread.succeeded = true <;> simp [succeeded]

theorem outputs_gives {outputs} (refs : List (ObjectRef .thread))
    (gives : (Prog.collect (fun ref => do
        pure (((found (← peekThread ref)).bind (·.output)).getD .null)) refs : Handler _).Runs
      (does env cause) s outputs t) :
    outputs = refs.map (fun ref => ((s.rows.getThread ref).bind (·.output)).getD .null) ∧ t = s := by
  induction refs generalizing outputs t with
  | nil => exact gives
  | cons ref refs ih =>
    unfold Prog.collect at gives
    obtain ⟨v, m, read, gives⟩ := Prog.runs_bind.mp gives
    obtain ⟨vs, m', others, gives⟩ := Prog.runs_bind.mp gives
    rw [peekThread_then] at read
    obtain ⟨rfl, rfl⟩ := read
    obtain ⟨rfl, rfl⟩ := ih others
    exact gives

theorem subUsize_then {a b} {f : Nat → Handler β} {v}
    (gives : (subUsize a b >>= f).Runs (does env cause) s v t) :
    ∃ n, subtracted env a b = some n ∧ (f n).Runs (does env cause) s v t := by
  obtain ⟨n, m, first, rest⟩ := Prog.runs_bind.mp gives
  unfold subUsize at first
  unfold subtracted
  split at first
  · next le =>
      obtain ⟨rfl, rfl⟩ := first
      exact ⟨_, if_pos le, rest⟩
  · next lt =>
      rw [if_neg lt]
      rw [platform_then] at first
      split at first
      · exact first.elim
      · next release =>
          obtain ⟨rfl, rfl⟩ := first
          exact ⟨_, if_neg release, rest⟩

theorem mapChildCompleted_gives {c} {child : RawObjectRef}
    (gives : (mapChildCompleted c activity act child).Runs (does env cause) s () t) :
    ∃ cs, s.rows.mapReaction env c activity act child = some cs ∧ s.Sends cause cs t := by
  unfold mapChildCompleted at gives
  simp only [peekActivity_then, found_ok] at gives
  unfold Projection.mapReaction
  rcases there : s.rows.getActivity activity with _ | row
  · rw [there] at gives
    obtain ⟨-, rfl⟩ := gives
    exact ⟨_, rfl, .refl⟩
  simp only [there, Option.bind_some] at gives ⊢
  rcases state : row.activityState with _ | st
  · rw [state] at gives
    obtain ⟨-, rfl⟩ := gives
    exact ⟨_, rfl, .refl⟩
  rw [state] at gives
  cases st with
  | parallel | wait =>
    obtain ⟨-, rfl⟩ := gives
    exact ⟨_, rfl, .refl⟩
  | map progress =>
    dsimp only at gives ⊢
    rcases known : (progress.children.entries.map Sigma.snd).find? fun ref => ref.raw = child with
      _ | ref
    · rw [known] at gives ⊢
      obtain ⟨-, rfl⟩ := gives
      exact ⟨_, rfl, .refl⟩
    simp only [known, peekThread_then, found_ok] at gives ⊢
    by_cases failed : (!(s.rows.getThread ref).any Thread.succeeded) = true
    · simp only [failed, if_true] at gives ⊢
      exact ⟨_, rfl, failState_gives gives⟩
    · simp only [failed] at gives ⊢
      obtain ⟨n, m, counted, gives⟩ := Prog.runs_bind.mp gives
      obtain ⟨rfl, rfl⟩ := countSucceeded_gives _ counted
      by_cases all : m.rows.succeededCount (progress.children.entries.map Sigma.snd) =
          progress.total
      · simp only [all, if_true] at gives ⊢
        obtain ⟨outputs, m', collected, gives⟩ := Prog.runs_bind.mp gives
        obtain ⟨rfl, rfl⟩ := outputs_gives _ collected
        obtain ⟨ts, rfl⟩ := appendCommand_gives.mp gives
        exact ⟨_, rfl, .one⟩
      · simp only [all, if_false] at gives ⊢
        obtain ⟨remaining, subtracts, gives⟩ := subUsize_then gives
        rw [subtracts]
        exact ⟨_, rfl, each_command _ gives⟩

theorem childCompleted_gives {d child} (kind : ActivityElement.ownedKind d = some child.kind)
    (gives : ((handlerFor d).childCompleted activity act child).Runs (does env cause) s () t) :
    ∃ cs, Reacts env s.rows d activity act child cs ∧ s.Sends cause cs t := by
  cases d with
  | pass | wait | choice | succeed | fail => cases kind
  | task c =>
    have gives : (taskChildCompleted activity act child).Runs (does env cause) s () t := gives
    unfold taskChildCompleted at gives
    rw [if_neg (by simpa using (Option.some.inj kind).symm)] at gives
    obtain ⟨ts, rfl⟩ := appendCommand_gives.mp gives
    exact ⟨_, rfl, .one⟩
  | parallel c =>
    have gives : (parallelChildCompleted activity act child).Runs (does env cause) s () t := gives
    exact ⟨_, rfl, parallelChildCompleted_gives gives⟩
  | map c => exact mapChildCompleted_gives gives

namespace ActivityElement

theorem stateOf_then {f} {b : β} (coherent : s.Coherent env M)
    (gives : (stateOf label activity act >>= f).Runs (does env cause) s b t) :
    ∃ thread d machines, Draft.Coherent env M { s with machines := machines } ∧
      s.rows.getThread act.metadata.owner = some thread ∧
      s.rows.Binds M thread act.statePath d ∧
      (f (thread, d)).Runs (does env cause) { s with machines := machines } b t := by
  obtain ⟨r, m, resolved, rest⟩ := Prog.runs_bind.mp gives
  unfold stateOf at resolved
  obtain ⟨thread, there, resolved⟩ := Prog.runs_found getThread_then resolved id
  simp only [platform_then] at resolved
  obtain ⟨d, machines, coherent, defines, rfl, rfl⟩ := stateOfThread_then coherent resolved
  exact ⟨thread, d, machines, coherent, there, defines, rest⟩

theorem afterChildCompleted_gives {child} (coherent : s.Coherent env M)
    (gives : (afterChildCompleted activity child).Runs (does env cause) s () t) :
    ∃ act thread d cs, ActivityTold env M s.rows activity act thread d child cs ∧
      s.Sends cause cs t := by
  unfold afterChildCompleted at gives
  obtain ⟨act, there, gives⟩ := Prog.runs_found getActivity_then gives id
  dsimp only at gives
  obtain ⟨thread, d, machines, coherent, owner, defines, gives⟩ := stateOf_then coherent gives
  dsimp only at gives
  rcases owned : ownedKind d with _ | expected
  · simp only [owned, platform_then] at gives
    exact gives.elim
  simp only [owned, settleChild] at gives
  split at gives
  · exact gives.elim
  next kind =>
  obtain rfl : child.kind = expected := by simpa using kind
  have told (cs : List Command) : _ → ActivityTold env M s.rows activity act thread d child cs :=
    .mk there owner defines owned
  refine ⟨act, thread, d, ?_⟩
  cases phase : act.status with
  | running =>
    simp only [phase, handToState, getVariables_then] at gives told
    obtain ⟨cs, reacts, sends⟩ := childCompleted_gives owned gives
    exact ⟨cs, told cs reacts, sends.uncached⟩
  | completing | terminating =>
    simp only [phase, appendCommand_gives] at gives told
    obtain ⟨ts, rfl⟩ := gives
    exact ⟨_, told _ rfl, Draft.Sends.one.uncached⟩
  | completed | terminated =>
    simp only [phase] at gives told
    obtain ⟨-, rfl⟩ := gives
    exact ⟨_, told _ rfl, Draft.Sends.refl.uncached⟩

end ActivityElement

/-! ## The owner of a thread is told -/

namespace ExecutionElement

variable {execution : ObjectRef .execution} {child : ObjectRef .thread}

theorem settledRow_then {f} {b : β}
    (gives : (settledRow execution >>= f).Runs (does env cause) s b t) :
    ∃ exec, s.rows.getExecution execution = some exec ∧ (f exec).Runs (does env cause) s b t := by
  unfold settledRow at gives
  obtain ⟨exec, m, first, rest⟩ := Prog.runs_bind.mp gives
  rw [getExecution_then] at first
  cases there : s.rows.getExecution execution with
  | none =>
    rw [there] at first
    exact first.elim
  | some exec' =>
    rw [there] at first
    obtain ⟨rfl, rfl⟩ := first
    exact ⟨exec, rfl, rest⟩

theorem refuseSettled_gives {raw status a}
    (gives : (refuseSettled execution raw status : Handler α).Runs (does env cause) s a t) :
    False := by
  unfold refuseSettled at gives
  split at gives
  · exact gives
  · rw [platform_then] at gives
    exact gives

theorem afterChildCompleted_gives
    (gives : (afterChildCompleted execution child.raw).Runs (does env cause) s () t) :
    ∃ cs, s.rows.executionTold execution (s.rows.executionCompletion execution child) = some cs ∧
      s.Sends cause cs t := by
  unfold afterChildCompleted at gives
  obtain ⟨exec, there, gives⟩ := settledRow_then gives
  have kind : child.raw.kind = .thread := rfl
  unfold Projection.executionTold
  rw [there, Option.map_some]
  cases phase : exec.status with
  | running =>
    refine ⟨_, rfl, ?_⟩
    unfold Projection.executionCompletion
    cases read : s.rows.getThread child with
    | none | some row =>
      simp only [kind, phase, peekThread_then, raw_typed, read, appendCommand_gives] at gives
      obtain ⟨ts, rfl⟩ := gives
      exact .one
  | terminating =>
    simp only [kind, phase, appendCommand_gives] at gives
    obtain ⟨ts, rfl⟩ := gives
    exact ⟨_, rfl, .one⟩
  | completing | completed | terminated =>
    simp only [kind, phase] at gives
    exact (refuseSettled_gives gives).elim

theorem afterChildTerminated_gives
    (gives : (afterChildTerminated execution child.raw).Runs (does env cause) s () t) :
    ∃ cs, s.rows.executionTold execution (s.rows.executionTermination execution child) = some cs ∧
      s.Sends cause cs t := by
  unfold afterChildTerminated at gives
  obtain ⟨exec, there, gives⟩ := settledRow_then gives
  have kind : child.raw.kind = .thread := rfl
  unfold Projection.executionTold
  rw [there, Option.map_some]
  cases phase : exec.status with
  | running =>
    refine ⟨_, rfl, ?_⟩
    unfold Projection.executionTermination
    rcases read : s.rows.getThread child with _ | row
    · simp only [kind, phase, peekThread_then, raw_typed, read] at gives
      obtain ⟨-, rfl⟩ := gives
      exact .refl
    simp only [kind, phase, peekThread_then, raw_typed, read] at gives
    simp only [Option.bind_some]
    rcases settled : row.status.terminationReason with _ | reason
    · rw [settled] at gives
      obtain ⟨-, rfl⟩ := gives
      exact .refl
    simp only [settled, appendCommand_gives] at gives
    obtain ⟨ts, rfl⟩ := gives
    exact .one
  | terminating =>
    simp only [kind, phase, appendCommand_gives] at gives
    obtain ⟨ts, rfl⟩ := gives
    exact ⟨_, rfl, .one⟩
  | completing | completed | terminated =>
    simp only [kind, phase] at gives
    exact (refuseSettled_gives gives).elim

end ExecutionElement

namespace ThreadElement

variable {owner : ThreadOwner} {child : ObjectRef .thread}

theorem openOwner_then {f} {b : β} (gives : (openOwner owner >>= f).Runs (does env cause) s b t) :
    s.rows.HasOwner owner ∧ (f ()).Runs (does env cause) s b t := by
  obtain ⟨_, m, first, rest⟩ := Prog.runs_bind.mp gives
  unfold openOwner ExecutionElement.open_ ActivityElement.open_ at first
  cases owner with
  | execution r =>
    dsimp only at first
    rw [getExecution_then] at first
    cases there : s.rows.getExecution r with
    | none =>
      rw [there] at first
      exact first.elim
    | some exec =>
      rw [there] at first
      obtain ⟨-, rfl⟩ := first
      exact ⟨by simp [Projection.HasOwner, there], rest⟩
  | activity r =>
    dsimp only at first
    rw [getActivity_then] at first
    cases there : s.rows.getActivity r with
    | none =>
      rw [there] at first
      exact first.elim
    | some act =>
      rw [there] at first
      obtain ⟨-, rfl⟩ := first
      exact ⟨by simp [Projection.HasOwner, there], rest⟩

theorem ownerAfterChildCompleted_gives (coherent : s.Coherent env M)
    (gives : (ownerAfterChildCompleted owner child.raw).Runs (does env cause) s () t) :
    ∃ cs, CompletedTold env M t.rows owner child cs ∧ s.Sends cause cs t := by
  cases owner with
  | execution r =>
    obtain ⟨cs, told, sends⟩ := ExecutionElement.afterChildCompleted_gives gives
    rw [← sends.same] at told
    exact ⟨cs, told, sends⟩
  | activity r =>
    obtain ⟨act, thread, d, cs, told, sends⟩ :=
      ActivityElement.afterChildCompleted_gives coherent gives
    rw [← sends.same] at told
    exact ⟨cs, ⟨act, thread, d, told⟩, sends⟩

theorem ownerAfterChildTerminated_gives (coherent : s.Coherent env M)
    (gives : (ownerAfterChildTerminated owner child.raw).Runs (does env cause) s () t) :
    ∃ cs, TerminatedTold env M t.rows owner child cs ∧ s.Sends cause cs t := by
  cases owner with
  | execution r =>
    obtain ⟨cs, told, sends⟩ := ExecutionElement.afterChildTerminated_gives gives
    rw [← sends.same] at told
    exact ⟨cs, told, sends⟩
  | activity r =>
    obtain ⟨act, thread, d, cs, told, sends⟩ :=
      ActivityElement.afterChildCompleted_gives coherent gives
    rw [← sends.same] at told
    exact ⟨cs, ⟨act, thread, d, told⟩, sends⟩

theorem relayIfOpen_gives {relay} (gives : (relayIfOpen owner relay).Runs (does env cause) s () t) :
    s.rows.HasOwner owner ∧ relay.Runs (does env cause) s () t ∨
      ¬s.rows.HasOwner owner ∧ t = s := by
  obtain ⟨opened, m, first, rest⟩ := Prog.runs_bind.mp gives
  unfold Projection.HasOwner
  cases owner with
  | execution r =>
    obtain ⟨a, m', ⟨read, rfl⟩, first⟩ := first
    cases a with
    | none =>
      obtain ⟨rfl, rfl⟩ : opened = false ∧ m = m' := first
      obtain ⟨-, rfl⟩ := rest
      exact .inr ⟨fun there => there read.symm, rfl⟩
    | some exec =>
      obtain ⟨rfl, rfl⟩ : opened = true ∧ m = m' := first
      exact .inl ⟨fun gone => (by cases read.trans gone), rest⟩
  | activity r =>
    obtain ⟨a, m', ⟨read, rfl⟩, first⟩ := first
    cases a with
    | none =>
      obtain ⟨rfl, rfl⟩ : opened = false ∧ m = m' := first
      obtain ⟨-, rfl⟩ := rest
      exact .inr ⟨fun there => there read.symm, rfl⟩
    | some act =>
      obtain ⟨rfl, rfl⟩ : opened = true ∧ m = m' := first
      exact .inl ⟨fun gone => (by cases read.trans gone), rest⟩

/-! ## Threads -/

/-- One command per child, which must be of one of the kinds. -/
theorem each_cancels {kinds : List ObjectKind} {f : RawObjectRef → Handler Unit}
    (step : ∀ child s t, (f child).Runs (does env cause) s () t →
      child.kind ∈ kinds ∧ ∃ ts, t = s.emit cause ts (.command (cancelOf child)))
    (children : List RawObjectRef) (gives : (Prog.each f children).Runs (does env cause) s () t) :
    (∀ child ∈ children, child.kind ∈ kinds) ∧ s.Sends cause (children.map cancelOf) t := by
  induction children generalizing s with
  | nil =>
    obtain ⟨-, rfl⟩ := gives
    exact ⟨by simp, .refl⟩
  | cons child rest ih =>
    rw [Prog.each_cons] at gives
    obtain ⟨_, m, first, gives⟩ := Prog.runs_bind.mp gives
    obtain ⟨kind, ts, rfl⟩ := step child _ _ first
    obtain ⟨kinds', sends⟩ := ih gives
    exact ⟨List.forall_mem_cons.mpr ⟨kind, kinds'⟩, .command sends⟩

theorem children_onThread {r f} : (p.onThread r f).children = p.children := by
  unfold Projection.onThread
  split <;> rfl

theorem getChildren_of_eq {q : Projection} (same : p.children = q.children) :
    p.getChildren = q.getChildren := by
  unfold Projection.getChildren
  rw [same]

theorem sweep_gives {regression : RawObjectRef → String} {children : List RawObjectRef}
    (gives : (sweep regression children).Runs (does env cause) s () t) :
    (∀ child ∈ children, child.kind ∈ [ObjectKind.activity]) ∧
      s.Sends cause (children.map cancelOf) t := by
  refine each_cancels (fun child s t gives => ?_) children gives
  cases kind : child.kind with
  | activity =>
    simp only [kind, appendCommand_gives] at gives
    simpa [cancelOf, kind] using gives
  | _ =>
    simp only [kind] at gives
    exact gives.elim

theorem complete_gives {c : CompleteThread} (coherent : s.Coherent env M)
    (gives : (complete c).Runs (does env cause) s () t) :
    s.Answers env M cause (.completeThread c) t := by
  unfold complete at gives
  obtain ⟨row, there, gives⟩ := Prog.runs_found getThread_then gives id
  dsimp only at gives
  split at gives
  · exact gives.elim
  next running =>
  simp only [now_then, appendEvent_then, getChildren_then] at gives
  obtain ⟨at_, ts, folds, children, perm, gives⟩ := gives
  cases children with
  | cons child rest => exact gives.elim
  | nil =>
    simp only [List.isEmpty_nil, if_true, now_then] at gives
    obtain ⟨at_', gives⟩ := gives
    obtain ⟨-, gives⟩ := openOwner_then gives
    rw [appendEvent_then] at gives
    obtain ⟨ts', folds', gives⟩ := gives
    obtain ⟨cs, told, sends⟩ := ownerAfterChildCompleted_gives
      ((coherent.fold rfl).fold rfl) gives
    refine ⟨_, .threadCompleted there (isRunning_iff.mp (by simpa using running)) ?_ rfl rfl told,
      .event folds (.event folds' sends.writes)⟩
    rw [← List.nil_perm.mp perm]
    exact congrFun (getChildren_of_eq children_onThread.symm) _

theorem terminate_gives {c : TerminateThread} (coherent : s.Coherent env M)
    (gives : (terminate c).Runs (does env cause) s () t) :
    s.Answers env M cause (.terminateThread c) t := by
  unfold terminate at gives
  obtain ⟨row, there, gives⟩ := Prog.runs_found getThread_then gives id
  simp only [now_then] at gives
  obtain ⟨at_, gives⟩ := gives
  rcases opens : row.markTerminating c.reason at_ with why | terminating
  · rw [opens] at gives
    exact gives.elim
  simp only [opens, appendEvent_then, getChildren_then] at gives
  obtain ⟨ts, folds, children, perm, gives⟩ := gives
  have same : (s.fold cause ts (.threadTerminating terminating)).rows.getChildren =
      s.rows.getChildren := getChildren_of_eq children_onThread
  rw [same] at perm
  cases children with
  | cons child rest =>
    obtain ⟨kinds, sends⟩ := sweep_gives gives
    exact ⟨_, .threadSwept there opens (ne_nil_of_perm perm) ⟨_, perm, kinds, rfl⟩,
      .event folds sends.writes⟩
  | nil =>
    simp only [List.isEmpty_nil, if_true, now_then] at gives
    obtain ⟨at_', gives⟩ := gives
    obtain ⟨-, gives⟩ := openOwner_then gives
    rw [appendEvent_then] at gives
    obtain ⟨ts', folds', gives⟩ := gives
    obtain ⟨cs, told, sends⟩ := ownerAfterChildTerminated_gives
      ((coherent.fold rfl).fold rfl) gives
    exact ⟨_, .threadTerminated there opens (List.nil_perm.mp perm) rfl told,
      .event folds (.event folds' sends.writes)⟩

theorem continueTerminate_gives (kind : r.kind = .thread) (coherent : s.Coherent env M)
    (gives : (continueTerminate (r.typed .thread)).Runs (does env cause) s () t) :
    s.Answers env M cause (.continueTerminate r) t := by
  unfold continueTerminate at gives
  obtain ⟨row, there, gives⟩ := Prog.runs_found getThread_then gives id
  dsimp only at gives
  cases phase : row.status with
  | terminating reason =>
    simp only [phase, getChildren_then] at gives
    obtain ⟨children, perm, gives⟩ := gives
    cases children with
    | cons child rest =>
      obtain ⟨kinds, sends⟩ := sweep_gives gives
      exact ⟨_, .threadSweptAgain kind there (.inr ⟨rfl, reason, phase⟩)
        (ne_nil_of_perm perm) ⟨_, perm, kinds, rfl⟩, sends.writes⟩
    | nil =>
      simp only [List.isEmpty_nil, Bool.not_true, Bool.false_eq_true, if_false, now_then,
        appendEvent_then] at gives
      obtain ⟨at_, ts, folds, gives⟩ := gives
      obtain ⟨owned, gives⟩ | ⟨gone, rfl⟩ := relayIfOpen_gives gives
      · obtain ⟨cs, told, sends⟩ :=
          ownerAfterChildTerminated_gives (coherent.fold rfl) gives
        rw [← sends.same] at owned
        exact ⟨_, .threadClosedTerminated kind there phase (List.nil_perm.mp perm) rfl
          (.inl ⟨owned, told⟩), .event folds sends.writes⟩
      · exact ⟨_, .threadClosedTerminated kind there phase (List.nil_perm.mp perm) rfl
          (.inr ⟨gone, rfl⟩), .event folds .refl⟩
  | running | completing | completed | terminated =>
    simp only [phase, platform_then] at gives
    exact gives.elim

theorem continueComplete_gives (kind : r.kind = .thread) (coherent : s.Coherent env M)
    (gives : (continueComplete (r.typed .thread)).Runs (does env cause) s () t) :
    s.Answers env M cause (.continueComplete r) t := by
  unfold continueComplete at gives
  obtain ⟨row, there, gives⟩ := Prog.runs_found getThread_then gives id
  dsimp only at gives
  split at gives
  · rw [platform_then] at gives
    exact gives.elim
  next is =>
  have phase : row.status = .completing := isCompleting_iff.mp (by simpa using is)
  rw [getChildren_then] at gives
  obtain ⟨children, perm, gives⟩ := gives
  cases children with
  | cons child rest =>
    obtain ⟨kinds, sends⟩ := sweep_gives gives
    exact ⟨_, .threadSweptAgain kind there (.inl ⟨rfl, phase⟩) (ne_nil_of_perm perm)
      ⟨_, perm, kinds, rfl⟩, sends.writes⟩
  | nil =>
    simp only [List.isEmpty_nil, Bool.not_true, Bool.false_eq_true, if_false, now_then,
      appendEvent_then] at gives
    obtain ⟨at_, ts, folds, gives⟩ := gives
    obtain ⟨owned, gives⟩ | ⟨gone, rfl⟩ := relayIfOpen_gives gives
    · obtain ⟨cs, told, sends⟩ :=
        ownerAfterChildCompleted_gives (coherent.fold rfl) gives
      rw [← sends.same] at owned
      exact ⟨_, .threadClosedCompleted kind there phase (List.nil_perm.mp perm) rfl
        (.inl ⟨owned, told⟩), .event folds sends.writes⟩
    · exact ⟨_, .threadClosedCompleted kind there phase (List.nil_perm.mp perm) rfl
        (.inr ⟨gone, rfl⟩), .event folds .refl⟩

theorem spawn_gives {c} (gives : (spawn c).Runs (does env cause) s () t) :
    s.Answers env M cause (.spawnThread c) t := by
  unfold spawn at gives
  obtain ⟨act, there, gives⟩ := Prog.runs_found getActivity_then gives id
  dsimp only at gives
  split at gives
  · exact gives.elim
  next running =>
  obtain ⟨thread, owner, gives⟩ := Prog.runs_found getThread_then gives id
  simp only [mint_then, nextGeneratedSeq_then] at gives
  obtain ⟨uid, gives⟩ := gives
  cases path : c.statePath with
  | none =>
    rw [path] at gives
    exact gives.elim
  | some path' =>
    simp only [path, now_then, appendEvent_then, appendCommand_gives] at gives
    obtain ⟨at_, ts, folds, ts', rfl⟩ := gives
    exact ⟨_, .threadSpawned there (isRunning_iff.mp (by simpa using running)) owner path
      rfl, .take (.event folds (.command .refl))⟩

end ThreadElement

end Spica
