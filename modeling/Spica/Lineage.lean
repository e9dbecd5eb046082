import Spica.Chronicle
import Spica.Interference
import Spica.Lifecycle
import Spica.Outcome.Menu

/-! # Families outlive a restart

The rows stay a family when the leader comes back. The counter may fall behind the names that were
asked for, but not behind those that were born; and a request for a task is never read again, since
it stands in the batch of the event that announces its activity.
-/

namespace Spica

open Log Projection

variable {e : Entry} {i : RawObjectRef} {l l' : Ledger} {queue : List Command}

section births

variable {p q : Projection} {es : List Entry} {ev : Event} {κ : Census} {next : Nat}
  {ds : List Deed} {k : ObjectKind × ObjectName} {m : Kin.Member RawObjectRef}

theorem Projection.kin_content (same : p.content = q.content) : p.kin = q.kin := by
  obtain ⟨n, rfl⟩ := content_eq_iff.mp same
  rfl

theorem Projection.children_content (same : p.content = q.content) : p.children = q.children := by
  obtain ⟨n, rfl⟩ := content_eq_iff.mp same
  rfl

/-- A replay leaves the counter above every name born on the way. -/
theorem Replays.born_lt (all : Replays p es q) {name s} (there : e ∈ es)
    (isEvent : e.event? = some ev) (born : ev.bornName = some name)
    (suffix : name.suffix = some s) : s < q.nextGeneratedSeq := by
  induction es generalizing p with
  | nil => cases there
  | cons x es ih =>
    rcases List.mem_cons.mp there with rfl | later
    · have rest := (Replays.event_inv isEvent all).2
      have raised : s < ev.raised p.nextGeneratedSeq := by
        simp only [Event.raised, born, Projection.raised, suffix]
        omega
      rw [← ev.apply_counter p e.timestamp] at raised
      exact raised.trans_le rest.counter_le
    · cases other : x.event? with
      | none => exact ih (Replays.skip_inv other all) later
      | some _ => exact ih (Replays.event_inv other all).2 later

theorem Event.bornName_of_birth (birth : ev.birth = some (k, m)) (owner : m.owner = some i) :
    ev.bornName = some k.2 := by
  cases ev <;> cases birth
  case executionCreated => cases owner
  all_goals rfl

/-- Whoever is born with an owner has a generated name. -/
theorem DeedsFit.named (fit : DeedsFit κ next ds) (there : .event ev ∈ ds)
    (birth : ev.birth = some (k, m)) (owner : m.owner = some i) : ∃ s, k.2.suffix = some s := by
  induction ds generalizing κ next with
  | nil => cases there
  | cons d ds ih =>
    cases d with
    | event e =>
      rcases List.mem_cons.mp there with first | later
      · cases first
        obtain ⟨s, suffix, -⟩ := (fit.1.owned k m i birth owner).1
        exact ⟨s, suffix⟩
      · exact ih fit.2 later
    | take | command | reject => exact ih fit (by simpa using there)

/-- The owner of a command other than the request for a task does not depend on the counter. -/
theorem Command.Founded.any {c : Command} (founded : c.Founded κ next) (other : c.activates = none)
    (next' : Nat) : c.Founded κ next' := by
  cases c with
  | activateTask => cases other
  | _ => exact founded

end births

/-! ## Requests are announced -/

section announced

variable {env : Env} {M : Machines} {cause : Nat} {p q : Projection} {c : Command} {ds : List Deed}
  {es : List Entry}

/-- An answer that asks for a task begins with an event. -/
theorem Outcome.announces (outcome : Outcome env M p q c ds) :
    (∀ c', .command c' ∈ ds → c'.activates = none) ∨
      ∃ ev rest, ds = .take :: .event ev :: rest := by
  cases c with
  | activateState =>
    refine .inr ?_
    cases outcome with
    | stateRefused | stateEntered => exact ⟨_, _, rfl⟩
    | activitySwept _ _ phase | threadSweptAgain _ _ phase =>
      rcases phase with ⟨same, -⟩ | ⟨same, -⟩ <;> cases same
  | triggerDeadline target =>
    refine .inl fun c' there => ?_
    have asked := outcome.menu there
    cases target <;> cases c' <;> first | rfl | cases asked
  | _ =>
    refine .inl fun c' there => ?_
    have asked := outcome.menu there
    cases c' <;> first | rfl | cases asked

theorem activations_eq (es : List Entry) :
    activations es = (commandsOf es).filterMap Command.activates := by
  rw [commandsOf, List.filterMap_filterMap]
  refine List.filterMap_congr fun e _ => ?_
  unfold Entry.command?
  cases e.payload with
  | command c => cases c <;> rfl
  | _ => rfl

theorem activations_command (asks : activations [e] ≠ []) :
    ∃ c, e.command? = some c ∧ c.activates ≠ none := by
  rw [activations_eq] at asks
  obtain ⟨name, there⟩ := List.exists_mem_of_ne_nil _ asks
  obtain ⟨c, isCommand, activates⟩ := List.mem_filterMap.mp there
  obtain ⟨_, found, isCommand⟩ := List.mem_filterMap.mp isCommand
  cases List.mem_singleton.mp found
  exact ⟨c, isCommand, by simp [activates]⟩

theorem Outcome.announced (outcome : Outcome env M p q c ds) (writes : Writes cause p ds es q) :
    Announced es := by
  intro before e after split asks
  obtain ⟨c', isCommand, activates⟩ := activations_command asks
  rcases outcome.announces with none | ⟨ev, rest, rfl⟩
  · have there : c' ∈ commandsOf es := by
      rw [split]
      exact List.mem_filterMap.mpr ⟨e, by simp, isCommand⟩
    rw [writes.commands] at there
    exact absurd (none c' (mem_deedCommands.mp there)) activates
  · -- the first entry of the batch is that of the event
    cases writes with
    | take writes =>
      cases writes with
      | event ts _ _ =>
        cases before with
        | nil =>
          cases split
          cases isCommand
        | cons first before =>
          cases split
          exact ⟨_, List.mem_cons_self, by simp [Entry.event?]⟩

end announced

/-! ## Along the turns -/

/-- What a ledger keeps for a restart: the names that are there were born in its log, every command
    of the log names an owner that is there, and requests for tasks are announced. -/
structure Ledger.Rooted (l : Ledger) : Prop where
  kindred : l.Kindred
  born : ∀ r, Replays .empty l.log r → ∀ k m, l.rows.kin k = some m →
    k.1 = .execution ∨ k.2.Below r.nextGeneratedSeq
  noted : ∀ c ∈ commandsOf l.log, c.activates = none → ∀ next, c.Founded l.rows.kin next
  announced : AnnouncedLog l.log

section turns

variable {env : Env} {M : Machines} {A : Answering} {n cause : Nat} {c : Command} {p q : Projection}
  {ds : List Deed} {log es : List Entry} {rest : List Command} {noopAt : Timestamp}

theorem Ledger.empty_rooted : Rooted ⟨[], .empty, []⟩ where
  kindred := ⟨empty_family, by simp, by simp, by simp⟩
  born r _ k m found := by
    refine (empty_family.bounded k m found).imp_right fun below => below.mono ?_
    exact Nat.zero_le _
  noted := by simp [commandsOf]
  announced := .of_none (by simp)

theorem Ledger.Rooted.outcome (rooted : Rooted ⟨log, p, c :: rest⟩)
    (outcome : Outcome env M p q c ds) (writes : Writes cause p ds es q) (noopAt : Timestamp) :
    Rooted ⟨log ++ (es ++ [⟨some n, noopAt, .noop⟩]), q, rest ++ commandsOf es⟩ := by
  have kindred := rooted.kindred
  have confined := kindred.confined outcome writes
  have grows := (writes.family kindred.family confined.fit).2
  constructor
  · exact kindred.outcome outcome writes _
  · intro r all k m found
    obtain ⟨r₀, first, all⟩ := all.split
    rcases writes.born kindred.family confined.fit found with old | ⟨ev, there, birth⟩
    · refine (rooted.born r₀ first k m old).imp_right fun below => ?_
      exact below.mono all.counter_le
    · cases owner : m.owner with
      | none => exact .inl (ev.birth_top birth owner).1
      | some i =>
        obtain ⟨s, suffix⟩ := confined.fit.named there birth owner
        obtain ⟨ts, entry⟩ := writes.mem_event there
        have lt := all.born_lt (List.mem_append_left _ entry) rfl
          (ev.bornName_of_birth birth owner) suffix
        exact .inr ⟨s, suffix, lt⟩
  · intro c' there other next
    rw [commandsOf_append, commandsOf_append] at there
    rcases List.mem_append.mp there with old | new
    · exact (rooted.noted c' old other next).mono grows le_rfl
    · have new : c' ∈ deedCommands ds := by
        rw [← writes.commands]
        simpa [commandsOf, Entry.command?] using new
      exact ((confined.queue outcome).1 c' new).any other next
  · refine rooted.announced.append (AnnouncedLog.append ?_ (.of_none (by simp [activations])))
    exact (outcome.announced writes).announcedLog fun e there => (writes.answers e there).2

theorem Ledger.Rooted.step (rooted : l.Rooted) (step : Step (Answer env M) l l') : l'.Rooted := by
  have kindred := rooted.kindred.step step
  cases step with
  | client at_ noopAt client =>
    refine ⟨kindred, fun r all => ?_, fun c' there other next => ?_, ?_⟩
    · obtain ⟨r₀, first, all⟩ := all.split
      intro k m found
      exact (rooted.born r₀ first k m found).imp_right fun below => below.mono all.counter_le
    · rw [commandsOf_append] at there
      rcases List.mem_append.mp there with old | new
      · exact rooted.noted c' old other next
      · obtain rfl : c' = _ := by simpa [commandsOf, Entry.command?] using new
        exact Command.founded_of_client client
    · refine rooted.announced.append (.of_none ?_)
      simp only [List.mem_cons, List.not_mem_nil, or_false]
      rintro e (rfl | rfl)
      · have asks := Command.activates_of_client client
        by_contra activates
        obtain ⟨c', isCommand, some_⟩ := activations_command activates
        cases isCommand
        exact some_ asks
      · rfl
  | answer noopAt answers =>
    cases answers with
    | outcome outcome writes => exact rooted.outcome outcome writes noopAt
    | refused =>
      refine ⟨kindred, fun r all => ?_, fun c' there other next => ?_, ?_⟩
      · obtain ⟨r₀, first, all⟩ := all.split
        intro k m found
        exact (rooted.born r₀ first k m found).imp_right fun below => below.mono all.counter_le
      · rw [commandsOf_append] at there
        rcases List.mem_append.mp there with old | new
        · exact rooted.noted c' old other next
        · simp [commandsOf, Entry.command?] at new
      · exact rooted.announced.append (.of_none (by simp [activations]))

/-- What is read again after a restart asks for no task. -/
theorem Ledger.Rooted.none_left (rooted : Rooted ⟨log, p, queue⟩) (ends : Boundary log n)
    (quiet : QuietBetween log n log.length) :
    ∀ c ∈ commandsOf (log.drop n), c.activates = none := by
  have left := rooted.announced.none_left ends quiet
  rw [activations_eq] at left
  exact List.filterMap_eq_nil_iff.mp left

/-- Nothing is lost of a family when the leader comes back. -/
theorem Ledger.Rooted.restart (rooted : Rooted ⟨log, p, queue⟩) (folded : Advances .empty log p)
    (ends : Boundary log n) (quiet : QuietBetween log n log.length)
    (folds : Advances .empty log q) : Rooted ⟨log, q, commandsOf (log.drop n)⟩ := by
  have same : p.content = q.content := folded.mirrors.unique folds.mirrors
  have kin : p.kin = q.kin := kin_content same
  have family := rooted.kindred.family
  have none := rooted.none_left ends quiet
  constructor
  · refine ⟨⟨?_, ?_, ?_⟩, fun c there => ?_, ?_, ?_⟩
    · exact kin ▸ family.sound
    · exact kin ▸ children_content same ▸ family.edges
    · intro k m found
      obtain ⟨r, replays, -, le⟩ := folds
      exact (rooted.born r replays k m (kin ▸ found)).imp_right fun below => below.mono le
    · have there' : c ∈ commandsOf log := ((List.drop_sublist n log).filterMap _).subset there
      exact kin ▸ rooted.noted c there' (none c there) _
    · rw [List.filterMap_eq_nil_iff.mpr none]
      exact List.nodup_nil
    · rw [List.filterMap_eq_nil_iff.mpr none]
      simp
  · exact kin ▸ rooted.born
  · exact kin ▸ rooted.noted
  · exact rooted.announced

theorem Ledger.Step.weaken {B} (weaker : ∀ {n c p es q}, A n c p es q → B n c p es q)
    (step : Step A l l') : Step B l l' := by
  cases step with
  | client at_ noopAt client => exact .client at_ noopAt client
  | answer noopAt answers => exact .answer noopAt (weaker answers)

theorem Ledger.Turns.rooted (answering : ∀ {n c p es q}, A n c p es q → Answer env M n c p es q)
    (sound : A.Advancing) (turns : Turns A l) : l.Rooted := by
  refine turns.keeps empty_rooted fun past rooted turn => ?_
  cases turn with
  | step step => exact rooted.step (step.weaken answering)
  | restart ends quiet folds => exact rooted.restart (past.advances sound) ends quiet folds

end turns

end Spica
