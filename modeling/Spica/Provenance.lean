import Spica.Failures

/-! # Where entries and objects come from

What holds of the log across crashes and restarts, as long as no storage failure is swallowed: every
entry goes back to a client's command, every event is about the object its command was sent to,
every object is born once, and what the leader and the follower have committed are whole trees.
-/

namespace Spica

open Log Projection

/-! ## Entries -/

/-- The answer to the command can hold the payload. -/
def Command.leadsTo (c : Command) : EntryPayload → Bool
  | .event ev => c.mayTell ev
  | .command c' => c.mayAsk c'
  | .reject _ | .noop => true

/-- The entry at a position goes back to a client's command, over commands each of which stands
    before what answers it and can lead to it. -/
inductive Traced (log : List Entry) : Nat → Prop
  | client {n ts c} (entry : entryAt log n = some ⟨none, ts, .command c⟩)
      (client : c.isClient = true) : Traced log n
  | answer {m n cause ts c e} (past : Traced log m)
      (entry : entryAt log m = some ⟨cause, ts, .command c⟩) (found : entryAt log n = some e)
      (answers : e.causeId = some m) (later : m < n) (leads : c.leadsTo e.payload = true) :
      Traced log n

section entries

variable {env : Env} {M : Machines} {log es : List Entry} {p q : Projection} {c : Command} {n : Nat}
  {e : Entry} {ev : Event} {C : Machines → Projection → Command → Prop}

theorem Traced.append (traced : Traced log n) (es : List Entry) : Traced (log ++ es) n := by
  induction traced with
  | client entry client => exact .client (entryAt_extend entry es) client
  | answer _ entry found answers later leads ih =>
    exact .answer ih (entryAt_extend entry es) (entryAt_extend found es) answers later leads

theorem Answer.leadsTo (answer : Answer env M n c p es q) (there : e ∈ es) :
    c.leadsTo e.payload = true := by
  cases answer with
  | refused ts r =>
    cases List.mem_singleton.mp there
    rfl
  | outcome outcome writes =>
    obtain ⟨cause, ts, payload⟩ := e
    cases payload with
    | event ev => exact outcome.event_menu (writes.event_mem there rfl)
    | command c' =>
      have sent : c' ∈ commandsOf es := List.mem_filterMap.mpr ⟨_, there, rfl⟩
      rw [writes.commands, mem_deedCommands] at sent
      exact outcome.menu sent
    | reject | noop => rfl

theorem Annals.traced (annals : Annals (Answer env M) log p) (found : entryAt log n = some e) :
    e.causeId = none ∧ e.isNoop = true ∨ Traced log n := by
  induction annals generalizing n e with
  | empty => simp [entryAt] at found
  | client at_ noopAt _ client ih =>
    rcases entryAt_append_cases found with old | ⟨i, rfl, new⟩
    · exact (ih old).imp_right (·.append _)
    · rcases i with _ | _ | i
      · cases new
        exact .inr (.client found client)
      · cases new
        exact .inl ⟨rfl, rfl⟩
      · cases new
  | @answer log es p q r m cause ts c noopAt _ entry _ answers ih =>
    rcases entryAt_append_cases found with old | ⟨i, rfl, new⟩
    · exact (ih old).imp_right (·.append _)
    · have past : Traced log m := (ih entry).resolve_left fun noop => by cases noop.2
      have below := (entryAt_eq_some entry).2
      have own : e.causeId = some m ∧ c.leadsTo e.payload = true := by
        rcases List.mem_append.mp (List.mem_of_getElem? new) with there | last
        · exact ⟨((Answer.sound env M).answers answers e there).1, answers.leadsTo there⟩
        · cases List.mem_singleton.mp last
          exact ⟨rfl, rfl⟩
      exact .inr (.answer (past.append _) (entryAt_extend entry _) found own.1 (by omega) own.2)

/-- The event may answer the command, and is about the object that is sent to unless it bears. -/
def Command.Concerns (p : Projection) (c : Command) (ev : Event) : Prop :=
  c.mayTell ev ∧ (c.bears = false → ∀ k, c.target = some k → ∃ m, p.kin k = some m ∧ ev.About m)

/-- Every event of the log answers a command of it that concerns it. -/
def Confining (log : List Entry) (p : Projection) : Prop :=
  ∀ n e ev, entryAt log n = some e → e.event? = some ev → ∃ i cause ts c, e.causeId = some i ∧
    entryAt log i = some ⟨cause, ts, .command c⟩ ∧ c.Concerns p ev

theorem FittingAnswer.grows (fitting : FittingAnswer env C n c p es q) :
    Kin.Grows p.kin q.kin := by
  cases fitting with
  | outcome family _ _ fit writes => exact (writes.family family fit).2
  | refused => exact fun _ _ => id

theorem FittingAnswer.concerns (fitting : FittingAnswer env C n c p es q) (there : e ∈ es)
    (holds : e.event? = some ev) : c.Concerns q ev := by
  have grows := fitting.grows
  cases fitting with
  | refused =>
    cases List.mem_singleton.mp there
    cases holds
  | outcome _ _ outcome _ writes =>
    have told := writes.event_mem there holds
    refine ⟨outcome.event_menu told, fun old k target => ?_⟩
    obtain ⟨m, known, about⟩ := outcome.about target old
    exact ⟨m, grows _ _ known, about ev told⟩

theorem Annals.confining (annals : Annals (FittingAnswer env C) log p) : Confining log p := by
  intro n e ev found holds
  induction annals generalizing n e with
  | empty => simp [entryAt] at found
  | client _ _ _ _ ih =>
    rcases entryAt_append_cases found with old | ⟨i, rfl, new⟩
    · obtain ⟨i, cause, ts, c, own, entry, concerns⟩ := ih _ _ old holds
      exact ⟨i, cause, ts, c, own, entryAt_extend entry _, concerns⟩
    · rcases i with _ | _ | i <;> cases new <;> cases holds
  | @answer log es p q r m cause ts c noopAt _ entry same answers ih =>
    rcases entryAt_append_cases found with old | ⟨i, rfl, new⟩
    · obtain ⟨i, cause, ts, c, own, entry, told, concerns⟩ := ih _ _ old holds
      refine ⟨i, cause, ts, c, own, entryAt_extend entry _, told, fun old k target => ?_⟩
      obtain ⟨m, known, about⟩ := concerns old k target
      rw [kin_content same] at known
      exact ⟨m, answers.grows _ _ known, about⟩
    · rcases List.mem_append.mp (List.mem_of_getElem? new) with there | last
      · exact ⟨m, cause, ts, c, ((FittingAnswer.sound env C).answers answers e there).1,
          entryAt_extend entry _, answers.concerns there holds⟩
      · cases List.mem_singleton.mp last
        cases holds

end entries

/-! ## Objects -/

/-- The object that is born in an entry. -/
def Entry.born (e : Entry) : Option (ObjectKind × ObjectName) :=
  (e.event?.bind Event.birth).map Prod.fst

/-- The command an entry of the leader holds. -/
def Entry.followUp (e : Entry) : Option Command := e.causeId.bind fun _ => e.command?

/-- Who has been born was born once, and is there; who is sent a follow-up is there. -/
structure Ledger.Peopled (l : Ledger) : Prop where
  once : (l.log.filterMap Entry.born).Nodup
  known : ∀ k ∈ l.log.filterMap Entry.born, l.rows.kin k ≠ none
  addressed : ∀ c ∈ l.log.filterMap Entry.followUp, ∃ k, c.target = some k ∧ l.rows.kin k ≠ none

section objects

variable {env : Env} {M : Machines} {cause : Nat} {p q : Projection} {ds : List Deed}
  {log es : List Entry} {c : Command} {rest : List Command}

/-- Who is born in an answer was not there, and is born once in it. -/
theorem Writes.born_once (writes : Writes cause p ds es q) (family : p.Family)
    (fit : DeedsFit p.kin p.nextGeneratedSeq ds) : (es.filterMap Entry.born).Nodup ∧
      ∀ k ∈ es.filterMap Entry.born, p.kin k = none ∧ q.kin k ≠ none := by
  induction writes with
  | nil => simp
  | take _ ih => exact ih family.take fit
  | command ts _ ih | reject ts _ ih =>
    rw [List.filterMap_cons_none rfl]
    exact ih family fit
  | @event p q ds es e ts _ writes ih =>
    obtain ⟨fits, kin, rest⟩ := family.fit_event ts fit
    obtain ⟨once, new⟩ := ih (family.event fits) rest
    cases birth : e.birth with
    | none =>
      have same : e.census p.kin = p.kin := by rw [Event.census, birth]
      rw [List.filterMap_cons_none (by simp [Entry.born, Entry.event?, birth])]
      rw [kin, same] at new
      exact ⟨once, new⟩
    | some born =>
      obtain ⟨k, m⟩ := born
      have there : (e.apply ts p).kin k = some m := by
        rw [kin, Event.census, birth]
        exact Function.update_self ..
      have grows := (writes.family (family.event fits) rest).2
      rw [List.filterMap_cons_some (b := k) (by simp [Entry.born, Entry.event?, birth])]
      refine ⟨List.nodup_cons.mpr ⟨fun again => ?_, once⟩, fun j member => ?_⟩
      · cases there.symm.trans (new k again).1
      · rcases List.mem_cons.mp member with rfl | later
        · exact ⟨fits.fresh _ _ birth, by rw [grows _ _ there]; exact Option.some_ne_none m⟩
        · refine ⟨?_, (new j later).2⟩
          cases known : p.kin j with
          | none => rfl
          | some n =>
            have kept := (kin ▸ fits.grows : Kin.Grows p.kin (e.apply ts p).kin) _ _ known
            cases kept.symm.trans (new j later).1

/-- Whatever a command is sent to is there once it is answered. -/
theorem Outcome.target_there {k} (kindred : Ledger.Kindred ⟨log, p, c :: rest⟩)
    (outcome : Outcome env M p q c ds) (writes : Writes cause p ds es q)
    (target : c.target = some k) : ∃ m, q.kin k = some m := by
  have fit := (kindred.confined outcome writes).fit
  have grows := (writes.family kindred.family fit).2
  have founded := kindred.founded c List.mem_cons_self
  by_cases bears : c.bears = true
  · cases c with
    | createExecution =>
      cases target
      cases outcome with
      | executionCreated =>
        exact ⟨_, writes.birth kindred.family fit List.mem_cons_self rfl⟩
      | activitySwept _ _ phase | threadSweptAgain _ _ phase =>
        rcases phase with ⟨same, -⟩ | ⟨same, -⟩ <;> cases same
    | spawnThread | activateState =>
      cases target
      obtain ⟨m, found, -⟩ := founded
      exact ⟨m, grows _ _ found⟩
    | activateTask =>
      cases target
      obtain ⟨⟨m, found, -⟩, -⟩ := founded
      exact ⟨m, grows _ _ found⟩
    | _ => cases bears
  · obtain ⟨m, found, -⟩ := outcome.about target (by simpa using bears)
    exact ⟨m, grows _ _ found⟩

theorem Answer.advancing (env : Env) (M : Machines) : Answering.Advancing (Answer env M) :=
  ⟨(Answer.sound env M).answers, Answer.advances⟩

namespace Ledger

theorem Peopled.quiet {queue queue'} (peopled : Peopled ⟨log, p, queue⟩)
    (noBirth : es.filterMap Entry.born = []) (noFollowUp : es.filterMap Entry.followUp = []) :
    Peopled ⟨log ++ es, p, queue'⟩ := by
  obtain ⟨once, known, addressed⟩ := peopled
  constructor <;> rwa [List.filterMap_append, ‹es.filterMap _ = []›, List.append_nil]

theorem Peopled.outcome (peopled : Peopled ⟨log, p, c :: rest⟩)
    (kindred : Kindred ⟨log, p, c :: rest⟩) (outcome : Outcome env M p q c ds)
    (writes : Writes cause p ds es q) : Peopled ⟨log ++ es, q, rest⟩ := by
  have confined := kindred.confined outcome writes
  obtain ⟨apart, new⟩ := writes.born_once kindred.family confined.fit
  have grows := (writes.family kindred.family confined.fit).2
  have stays {k} (there : p.kin k ≠ none) : q.kin k ≠ none := by
    obtain ⟨m, there⟩ := Option.ne_none_iff_exists'.mp there
    rw [grows _ _ there]
    exact Option.some_ne_none m
  constructor <;> simp only [List.filterMap_append, List.mem_append]
  · refine List.nodup_append.mpr ⟨peopled.once, apart, ?_⟩
    rintro k old _ later rfl
    exact peopled.known k old (new k later).1
  · rintro k (old | later)
    · exact stays (peopled.known k old)
    · exact (new k later).2
  · rintro c' (old | later)
    · exact (peopled.addressed c' old).imp fun k => And.imp_right stays
    · obtain ⟨e, there, asks⟩ := List.mem_filterMap.mp later
      obtain ⟨_, -, asks⟩ := Option.bind_eq_some_iff.mp asks
      have left : c' ∈ commandsOf es := List.mem_filterMap.mpr ⟨e, there, asks⟩
      rw [writes.commands] at left
      cases target : c.target with
      | none =>
        rw [outcome.silent target] at left
        cases left
      | some k =>
        obtain ⟨m, found⟩ := outcome.target_there kindred writes target
        obtain ⟨j', same, kin⟩ := (confined.follow k target).target c' left
        obtain ⟨n, found', -⟩ := kin _ ⟨m, found, rfl⟩
        exact ⟨j', same, by rw [found']; exact Option.some_ne_none n⟩

theorem Turns.peopled {l} (turns : Turns (Answer env M) l) : l.Peopled := by
  have sound := Answer.advancing env M
  refine turns.keeps ⟨by simp, by simp, by simp⟩ fun past held turn => ?_
  cases turn with
  | restart _ _ folds =>
    have same := kin_content ((past.advances sound).mirrors.unique folds.mirrors)
    exact ⟨held.once, same ▸ held.known, same ▸ held.addressed⟩
  | step step =>
    cases step with
    | client at_ noopAt => exact held.quiet rfl rfl
    | answer noopAt answers =>
      cases answers with
      | refused ts r => exact held.quiet rfl rfl
      | outcome outcome writes =>
        rw [← List.append_assoc]
        exact (held.outcome (past.rooted id sound).kindred outcome writes).quiet rfl rfl

end Ledger

/-- Who reads a log up to the end of a batch has whole trees. -/
theorem Ledger.Turns.trees {l rows n} (turns : Turns (Answer env M) l) (ends : Boundary l.log n)
    (fold : FoldsTo l.log n rows) : rows.Trees := by
  have sound := Answer.advancing env M
  obtain ⟨l', past, log⟩ := turns.at_boundary sound ends
  have folded := (past.advances sound).mirrors
  rw [log] at folded
  obtain ⟨k, rfl⟩ := content_eq_iff.mp (folded.unique fold)
  exact { (past.rooted id sound).kindred.family.trees with }

end objects

/-! ## In every run -/

namespace World

variable {env : Env} {w : World}

theorem Spared.turns (run : Run.Reach (World.step env) (World.Spared env) init w) :
    ∃ l, Ledger.Turns (Answer env fun _ _ => True) l ∧ l.log = w.log := by
  obtain ⟨l, turns, log, -⟩ := (Chronicled.of_run (Answer.advancing env _) (fun _ _ => id)
    (spared_answers fun _ _ => id) run).current
  exact ⟨l, turns, log⟩

open Scenario

/-- The leader has appended the batch that completes the first state and stops before it is
    committed. It comes back, and runs a second execution. -/
def resumed : World :=
  after true (single pass) (appends [createFlow, createExecution exec] ++ starts 4 ++ leads 10 ++
    [.dispatch decision, .stop] ++ starts 19 ++ appends [createExecution second] ++ leads 20)

theorem resumed_reach : Run.Reach (World.step (host true (single pass)))
    (World.Spared (host true (single pass))) init resumed :=
  reach_after fun _ a there => (((((((appends_calm _).append (starts_calm _)).append
    (leads_calm _)).append (by simp [Calm, Action.FaultFree, decision_faultFree])).append
    (starts_calm _)).append (appends_calm _)).append (leads_calm _) a there).spared

/-- Every entry is a Noop that closes a client's append, or goes back to a client's command. -/
theorem log_traced (run : Run.Reach (World.step env) (World.Spared env) init w) {n : Nat} {e : Entry}
    (found : entryAt w.log n = some e) : e.causeId = none ∧ e.isNoop = true ∨ Traced w.log n := by
  obtain ⟨p, annals⟩ := Annals.of_run (Answer.sound env _) (fun _ _ => id)
    (spared_answers fun _ _ => id) run
  exact annals.traced found

theorem log_traced_restart : ∃ e, entryAt resumed.log 18 = some e ∧
    (e.causeId = none ∧ e.isNoop = true ∨ Traced resumed.log 18) := by
  have there : (entryAt resumed.log 18).isSome = true := by decide +kernel
  obtain ⟨e, found⟩ := Option.isSome_iff_exists.mp there
  exact ⟨e, found, log_traced resumed_reach found⟩

/-- Every event is about the object its command was sent to, unless that gives birth. -/
theorem events_confined (run : Run.Reach (World.step env) (World.Spared env) init w) :
    ∃ p, Mirrors .empty w.log p ∧ Confining w.log p := by
  have sound := FittingAnswer.sound env fun _ _ _ => True
  obtain ⟨p, annals⟩ := Annals.of_run sound (fun _ _ => id)
    (fitting_answers (fun _ _ => id) fun _ a _ => by cases a <;> simp [Meets]) run
  exact ⟨p, annals.mirrors sound, annals.confining⟩

theorem events_confined_restart : ∃ p, Mirrors .empty resumed.log p ∧ Confining resumed.log p :=
  events_confined resumed_reach

/-- No execution, thread, activity or task is born twice. -/
theorem objects_born_once (run : Run.Reach (World.step env) (World.Spared env) init w) :
    (w.log.filterMap Entry.born).Nodup := by
  obtain ⟨l, turns, log⟩ := Spared.turns run
  rw [← log]
  exact turns.peopled.once

theorem objects_born_once_restart : (resumed.log.filterMap Entry.born).Nodup :=
  objects_born_once resumed_reach

/-- Every command of the leader is sent to an object, which is there in the rows that the log folds
    to. -/
theorem follow_ups_addressed (run : Run.Reach (World.step env) (World.Spared env) init w) :
    ∃ p, Mirrors .empty w.log p ∧
      ∀ c ∈ w.log.filterMap Entry.followUp, ∃ k, c.target = some k ∧ p.kin k ≠ none := by
  obtain ⟨l, turns, log⟩ := Spared.turns run
  rw [← log]
  exact ⟨l.rows, (turns.advances (Answer.advancing env _)).mirrors, turns.peopled.addressed⟩

theorem follow_ups_addressed_restart : ∃ p, Mirrors .empty resumed.log p ∧
    ∀ c ∈ resumed.log.filterMap Entry.followUp, ∃ k, c.target = some k ∧ p.kin k ≠ none :=
  follow_ups_addressed resumed_reach

/-- The rows of the leader and of the follower each name the execution their chain of owners ends
    at, and all chains end. -/
theorem trees_kept (run : Run.Reach (World.step env) (World.Spared env) init w) :
    w.storage.rows.Trees ∧ w.follower.storage.rows.Trees := by
  obtain ⟨l, turns, log⟩ := Spared.turns run
  have faithful := Faithful.reach run
  refine ⟨turns.trees ?_ (log ▸ faithful.committed), turns.trees ?_ (log ▸ faithful.follower.committed)⟩
  · exact log ▸ faithful.placed.boundary
  · exact log ▸ faithful.placed.follower.boundary

theorem trees_kept_restart :
    resumed.storage.rows.Trees ∧ resumed.follower.storage.rows.Trees := trees_kept resumed_reach

end World

end Spica
