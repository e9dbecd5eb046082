import Spica.Scenario
import Spica.Lib.Journal
import Spica.Lib.Scan

/-! # The scheduler of deadlines

A loop arms and cancels deadlines off an inbox and hands those that are due to a sink. A pass of
the loop drains the inbox, reads the clock once and fires everything due by that reading; then the
loop waits for a message or for the earliest deadline. Messages arrive, the clock moves and the
handles of the inbox are dropped at any point of it, also while a fire is awaited.
-/

namespace Spica

variable {armed : Armed} {now d : Timestamp} {k : DeadlineTarget} {m n : Nat}

inductive SchedulerInput where
  | schedule (target : DeadlineTarget) (deadline : Timestamp)
  | cancel (target : DeadlineTarget)
  | wake
  deriving DecidableEq

abbrev Armed := AList fun _ : DeadlineTarget => Timestamp

/-- A re-arm for the same target replaces the prior deadline. -/
def SchedulerInput.apply (armed : Armed) : SchedulerInput → Armed
  | .schedule target deadline => armed.insert target deadline
  | .cancel target => armed.erase target
  | .wake => armed

/-- The targets whose deadline is not after the reading. -/
def Armed.due (armed : Armed) (now : Timestamp) : List DeadlineTarget :=
  ((Scan.bindings armed).filter fun e => e.2.millis ≤ now.millis).map Prod.fst

/-- What the loop does that can be told from outside. -/
inductive Moment where
  | received (input : SchedulerInput)
  | read (now : Timestamp)
  /-- the sink is called, at the given instant of the clock -/
  | triggered (target : DeadlineTarget) (deadline clock : Timestamp)
  /-- a fire with no sink attached -/
  | dropped (target : DeadlineTarget) (deadline : Timestamp)
  deriving DecidableEq

/-- Where the loop is. -/
inductive Stage where
  | draining
  | reading
  | firing (now : Timestamp) (due : List DeadlineTarget)
  | waiting (now : Timestamp)
  | stopped
  | panicked
  deriving DecidableEq

structure InMemoryScheduler where
  inbox : List SchedulerInput
  /-- some handle of the inbox is left -/
  isOpen : Bool
  sink : Bool
  clock : Timestamp
  armed : Armed
  stage : Stage
  journal : List Moment

inductive SchedulerAction where
  /-- `schedule`, `cancel` and `tick` -/
  | send (input : SchedulerInput)
  | attachSink
  | dropHandles
  | advance (now : Timestamp)
  /-- one `try_recv` -/
  | drain
  /-- reads the clock; the due targets come in the order of the map -/
  | read (due : List DeadlineTarget)
  | fire
  /-- `recv` ends the wait -/
  | receive
  /-- the sleep ends the wait -/
  | sleep

namespace InMemoryScheduler

/-- `spawn_with_clock` -/
def spawn (clock : Timestamp) : InMemoryScheduler := ⟨[], true, false, clock, ∅, .draining, []⟩

def apply (s : InMemoryScheduler) (input : SchedulerInput) (rest : List SchedulerInput) :
    InMemoryScheduler :=
  { s with
    inbox := rest
    armed := input.apply s.armed
    stage := .draining
    journal := s.journal ++ [.received input] }

/-- The next due target is taken out of the map and handed to the sink. The calls of the sink are
    awaited one after the other; nothing of the loop happens in between. -/
def fire (s : InMemoryScheduler) (now : Timestamp) (target : DeadlineTarget)
    (due : List DeadlineTarget) : InMemoryScheduler :=
  match s.armed.lookup target with
  | none => { s with stage := .panicked }
  | some deadline =>
    let moment := if s.sink then .triggered target deadline s.clock else .dropped target deadline
    { s with
      armed := s.armed.erase target
      stage := .firing now due
      journal := s.journal ++ [moment] }

def step (s : InMemoryScheduler) : SchedulerAction → Option InMemoryScheduler
  | .send input => if s.isOpen then some { s with inbox := s.inbox ++ [input] } else none
  | .attachSink => if s.isOpen then some { s with sink := true } else none
  | .dropHandles => some { s with isOpen := false }
  | .advance now => if s.clock.millis ≤ now.millis then some { s with clock := now } else none
  | .drain =>
    match s.stage, s.inbox with
    | .draining, input :: rest => some (s.apply input rest)
    | .draining, [] => some { s with stage := if s.isOpen then .reading else .stopped }
    | _, _ => none
  | .read due =>
    match s.stage with
    | .reading =>
      if due.Perm (s.armed.due s.clock) then
        some { s with
          stage := .firing s.clock due
          journal := s.journal ++ [.read s.clock] }
      else none
    | _ => none
  | .fire =>
    match s.stage with
    | .firing now (target :: due) => some (s.fire now target due)
    | .firing now [] => some { s with stage := .waiting now }
    | _ => none
  | .receive =>
    match s.stage, s.inbox with
    | .waiting _, input :: rest => some (s.apply input rest)
    | .waiting _, [] => if s.isOpen then none else some { s with stage := .stopped }
    | _, _ => none
  | .sleep =>
    match s.stage with
    -- with nothing armed only a message ends the wait; how long a sleep takes is up to a timer
    -- that does not know the injected clock
    | .waiting _ => if s.armed.entries = [] then none else some { s with stage := .draining }
    | _ => none

end InMemoryScheduler

/-! ## What stands about a target -/

/-- The moment says something about the deadline of the target. -/
def Moment.About : Moment → DeadlineTarget → Prop
  | .received (.schedule target _), k => target = k
  | .received (.cancel target), k => target = k
  | .triggered target _ _, k => target = k
  | .dropped target _, k => target = k
  | .received .wake, _ => False
  | .read _, _ => False

theorem Armed.mem_due :
    k ∈ armed.due now ↔ ∃ d, armed.lookup k = some d ∧ d.millis ≤ now.millis := by
  simp [Armed.due, Scan.mem_bindings]

theorem Armed.due_nodup (armed : Armed) (now : Timestamp) : (armed.due now).Nodup :=
  (List.filter_sublist.map Prod.fst).nodup (Scan.bindings_distinct armed)

/-- A message arms a target anew, or says nothing about it. -/
theorem SchedulerInput.lookup_apply {input} (found : (input.apply armed).lookup k = some d) :
    input = .schedule k d ∨ armed.lookup k = some d ∧ ¬(Moment.received input).About k := by
  cases input with
  | wake => exact .inr ⟨found, id⟩
  | cancel target =>
    have other : target ≠ k := by
      rintro rfl
      rw [apply, AList.lookup_erase] at found
      cases found
    rw [apply, AList.lookup_erase_ne other.symm] at found
    exact .inr ⟨found, other⟩
  | schedule target deadline =>
    by_cases same : target = k
    · subst same
      rw [apply, AList.lookup_insert] at found
      cases found
      exact .inl rfl
    · rw [apply, AList.lookup_insert_ne (Ne.symm same)] at found
      exact .inr ⟨found, same⟩

namespace InMemoryScheduler

open Journal

variable {s s' : InMemoryScheduler} {a : SchedulerAction}

/-- What a pass of the loop owes, at each of its stages. -/
def Passes (s : InMemoryScheduler) : Prop :=
  match s.stage with
  | .firing now due => due.Nodup ∧ now.millis ≤ s.clock.millis ∧
      ∀ k, k ∈ due ↔ ∃ d, s.armed.lookup k = some d ∧ d.millis ≤ now.millis
  | .waiting now => ∀ k d, s.armed.lookup k = some d → now.millis < d.millis
  | .panicked => False
  | _ => True

/-- What holds of the loop in every run. -/
structure Kept (s : InMemoryScheduler) : Prop where
  /-- what is armed was scheduled, and nothing has been said about it since -/
  armed : ∀ k d, s.armed.lookup k = some d →
    ∃ n, Stands Moment.About s.journal k s.journal.length n (.received (.schedule k d))
  triggered : ∀ m k d clock, s.journal[m]? = some (.triggered k d clock) →
    d.millis ≤ clock.millis ∧
      ∃ n, Stands Moment.About s.journal k m n (.received (.schedule k d))
  passes : s.Passes

theorem spawn_kept (clock : Timestamp) : (spawn clock).Kept where
  armed := by simp [spawn]
  triggered := by simp [spawn]
  passes := trivial

/-- A moment that is not a trigger leaves every trigger as it was. -/
theorem Kept.triggered_later (kept : s.Kept) {y} (other : ∀ k d clock, y ≠ .triggered k d clock)
    (m : Nat) (k : DeadlineTarget) (d clock : Timestamp)
    (noted : (s.journal ++ [y])[m]? = some (.triggered k d clock)) :
    d.millis ≤ clock.millis ∧
      ∃ n, Stands Moment.About (s.journal ++ [y]) k m n (.received (.schedule k d)) := by
  rcases noted_concat noted with ⟨inside, old⟩ | ⟨-, new⟩
  · obtain ⟨due, n, stands⟩ := kept.triggered m k d clock old
    exact ⟨due, n, stands.later (by omega) y⟩
  · exact absurd new.symm (other k d clock)

theorem Kept.apply (kept : s.Kept) (input : SchedulerInput) (rest : List SchedulerInput) :
    (s.apply input rest).Kept where
  armed := by
    intro k d found
    rcases SchedulerInput.lookup_apply found with rfl | ⟨before, other⟩
    · exact ⟨s.journal.length, .new rfl⟩
    · obtain ⟨n, stands⟩ := kept.armed k d before
      exact ⟨n, stands.pass other⟩
  triggered := kept.triggered_later (by simp)
  passes := trivial

/-- Firing a due target takes it out of what is armed, and it was armed. -/
theorem Kept.fire (kept : s.Kept) {target due} (here : s.stage = .firing now (target :: due)) :
    (s.fire now target due).Kept := by
  obtain ⟨distinct, past, exact_⟩ : (target :: due).Nodup ∧ now.millis ≤ s.clock.millis ∧
      ∀ k, k ∈ target :: due ↔ ∃ d, s.armed.lookup k = some d ∧ d.millis ≤ now.millis := by
    simpa only [Passes, here] using kept.passes
  obtain ⟨fresh, distinct⟩ := List.nodup_cons.mp distinct
  obtain ⟨deadline, found, reached⟩ := (exact_ target).mp List.mem_cons_self
  obtain ⟨n, stands⟩ := kept.armed target deadline found
  simp only [InMemoryScheduler.fire, found]
  generalize moment_eq : (if s.sink then .triggered target deadline s.clock
    else .dropped target deadline : Moment) = moment
  refine ⟨?_, ?_, ?_⟩
  · intro k d left
    have other : k ≠ target := by
      rintro rfl
      rw [AList.lookup_erase] at left
      cases left
    rw [AList.lookup_erase_ne other] at left
    obtain ⟨n, stands⟩ := kept.armed k d left
    have silent : ¬moment.About k := by
      rw [← moment_eq]
      split <;> exact fun same => other same.symm
    exact ⟨n, stands.pass silent⟩
  · intro m k d clock noted
    rcases noted_concat noted with ⟨inside, old⟩ | ⟨rfl, new⟩
    · obtain ⟨due, n, stands⟩ := kept.triggered m k d clock old
      exact ⟨due, n, stands.later (by omega) moment⟩
    · rw [← new] at moment_eq
      split at moment_eq
      · cases moment_eq
        exact ⟨by omega, n, stands.later le_rfl _⟩
      · cases moment_eq
  · refine ⟨distinct, past, fun k => ?_⟩
    by_cases same : k = target
    · subst same
      simp [fresh]
    · rw [AList.lookup_erase_ne same, ← exact_ k]
      simp [same]

theorem Kept.read (kept : s.Kept) {due} (order : due.Perm (s.armed.due s.clock)) :
    Kept { s with stage := .firing s.clock due, journal := s.journal ++ [.read s.clock] } where
  armed := by
    intro k d found
    obtain ⟨n, stands⟩ := kept.armed k d found
    exact ⟨n, stands.pass id⟩
  triggered := kept.triggered_later (by simp)
  passes := ⟨order.nodup_iff.mpr (s.armed.due_nodup s.clock), le_rfl,
    fun _ => order.mem_iff.trans Armed.mem_due⟩

/-- The loop moves on without a message, a reading or a fire. -/
theorem Kept.moves (kept : s.Kept) (armed : s'.armed = s.armed) (journal : s'.journal = s.journal)
    (passes : s'.Passes) : s'.Kept where
  armed := by
    rw [armed, journal]
    exact kept.armed
  triggered := by
    rw [journal]
    exact kept.triggered
  passes := passes

theorem Kept.step (kept : s.Kept) (moved : s.step a = some s') : s'.Kept := by
  have owed := kept.passes
  cases a with
  | send | attachSink =>
    simp only [InMemoryScheduler.step, Option.ite_none_right_eq_some, Option.some.injEq] at moved
    obtain ⟨-, rfl⟩ := moved
    exact kept.moves rfl rfl owed
  | dropHandles =>
    cases moved
    exact kept.moves rfl rfl owed
  | advance now =>
    simp only [InMemoryScheduler.step, Option.ite_none_right_eq_some, Option.some.injEq] at moved
    obtain ⟨later, rfl⟩ := moved
    refine kept.moves rfl rfl ?_
    cases here : s.stage with
    | firing started due =>
      simp only [Passes, here] at owed ⊢
      exact ⟨owed.1, owed.2.1.trans later, owed.2.2⟩
    | waiting =>
      simp only [Passes, here] at owed ⊢
      exact owed
    | panicked => simp only [Passes, here] at owed
    | draining | reading | stopped => simp only [Passes]
  | drain =>
    simp only [InMemoryScheduler.step] at moved
    split at moved
    case h_1 =>
      cases moved
      exact kept.apply _ _
    case h_2 =>
      cases moved
      refine kept.moves rfl rfl ?_
      simp only [Passes]
      cases s.isOpen <;> trivial
    case h_3 => cases moved
  | read due =>
    simp only [InMemoryScheduler.step] at moved
    split at moved
    case h_1 =>
      simp only [Option.ite_none_right_eq_some, Option.some.injEq] at moved
      obtain ⟨order, rfl⟩ := moved
      exact kept.read order
    case h_2 => cases moved
  | fire =>
    simp only [InMemoryScheduler.step] at moved
    split at moved
    case h_1 here =>
      cases moved
      exact kept.fire here
    case h_2 now here =>
      cases moved
      refine kept.moves rfl rfl fun k d found => ?_
      simp only [Passes, here] at owed
      by_contra reached
      exact List.not_mem_nil ((owed.2.2 k).mpr ⟨d, found, not_lt.mp reached⟩)
    case h_3 => cases moved
  | receive =>
    simp only [InMemoryScheduler.step] at moved
    split at moved
    case h_1 =>
      cases moved
      exact kept.apply _ _
    case h_2 =>
      split at moved
      · cases moved
      · cases moved
        exact kept.moves rfl rfl trivial
    case h_3 => cases moved
  | sleep =>
    simp only [InMemoryScheduler.step] at moved
    split at moved
    case h_1 =>
      split at moved
      · cases moved
      · cases moved
        exact kept.moves rfl rfl trivial
    case h_2 => cases moved

theorem kept_of_reach {start} (run : Run.Reach step (fun _ _ => True) (spawn start) s) : s.Kept :=
  run.keeps (fun _ _ _ kept _ moved => kept.step moved) (spawn_kept start)

/-- A due target is armed when its turn comes, so taking it out never panics. -/
theorem never_panics {start : Timestamp} (run : Run.Reach step (fun _ _ => True) (spawn start) s) :
    s.stage ≠ .panicked := by
  intro here
  simpa only [Passes, here] using (kept_of_reach run).passes

/-- Of the schedule messages for the target received before place `m`, the one at `n` is the last,
    and it says `d`. -/
def Latest (s : InMemoryScheduler) (k : DeadlineTarget) (m n : Nat) (d : Timestamp) : Prop :=
  Stands (fun x k => ∃ d, x = .received (.schedule k d)) s.journal k m n (.received (.schedule k d))

theorem latest_of_stands
    (stands : Stands Moment.About s.journal k m n (.received (.schedule k d))) :
    s.Latest k m n d where
  noted := stands.noted
  concerns := ⟨d, rfl⟩
  earlier := stands.earlier
  quiet := by
    rintro i y after before noted ⟨d', rfl⟩
    exact stands.quiet i _ after before noted rfl

/-- A trigger follows its schedule message with nothing about the target in between. -/
theorem Kept.stands_of_latest (kept : s.Kept) {d' clock}
    (noted : s.journal[m]? = some (.triggered k d clock)) (latest : s.Latest k m n d') :
    Stands Moment.About s.journal k m n (.received (.schedule k d)) := by
  obtain ⟨-, n', stands⟩ := kept.triggered m k d clock noted
  obtain rfl : n = n' := latest.unique (latest_of_stands stands)
  exact stands

/-- Every trigger is at or after the deadline of the latest schedule message received for its
    target, and carries it; no message leads to two of them, nor to one after a cancel or a re-arm;
    and the loop never waits with a deadline armed that its reading of the clock has reached. -/
theorem deadlines_fire_as_scheduled {start : Timestamp}
    (run : Run.Reach step (fun _ _ => True) (spawn start) s) :
    (∀ m k d clock, s.journal[m]? = some (.triggered k d clock) →
      d.millis ≤ clock.millis ∧ ∃ n, s.Latest k m n d) ∧
    (∀ m m' n k k' d d' clock clock', s.journal[m]? = some (.triggered k d clock) →
      s.journal[m']? = some (.triggered k' d' clock') →
      s.Latest k m n d → s.Latest k' m' n d' → m = m') ∧
    (∀ m r n k d clock, s.journal[m]? = some (.triggered k d clock) → n < r → r < m →
      (s.journal[r]? = some (.received (.cancel k)) ∨
        ∃ d', s.journal[r]? = some (.received (.schedule k d'))) → ¬s.Latest k m n d) ∧
    ∀ now, s.stage = .waiting now → ∀ k d, s.armed.lookup k = some d → now.millis < d.millis := by
  have kept : s.Kept := kept_of_reach run
  refine ⟨?_, ?_, ?_, ?_⟩
  · intro m k d clock noted
    obtain ⟨reached, n, stands⟩ := kept.triggered m k d clock noted
    exact ⟨reached, n, latest_of_stands stands⟩
  · intro m m' n k k' d d' clock clock' noted noted' latest latest'
    have one := kept.stands_of_latest noted latest
    have other := kept.stands_of_latest noted' latest'
    obtain ⟨rfl, rfl⟩ : k = k' ∧ d = d' := by simpa using one.noted.symm.trans other.noted
    -- whichever trigger comes first is about the target, after the message they share
    rcases Nat.lt_trichotomy m m' with first | same | first
    · exact absurd (other.latest noted rfl first) (not_le.mpr one.earlier)
    · exact same
    · exact absurd (one.latest noted' rfl first) (not_le.mpr other.earlier)
  · intro m r n k d clock noted after before superseded latest
    have stands := kept.stands_of_latest noted latest
    rcases superseded with cancelled | ⟨d', again⟩
    · exact absurd (stands.latest cancelled rfl before) (not_le.mpr after)
    · exact absurd (stands.latest again rfl before) (not_le.mpr after)
  · intro now here
    simpa only [Passes, here] using kept.passes

/-- A deadline is armed, moved once and fired. -/
def rearmed : InMemoryScheduler :=
  Run.script step (spawn ⟨0⟩) [.attachSink, .send (.schedule (.activity Scenario.firstActivity) ⟨3⟩),
    .send (.schedule (.activity Scenario.firstActivity) ⟨5⟩), .drain, .drain, .advance ⟨7⟩, .drain,
    .read [.activity Scenario.firstActivity], .fire, .fire]

theorem never_panics_rearmed : rearmed.stage ≠ .panicked :=
  never_panics (Run.reach_script fun _ _ _ => trivial)

theorem deadlines_fire_as_scheduled_rearmed :
    rearmed.stage = .waiting ⟨7⟩ ∧
      rearmed.journal[3]? = some (.triggered (.activity Scenario.firstActivity) ⟨5⟩ ⟨7⟩) ∧
      ∃ n, rearmed.Latest (.activity Scenario.firstActivity) 3 n ⟨5⟩ := by
  have fired : rearmed.journal[3]? = some (.triggered (.activity Scenario.firstActivity) ⟨5⟩ ⟨7⟩) := by
    decide +kernel
  exact ⟨by decide +kernel, fired, ((deadlines_fire_as_scheduled
    (Run.reach_script fun _ _ _ => trivial)).1 3 _ ⟨5⟩ ⟨7⟩ fired).2⟩

end InMemoryScheduler

end Spica
