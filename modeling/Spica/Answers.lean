import Spica.Batches
import Spica.Scenario

/-! # Commands and their answers

A restart resumes after the committed position, which is the end of the batch committed last.
Commands that were queued in front of that batch, or inside it, are below the resume position
whether or not the leader had read them. Conversely an appended batch without events does not
move the resume position at all. So whether every command is answered, and answered once, is
decided by where the leader stops.
-/

namespace Spica

open Log Scenario

variable {s s' : Storage} {inflight inflight' : Option Projection} {definitions : MachineCache}
    {ok : World → Action → Prop}

/-- Some entry answers the command at the position. -/
def Answered (log : List Entry) (p : Nat) : Prop := ∃ e ∈ log, e.causeId = some p

instance (log : List Entry) (p : Nat) : Decidable (Answered log p) :=
  inferInstanceAs (Decidable (∃ e ∈ log, e.causeId = some p))

/-- Every command below the position is answered. -/
def AnsweredBelow (log : List Entry) (n : Nat) : Prop :=
  ∀ p e, p < n → entryAt log p = some e → e.isCommand = true → Answered log p

/-- No command after position `a` up to position `b`. -/
abbrev NoCommandBetween (log : List Entry) (a b : Nat) : Prop :=
  Between (·.isCommand = false) log a b

section answers

variable {log es : List Entry} {a b n p : Nat} {e : Entry}

theorem Answered.append (answered : Answered log p) : Answered (log ++ es) p := by
  obtain ⟨e, member, cause⟩ := answered
  exact ⟨e, List.mem_append_left _ member, cause⟩

theorem AnsweredBelow.mono (all : AnsweredBelow log n) (fewer : a ≤ n) : AnsweredBelow log a :=
  fun p e below => all p e (by omega)

theorem AnsweredBelow.append (all : AnsweredBelow log n) (inside : n ≤ log.length + 1) :
    AnsweredBelow (log ++ es) n := by
  intro p e below found isCommand
  rw [entryAt_append (by omega)] at found
  exact (all p e below found isCommand).append

/-- A stretch without commands needs no answers. -/
theorem AnsweredBelow.extend (all : AnsweredBelow log (a + 1)) (none : NoCommandBetween log a b) :
    AnsweredBelow log (b + 1) := by
  intro p e below found isCommand
  by_cases old : p ≤ a
  · exact all p e (by omega) found isCommand
  · have := none p e (by omega) (by omega) found
    simp [isCommand] at this

/-- The batch that answers a command adds to what is answered. -/
theorem AnsweredBelow.answer (all : AnsweredBelow log n) (inside : n ≤ log.length)
    (answers : ∃ e ∈ es, e.causeId = some n) : AnsweredBelow (log ++ es) (n + 1) := by
  intro p e below found isCommand
  by_cases old : p < n
  · exact all.append (by omega) p e old found isCommand
  · obtain rfl : p = n := by omega
    obtain ⟨e, member, cause⟩ := answers
    exact ⟨e, List.mem_append_right _ member, cause⟩

end answers

/-! ## No command is lost -/

/-- A restart from here skips no command that is still to be read: none lies between the read
    position and the position a restart resumes after, which is the end of the batch being
    committed if recovery will find an event in it, and the committed position otherwise. -/
structure World.StopSafe (w : World) : Prop where
  running : ∀ next leader, w.proc = .running next leader →
    NoCommandBetween w.log (next - 1) w.storage.lastProcessedPosition
  committing : ∀ next leader rows last, w.proc = .committing next leader rows last →
    (QuietBetween w.log w.storage.lastProcessedPosition last →
      NoCommandBetween w.log next w.storage.lastProcessedPosition) ∧
    (¬ QuietBetween w.log w.storage.lastProcessedPosition last → NoCommandBetween w.log next last)

/-- The position the loop reads next, while it runs. -/
def Proc.reads : Proc → Option Nat
  | .running next _ => some next
  | .committing next _ _ _ => some (next + 1)
  | .stopped _ | .recovering _ _ _ => none

/-- The loop runs and has read everything up to the position. -/
def Proc.isIdle (committed : Nat) : Proc → Bool
  | .running next _ => decide (committed < next)
  | _ => false

/-- Every command the loop has left behind is answered. A restart will leave behind what is below
    some batch end with no event after it. -/
def Proc.Heard (log : List Entry) (committed : Nat) : Proc → Prop
  | .stopped _ | .recovering _ _ _ =>
    ∃ n, committed ≤ n ∧ Boundary log n ∧ QuietBetween log n log.length ∧
      AnsweredBelow log (n + 1)
  | .running next _ => 0 < next ∧ AnsweredBelow log next
  | .committing next _ _ _ => AnsweredBelow log (next + 1)

section heard

variable {log es : List Entry} {committed pos n : Nat} {proc : Proc}

theorem Proc.Heard.extend (heard : proc.Heard log committed) (placed : proc.Placed log committed)
    (new : ∀ e ∈ es, e.event? = none) : proc.Heard (log ++ es) committed := by
  have idle (heard : ∃ n, committed ≤ n ∧ Boundary log n ∧ QuietBetween log n log.length ∧
      AnsweredBelow log (n + 1)) : ∃ n, committed ≤ n ∧ Boundary (log ++ es) n ∧
      QuietBetween (log ++ es) n (log ++ es).length ∧ AnsweredBelow (log ++ es) (n + 1) := by
    obtain ⟨n, above, boundary, quiet, answered⟩ := heard
    have inside := boundary.le
    exact ⟨n, above, boundary.append, quiet.extend new, answered.append (by omega)⟩
  cases proc with
  | stopped => exact idle heard
  | recovering => exact idle heard
  | running next leader =>
    obtain ⟨-, inside, -⟩ := placed
    exact ⟨heard.1, heard.2.append inside⟩
  | committing next leader rows last =>
    obtain ⟨first, answer⟩ := placed
    obtain ⟨ts, closed⟩ := answer.closed
    have inside := (entryAt_eq_some closed).2
    have whole := answer.whole
    have nonempty := answer.nonempty
    exact AnsweredBelow.append heard (by omega)

/-- Recovery commits no further than the last batch end that has an event before it. -/
theorem Reading.commits_below {b e} (reading : Reading log s.lastProcessedPosition pos inflight)
    (replayed : Spica.replayEntry b pos e s inflight = some (s', inflight'))
    (above : s.lastProcessedPosition ≤ n) (boundary : Boundary log n)
    (quiet : QuietBetween log n log.length) : s'.lastProcessedPosition ≤ n := by
  unfold Spica.replayEntry at replayed
  split at replayed
  · obtain ⟨rows, -, same⟩ := Option.map_eq_some_iff.mp replayed
    cases same
    exact above
  · split at replayed
    · cases replayed
      exact above
    · cases replayed
      obtain ⟨k, -, below, -, opened, e', first, isEvent⟩ := reading.opened (by simp)
      -- the open batch starts with an event, so before `n`, and holds no Noop yet
      have inside := (entryAt_eq_some first).2
      have early : k + 1 ≤ n := by
        by_contra late
        exact isEvent (quiet (k + 1) e' (by omega) inside first)
      by_contra past
      have past : n < pos := Nat.lt_of_not_le past
      rcases boundary with zero | ⟨e', found, noop⟩
      · omega
      · have := opened n e' (by omega) (by omega) found
        simp [noop] at this
  all_goals
    cases replayed
    exact above

end heard

namespace World

variable {env : Env} {w w' : World} {a : Action}

def Heard (w : World) : Prop := w.proc.Heard w.log w.storage.lastProcessedPosition

theorem init_heard : init.Heard :=
  ⟨0, le_rfl, .inl rfl, .empty (by simp [init]), fun p e _ found => by
    have := entryAt_eq_some found
    simp [init] at this
    omega⟩

/-- A safe stop leaves behind only what is answered. -/
theorem Heard.stop (heard : w.Heard) (placed : w.Placed) (safe : w.StopSafe)
    (live : ∀ definitions, w.proc ≠ .stopped definitions) :
    (Proc.stopped definitions).Heard w.log w.storage.lastProcessedPosition := by
  have spot := placed.proc
  unfold Heard at heard
  cases here : w.proc with
  | stopped d => exact absurd here (live d)
  | recovering =>
    rw [here] at heard
    exact heard
  | running next leader =>
    rw [here] at heard spot
    obtain ⟨positive, answered⟩ := heard
    obtain ⟨next, rfl⟩ : ∃ n, next = n + 1 := ⟨next - 1, by omega⟩
    exact ⟨_, le_rfl, placed.boundary, spot.2.2, answered.extend (safe.running _ _ here)⟩
  | committing next leader rows last =>
    have safe := safe.committing next leader rows last here
    rw [here] at heard spot
    obtain ⟨first, answer⟩ := spot
    obtain ⟨ts, closed⟩ := answer.closed
    have above := answer.above
    have nonempty := answer.nonempty
    by_cases quiet : QuietBetween w.log w.storage.lastProcessedPosition last
    · exact ⟨_, le_rfl, placed.boundary, quiet.trans answer.rest,
        AnsweredBelow.extend heard (safe.1 quiet)⟩
    · exact ⟨last, by omega, .inr ⟨_, closed, rfl⟩, answer.rest,
        AnsweredBelow.extend heard (safe.2 quiet)⟩

theorem Heard.step (heard : w.Heard) (placed : w.Placed) (safe : a = .stop → w.StopSafe)
    (moved : World.step env w a = some w') : w'.Heard := by
  have heard' := heard
  unfold Heard at heard
  cases step_inv moved with
  | clientAppend => exact heard.extend placed.proc (by simp [Entry.event?])
  | boot here =>
    rw [here] at heard
    exact heard
  | recovered here =>
    rw [here] at heard
    obtain ⟨n, above, -, -, answered⟩ := heard
    exact ⟨Nat.succ_pos _, answered.mono (Nat.succ_le_succ above)⟩
  | recover here entry replayed =>
    have reading := placed.proc
    rw [here] at heard reading
    obtain ⟨n, above, boundary, quiet, answered⟩ := heard
    exact ⟨n, Reading.commits_below reading replayed above boundary quiet, boundary, quiet,
      answered⟩
  | @dispatch d next _ _ _ _ _ _ here entry decided =>
    rw [here] at heard
    exact AnsweredBelow.answer heard.2 (entryAt_eq_some entry).2
      ⟨⟨some next, d.noopAt, .noop⟩, by simp [Produced.batch], rfl⟩
  | @skip next leader e here entry passed =>
    rw [here] at heard
    obtain ⟨positive, answered⟩ := heard
    obtain ⟨next, rfl⟩ : ∃ n, next = n + 1 := ⟨next - 1, by omega⟩
    refine ⟨Nat.succ_pos _, answered.extend (Between.succ (.empty le_rfl) fun e' found => ?_)⟩
    rw [entry] at found
    cases found
    exact passed
  | commit here =>
    rw [here] at heard
    exact ⟨Nat.succ_pos _, heard⟩
  | stop live => exact heard'.stop placed (safe rfl) live
  | follow => exact heard
  | followerRestart => exact heard

/-- Wherever the leader's loop runs, every command is answered already or still ahead of it, if
    every stop of the run was safe. The loop passes no command without answering it. -/
theorem no_command_lost
    (run : Run.Reach (World.step env) (fun w a => a = .stop → w.StopSafe) init w) {p next : Nat}
    {e : Entry} (command : entryAt w.log p = some e) (isCommand : e.isCommand = true)
    (reads : w.proc.reads = some next) : Answered w.log p ∨ next ≤ p := by
  have kept : w.Placed ∧ w.Heard :=
    run.keeps (I := fun w => w.Placed ∧ w.Heard)
      (fun _ _ _ kept safe moved => ⟨kept.1.step moved, kept.2.step kept.1 safe moved⟩)
      ⟨init_placed, init_heard⟩
  have heard := kept.2
  unfold Heard at heard
  by_cases ahead : next ≤ p
  · exact .inr ahead
  · refine .inl ?_
    cases here : w.proc with
    | stopped | recovering => simp [here, Proc.reads] at reads
    | running n leader =>
      rw [here] at heard reads
      cases reads
      exact heard.2 p e (by omega) command isCommand
    | committing n leader rows last =>
      rw [here] at heard reads
      cases reads
      exact heard p e (by omega) command isCommand

/-- Stopping an idle loop, which has read all it has committed, is safe. -/
theorem stopSafe_of_idle (idle : w.proc.isIdle w.storage.lastProcessedPosition = true) :
    w.StopSafe := by
  constructor
  · intro next leader here
    simp only [here, Proc.isIdle, decide_eq_true_eq] at idle
    exact .empty (by omega)
  · intro next leader rows last here
    simp [here, Proc.isIdle] at idle

/-- One flow is created, and the leader reads its own answer to the end. -/
def idleActions : List Action := appends [createFlow] ++ (starts 2 ++ leads 6)

def idle : World := after true (single pass) idleActions

theorem idleActions_calm : Calm idleActions :=
  (appends_calm _).append ((starts_calm _).append (leads_calm _))

theorem idle_reach (good : ∀ w, ∀ a ∈ idleActions, ok w a) :
    Run.Reach (World.step (host true (single pass))) ok init idle := reach_after good

/-- Then it stops and starts again. -/
def restarted : World :=
  Run.script (World.step (host true (single pass))) idle (.stop :: starts 8)

theorem restarted_reach : Run.Reach (World.step (host true (single pass)))
    (fun w a => a = .stop → w.StopSafe) init restarted := by
  have first : ∀ w : World, ∀ a ∈ idleActions, a = .stop → w.StopSafe := by
    rintro w a member rfl
    unfold idleActions at member
    rcases List.mem_append.mp member with member | member
    · exact absurd member appends_no_stop
    rcases List.mem_append.mp member with member | member
    · exact absurd member starts_no_stop
    · exact absurd member leads_no_stop
  have second : ∀ w : World, ∀ a ∈ starts 8, a = .stop → w.StopSafe := by
    rintro w a member rfl
    exact absurd member starts_no_stop
  have safe : idle.StopSafe := stopSafe_of_idle (by decide +kernel)
  unfold restarted
  exact (idle_reach first).trans (Run.reach_script_cons (fun _ => safe) second)

theorem no_command_lost_restart : ∃ e, entryAt restarted.log 1 = some e ∧ e.isCommand = true ∧
    restarted.proc.reads = some 6 ∧ (Answered restarted.log 1 ∨ 6 ≤ 1) := by
  obtain ⟨e, found, isCommand⟩ : ∃ e, entryAt restarted.log 1 = some e ∧ e.isCommand = true :=
    (Option.any_eq_true _ _).mp (by decide +kernel)
  have reads : restarted.proc.reads = some 6 := by decide +kernel
  exact ⟨e, found, isCommand, reads, no_command_lost restarted_reach found isCommand reads⟩

/-! Two clients append before the leader answers either of them. The answer to the first is
committed behind the second command, and the leader stops. -/

def twoFlows : List Command :=
  [createFlow, .createFlow ⟨.nil, ⟨"other", by decide⟩, "definition"⟩]

def stoppedEarly : List Action :=
  appends twoFlows ++ starts 4 ++ [.dispatch decision, .commit, .stop] ++ starts 8

theorem command_lost :
    ∃ w, Run.Reach (World.step (host true (single pass))) (fun _ _ => True) init w ∧
      (∃ e, entryAt w.log 3 = some e ∧ e.isCommand = true) ∧ ¬ Answered w.log 3 ∧
      3 ≤ w.storage.lastProcessedPosition ∧ w.proc.reads = some 8 := by
  refine ⟨after true (single pass) stoppedEarly, Run.reach_script fun _ _ _ => trivial, ?_,
    by decide +kernel, by decide +kernel, by decide +kernel⟩
  exact (Option.any_eq_true _ _).mp (by decide +kernel)

end World

/-! ## No command is decided twice -/

/-- The batches of a log whose entries answer the command at the position. -/
def batchesFor (log : List Entry) (p : Nat) : List (List Entry) :=
  (segments Entry.isNoop log).filter fun batch => Answered batch p

section batches

variable {log es : List Entry} {e : Entry} {p : Nat}

theorem batchesFor_eq_nil (unanswered : ¬ Answered log p) : batchesFor log p = [] := by
  unfold batchesFor
  rw [List.filter_eq_nil_iff]
  intro batch member answers
  obtain ⟨e, inside, cause⟩ := of_decide_eq_true answers
  exact unanswered ⟨e, mem_segments member inside, cause⟩

/-- Appending one batch adds it to the batches of the commands it answers. -/
theorem batchesFor_append (ended : Boundary log log.length)
    (opens : ∀ x ∈ es, x.isNoop = false) (closed : e.isNoop = true) :
    batchesFor (log ++ (es ++ [e])) p =
      batchesFor log p ++ if Answered (es ++ [e]) p then [es ++ [e]] else [] := by
  have ends : ∀ x ∈ log.getLast?, x.isNoop = true := by
    intro x last
    rcases ended with empty | ⟨y, found, noop⟩
    · simp [List.length_eq_zero_iff.mp empty] at last
    · have positive := (entryAt_eq_some found).1
      rw [List.getLast?_eq_getElem?] at last
      simp only [entryAt, positive.ne', if_false] at found
      rw [found] at last
      cases last
      exact noop
  unfold batchesFor
  rw [segments_append ends, segments_single opens closed, List.filter_append]
  simp only [List.filter_cons, List.filter_nil, decide_eq_true_eq]

end batches

/-- A restart from here reads no answered command again: the batch being committed holds an event,
    so that recovery commits it, or answers a command that is committed over already. -/
structure World.StopDecided (w : World) : Prop where
  committing : ∀ next leader rows last, w.proc = .committing next leader rows last →
    next ≤ w.storage.lastProcessedPosition ∨
      ¬ QuietBetween w.log w.storage.lastProcessedPosition last

/-- Every answered command is behind the loop, and behind where a restart would resume. -/
def Proc.Decided (log : List Entry) (committed : Nat) : Proc → Prop
  | .stopped _ | .recovering _ _ _ => ∀ p, Answered log p →
      p ≤ committed ∨ ∃ q e, p < q ∧ entryAt log q = some e ∧ e.event? ≠ none
  | .running next _ => ∀ p, Answered log p → p ≤ committed ∧ p < next
  | .committing next _ _ _ => ∀ p, Answered log p → p = next ∨ (p ≤ committed ∧ p < next)

structure World.Decided (w : World) : Prop where
  once : ∀ p, (batchesFor w.log p).length ≤ 1
  behind : w.proc.Decided w.log w.storage.lastProcessedPosition

section decided

variable {log es : List Entry} {committed : Nat} {proc : Proc}

theorem answered_append {p} : Answered (log ++ es) p ↔ Answered log p ∨ Answered es p := by
  unfold Answered
  simp only [List.mem_append, or_and_right, exists_or]

/-- A client's append answers nothing. -/
theorem Proc.Decided.extend (decided : proc.Decided log committed)
    (new : ∀ p, ¬ Answered es p) : proc.Decided (log ++ es) committed := by
  have old (p : Nat) (answered : Answered (log ++ es) p) : Answered log p :=
    (answered_append.mp answered).resolve_right (new p)
  have idle (decided : ∀ p, Answered log p →
      p ≤ committed ∨ ∃ q e, p < q ∧ entryAt log q = some e ∧ e.event? ≠ none) (p : Nat)
      (answered : Answered (log ++ es) p) : p ≤ committed ∨
      ∃ q e, p < q ∧ entryAt (log ++ es) q = some e ∧ e.event? ≠ none := by
    rcases decided p (old p answered) with below | ⟨q, e, later, found, isEvent⟩
    · exact .inl below
    · exact .inr ⟨q, e, later, by rw [entryAt_append (entryAt_eq_some found).2, found], isEvent⟩
  cases proc with
  | stopped => exact idle decided
  | recovering => exact idle decided
  | running | committing => exact fun p answered => decided p (old p answered)

/-- Recovery never moves the committed position back. -/
theorem Reading.committed_mono {b e pos}
    (reading : Reading log s.lastProcessedPosition pos inflight)
    (replayed : Spica.replayEntry b pos e s inflight = some (s', inflight')) :
    s.lastProcessedPosition ≤ s'.lastProcessedPosition := by
  unfold Spica.replayEntry at replayed
  split at replayed
  · obtain ⟨rows, -, same⟩ := Option.map_eq_some_iff.mp replayed
    cases same
    exact le_rfl
  · split at replayed
    · cases replayed
      exact le_rfl
    · cases replayed
      exact reading.above.le
  all_goals
    cases replayed
    exact le_rfl

end decided

namespace World

variable {env : Env} {w w' : World} {a : Action}

theorem committed_mono (placed : w.Placed) (moved : World.step env w a = some w') :
    w.storage.lastProcessedPosition ≤ w'.storage.lastProcessedPosition := by
  cases step_inv moved with
  | recover here _ replayed =>
    have reading := placed.proc
    rw [here] at reading
    exact Reading.committed_mono reading replayed
  | commit here =>
    have answer := placed.proc
    rw [here] at answer
    obtain ⟨first, answer⟩ := answer
    have above := answer.above
    have nonempty := answer.nonempty
    show w.storage.lastProcessedPosition ≤ _
    dsimp only [Storage.commit]
    omega
  | _ => exact le_rfl

theorem init_decided : init.Decided where
  once _ := by simp [init, batchesFor, segments]
  behind p answered := by
    obtain ⟨e, member, -⟩ := answered
    simp [init] at member

/-- A stop that loses no decision. -/
theorem Decided.stop (decided : w.Decided) (placed : w.Placed) (safe : w.StopDecided) :
    (Proc.stopped definitions).Decided w.log w.storage.lastProcessedPosition := by
  have behind := decided.behind
  have spot := placed.proc
  intro p answered
  cases here : w.proc with
  | stopped | recovering =>
    rw [here] at behind
    exact behind p answered
  | running =>
    rw [here] at behind
    exact .inl (behind p answered).1
  | committing next leader rows last =>
    rw [here] at behind spot
    rcases behind p answered with rfl | ⟨below, -⟩
    · rcases safe.committing p leader rows last here with below | eventful
      · exact .inl below
      · obtain ⟨first, answer⟩ := spot
        obtain ⟨q, e, above, -, found, isEvent⟩ := Between.exists_of_not eventful
        refine .inr ⟨q, e, ?_, found, isEvent⟩
        by_contra early
        exact isEvent (answer.quiet q e above (by have := answer.whole; omega) found)
    · exact .inl below

theorem Decided.step (decided : w.Decided) (placed : w.Placed)
    (safe : a = .stop → w.StopDecided) (moved : World.step env w a = some w') : w'.Decided := by
  have once := decided.once
  have behind := decided.behind
  cases step_inv moved with
  | @clientAppend c at_ noopAt =>
    have silent (p : Nat) :
        ¬ Answered ([⟨none, at_, .command c⟩] ++ [⟨none, noopAt, .noop⟩]) p := by
      rintro ⟨e, member, cause⟩
      simp only [List.cons_append, List.nil_append, List.mem_cons, List.not_mem_nil,
        or_false] at member
      rcases member with rfl | rfl <;> cases cause
    refine ⟨fun p => ?_, behind.extend silent⟩
    show (batchesFor (w.log ++ ([⟨none, at_, .command c⟩] ++ [⟨none, noopAt, .noop⟩])) p).length ≤ 1
    rw [batchesFor_append placed.ended (by simp [Entry.isNoop]) rfl, if_neg (silent p),
      List.append_nil]
    exact once p
  | boot here =>
    rw [here] at behind
    exact ⟨once, behind⟩
  | recovered here tail =>
    have reading := placed.proc
    rw [here] at behind reading
    have quiet := Reading.finished reading placed.ended tail
    refine ⟨once, fun p answered => ?_⟩
    rcases behind p answered with below | ⟨q, e, later, found, isEvent⟩
    · exact ⟨below, Nat.lt_succ_of_le below⟩
    · have committed : q ≤ w.storage.lastProcessedPosition := by
        by_contra above
        exact isEvent (quiet q e (by omega) (entryAt_eq_some found).2 found)
      exact ⟨later.le.trans committed, Nat.lt_succ_of_le (later.le.trans committed)⟩
  | recover here entry replayed =>
    have reading := placed.proc
    rw [here] at behind reading
    have mono := Reading.committed_mono reading replayed
    refine ⟨once, fun p answered => ?_⟩
    rcases behind p answered with below | later
    · exact .inl (below.trans mono)
    · exact .inr later
  | @dispatch d next _ _ _ _ produced _ here entry decided =>
    rw [here] at behind
    have sound := processCommand_sound decided
    have fresh : ¬ Answered w.log next := fun answered => (behind next answered).2.ne rfl
    have answers (p : Nat) (answered : Answered (produced.batch next d.noopAt) p) : p = next := by
      obtain ⟨e, member, cause⟩ := answered
      rcases List.mem_append.mp member with member | member
      · rw [(sound.answers e member).1] at cause
        exact (Option.some.inj cause).symm
      · rw [List.mem_singleton.mp member] at cause
        exact (Option.some.inj cause).symm
    constructor
    · intro p
      show (batchesFor (w.log ++ (produced.entries ++ [_])) p).length ≤ 1
      rw [batchesFor_append placed.ended (fun e member => (sound.answers e member).2) rfl]
      split
      case isTrue answered =>
        rw [answers p answered, batchesFor_eq_nil fresh]
        simp
      case isFalse =>
        rw [List.append_nil]
        exact once p
    · intro p answered
      rcases answered_append.mp answered with old | new
      · exact .inr (behind p old)
      · exact .inl (answers p new)
  | skip here =>
    rw [here] at behind
    exact ⟨once, fun p answered =>
      ⟨(behind p answered).1, Nat.lt_succ_of_lt (behind p answered).2⟩⟩
  | @commit next leader rows last here =>
    have spot := placed.proc
    rw [here] at behind spot
    obtain ⟨first, answer⟩ := spot
    have above := answer.above
    have whole := answer.whole
    have nonempty := answer.nonempty
    refine ⟨once, fun p answered => ?_⟩
    rcases behind p answered with rfl | ⟨below, early⟩
    · exact ⟨show p ≤ last by omega, Nat.lt_succ_self p⟩
    · exact ⟨show p ≤ last by omega, Nat.lt_succ_of_lt early⟩
  | stop => exact ⟨once, decided.stop placed (safe rfl)⟩
  | follow => exact ⟨once, behind⟩
  | followerRestart => exact ⟨once, behind⟩

/-- At most one batch answers a command, if every stop of the run kept the decision it
    interrupted. -/
theorem no_command_decided_twice
    (run : Run.Reach (World.step env) (fun w a => a = .stop → w.StopDecided) init w) (p : Nat) :
    (batchesFor w.log p).length ≤ 1 := by
  have kept : w.Placed ∧ w.Decided :=
    run.keeps (I := fun w => w.Placed ∧ w.Decided)
      (fun _ _ _ kept safe moved => ⟨kept.1.step moved, kept.2.step kept.1 safe moved⟩)
      ⟨init_placed, init_decided⟩
  exact kept.2.once p

/-- An event above the committed position belongs to the batch being committed. -/
theorem stopDecided_of_event (placed : w.Placed) {n e}
    (above : w.storage.lastProcessedPosition < n) (found : entryAt w.log n = some e)
    (isEvent : e.event? ≠ none) : w.StopDecided := by
  constructor
  intro next leader rows last here
  have spot := placed.proc
  rw [here] at spot
  obtain ⟨first, answer⟩ := spot
  refine .inr fun quiet => isEvent ?_
  exact quiet.trans answer.rest n e above (entryAt_eq_some found).2 found

/-- The answer to a flow's creation is appended but not committed. -/
def appendedActions : List Action := appends [createFlow] ++ (starts 2 ++ [.dispatch decision])

def appended : World := after true (single pass) appendedActions

theorem appended_reach (good : ∀ w a, a ≠ .stop → ok w a) :
    Run.Reach (World.step (host true (single pass))) ok init appended := by
  refine reach_after fun w a member => good w a ?_
  rintro rfl
  unfold appendedActions at member
  rcases List.mem_append.mp member with member | member
  · exact absurd member appends_no_stop
  rcases List.mem_append.mp member with member | member
  · exact absurd member starts_no_stop
  · simp at member

/-- The leader stops there, starts again, recovers the batch and reads on. -/
def recovered : World :=
  Run.script (World.step (host true (single pass))) appended (.stop :: (starts 8 ++ leads 3))

theorem no_command_decided_twice_recovered :
    Answered recovered.log 1 ∧ (batchesFor recovered.log 1).length ≤ 1 := by
  have rest : ∀ w : World, ∀ a ∈ starts 8 ++ leads 3, a = .stop → w.StopDecided := by
    rintro w a member rfl
    rcases List.mem_append.mp member with member | member
    · exact absurd member starts_no_stop
    · exact absurd member leads_no_stop
  obtain ⟨e, found, isEvent⟩ : ∃ e, entryAt appended.log 3 = some e ∧ e.event?.isSome = true :=
    (Option.any_eq_true _ _).mp (by decide +kernel)
  have toAppended : Run.Reach (World.step (host true (single pass)))
      (fun w a => a = .stop → w.StopDecided) init appended :=
    appended_reach fun _ _ other isStop => absurd isStop other
  have safe : appended.StopDecided :=
    stopDecided_of_event (Placed.reach toAppended) (by decide +kernel) found
      (Option.isSome_iff_ne_none.mp isEvent)
  have run : Run.Reach (World.step (host true (single pass)))
      (fun w a => a = .stop → w.StopDecided) init recovered := by
    unfold recovered
    exact toAppended.trans (Run.reach_script_cons (fun _ => safe) rest)
  exact ⟨by decide +kernel, no_command_decided_twice run 1⟩

/-! An execution of a flow that does not exist is refused by a batch of one rejection. The leader
stops before committing it, and the restarted leader refuses the command again. -/

def refusedTwice : List Action :=
  appends [createExecution exec] ++
    (starts 2 ++ [.dispatch decision, .stop] ++ starts 4 ++ [.dispatch decision])

theorem command_decided_twice :
    ∃ w, Run.Reach (World.step (host true (single pass))) (fun _ _ => True) init w ∧
      (batchesFor w.log 1).length = 2 :=
  ⟨after true (single pass) refusedTwice, Run.reach_script fun _ _ _ => trivial,
    by decide +kernel⟩

end World

end Spica
