import Spica.Answers

/-! # The envelope of the log

What two writers append to one log stream. A client appends a command, which the stream closes
with a Noop; the leader appends the answer to the command it has read, closed by a Noop that
carries the same cause. Over a run in which the leader is not stopped, the log can be cut into
these pairs and batches in one way only, and the batches answer the commands in log order.
-/

namespace Spica

open Log Scenario

/-! ## The log stream -/

/-- `InMemoryLogStream`: the entries with the positions they were given. -/
structure LogStream where
  entries : List (Nat × Entry)
  nextEntryId : Nat

namespace LogStream

def new : LogStream := ⟨[], 1⟩

def stamp (id : Nat) : List Entry → List (Nat × Entry)
  | [] => []
  | e :: es => (id, e) :: stamp (id + 1) es

/-- All entries at once, from the next position on; the last position they get is returned. -/
def append (s : LogStream) (es : List Entry) : LogStream × Nat :=
  (⟨s.entries ++ stamp s.nextEntryId es, s.nextEntryId + es.length⟩, s.nextEntryId + es.length - 1)

/-- What `NoopTerminatedLogStream` hands on to be appended: the leader's batches as they are, a
    bare command with a Noop. -/
def terminated (now : Timestamp) (es : List Entry) : List Entry :=
  if es.getLast?.any (·.isNoop) then es else es ++ [⟨none, now, .noop⟩]

/-- The stream holds the entries of a log, at the positions 1, 2, 3 and so on. -/
structure Holds (s : LogStream) (log : List Entry) : Prop where
  entries : s.entries = stamp 1 log
  next : s.nextEntryId = log.length + 1

variable {s : LogStream} {log es : List Entry}

theorem stamp_append (id : Nat) (xs ys : List Entry) :
    stamp id (xs ++ ys) = stamp id xs ++ stamp (id + xs.length) ys := by
  induction xs generalizing id with
  | nil => rfl
  | cons x xs ih =>
    simp only [List.cons_append, stamp, ih, List.length_cons]
    rw [Nat.add_assoc, Nat.add_comm 1]

theorem stamp_positions (id : Nat) (xs : List Entry) :
    (stamp id xs).map Prod.fst = List.range' id xs.length ∧ (stamp id xs).map Prod.snd = xs := by
  induction xs generalizing id with
  | nil => exact ⟨rfl, rfl⟩
  | cons x xs ih => simp [stamp, ih, List.range'_succ]

/-- The stream after the given appends. -/
def ofAppends (ss : List (List Entry)) : LogStream := ss.foldl (fun s es => (s.append es).1) new

theorem new_holds : new.Holds [] := ⟨rfl, rfl⟩

theorem Holds.append (holds : s.Holds log) : (s.append es).1.Holds (log ++ es) where
  entries := by
    rw [stamp_append, ← holds.entries, Nat.add_comm 1, ← holds.next]
    rfl
  next := by
    show s.nextEntryId + es.length = _
    rw [holds.next, List.length_append]
    omega

end LogStream

/-! ## Pairs and batches -/

/-- A client's command as the stream closes it. -/
def ClientPair (s : List Entry) : Prop :=
  ∃ c at_ noopAt, s = LogStream.terminated noopAt [⟨none, at_, .command c⟩]

/-- Entries with one cause, the last of which is the only Noop. -/
def LeaderBatch (cause : Nat) (s : List Entry) : Prop :=
  ∃ es noopAt, es ≠ [] ∧ (∀ e ∈ es, e.Answers cause) ∧ s = es ++ [⟨some cause, noopAt, .noop⟩]

/-- A cut of the log into what was appended. -/
structure Envelope (log : List Entry) (ss : List (List Entry)) : Prop where
  whole : ss.flatten = log
  shapes : ∀ s ∈ ss, ClientPair s ∨ ∃ cause, LeaderBatch cause s

/-- The cause of an appended batch. -/
def batchCause (s : List Entry) : Option Nat := s.head?.bind (·.causeId)

variable {log : List Entry} {s : List Entry} {ss ss' : List (List Entry)} {cause : Nat}

theorem ClientPair.no_cause (pair : ClientPair s) : batchCause s = none := by
  obtain ⟨c, at_, noopAt, rfl⟩ := pair
  rfl

theorem LeaderBatch.has_cause (batch : LeaderBatch cause s) : batchCause s = some cause := by
  obtain ⟨es, noopAt, filled, answers, rfl⟩ := batch
  cases es with
  | nil => exact absurd rfl filled
  | cons e es => exact (answers e List.mem_cons_self).1

/-- There is one way to cut a log. -/
theorem Envelope.unique (one : Envelope log ss) (other : Envelope log ss') : ss' = ss := by
  have cut {ss : List (List Entry)} (envelope : Envelope log ss) :
      segments (·.isNoop) log = ss := by
    rw [← envelope.whole]
    refine segments_flatten fun s member => ?_
    rcases envelope.shapes s member with ⟨c, at_, noopAt, rfl⟩ | ⟨cause, es, noopAt, -, answers, rfl⟩
    · refine ⟨[⟨none, at_, .command c⟩], ⟨none, noopAt, .noop⟩, rfl, rfl, ?_⟩
      intro x only
      cases List.mem_singleton.mp only
      rfl
    · exact ⟨es, _, rfl, rfl, fun e member => (answers e member).2⟩
  rw [← cut one, cut other]

/-- The cut of a log into pairs and batches, with the batches answering commands before them, in
    log order. -/
structure Enveloped (log : List Entry) (ss : List (List Entry)) : Prop where
  envelope : Envelope log ss
  /-- appending the pieces one after the other fills the positions from 1 on -/
  stream : (LogStream.ofAppends ss).Holds log
  ordered : (ss.filterMap batchCause).Pairwise (· < ·)
  commands : ∀ before s after cause, ss = before ++ s :: after → LeaderBatch cause s →
    cause ≤ before.flatten.length ∧ ∃ e, entryAt log cause = some e ∧ e.isCommand = true

theorem Enveloped.empty : Enveloped [] [] where
  envelope := ⟨rfl, by simp⟩
  stream := LogStream.new_holds
  ordered := .nil
  commands := by
    intro before s after cause split
    simp at split

theorem Enveloped.append (enveloped : Enveloped log ss)
    (shape : ClientPair s ∨ ∃ cause, LeaderBatch cause s)
    (later : ∀ cause, LeaderBatch cause s → ∀ c ∈ ss.filterMap batchCause, c < cause)
    (command : ∀ cause, LeaderBatch cause s →
      ∃ e, entryAt log cause = some e ∧ e.isCommand = true) :
    Enveloped (log ++ s) (ss ++ [s]) where
  envelope := by
    refine ⟨by simp [enveloped.envelope.whole], fun t member => ?_⟩
    rcases List.mem_append.mp member with old | new
    · exact enveloped.envelope.shapes t old
    · cases List.mem_singleton.mp new
      exact shape
  stream := by
    unfold LogStream.ofAppends
    rw [List.foldl_append]
    exact enveloped.stream.append
  ordered := by
    rw [List.filterMap_append]
    refine List.pairwise_append.mpr ⟨enveloped.ordered, ?_, ?_⟩
    · cases h : batchCause s <;> simp [h]
    · intro c old c' new
      obtain ⟨t, member, is⟩ := List.mem_filterMap.mp new
      cases List.mem_singleton.mp member
      rcases shape with pair | ⟨cause, batch⟩
      · rw [pair.no_cause] at is
        cases is
      · rw [batch.has_cause] at is
        cases is
        exact later _ batch c old
  commands := by
    intro before t after cause split batch
    rcases List.eq_nil_or_concat after with rfl | ⟨after, last, rfl⟩
    · obtain ⟨rfl, last⟩ := List.append_inj' split rfl
      cases last
      obtain ⟨e, entry, isCommand⟩ := command cause batch
      have inside := (entryAt_eq_some entry).2
      rw [enveloped.envelope.whole]
      exact ⟨inside, e, by rw [entryAt_append inside, entry], isCommand⟩
    · rw [List.concat_eq_append, ← List.cons_append, ← List.append_assoc] at split
      obtain ⟨rfl, -⟩ := List.append_inj' split rfl
      obtain ⟨below, e, entry, isCommand⟩ := enveloped.commands before t after cause rfl batch
      exact ⟨below, e, by rw [entryAt_append (entryAt_eq_some entry).2, entry], isCommand⟩

/-! ## Runs without a stop -/

/-- How far the batches so far have got with answering. -/
def Proc.Answering (ss : List (List Entry)) : Proc → Prop
  | .stopped _ | .recovering _ _ _ => ss.filterMap batchCause = []
  | .running next _ => ∀ c ∈ ss.filterMap batchCause, c < next
  | .committing next _ _ _ => ∀ c ∈ ss.filterMap batchCause, c ≤ next

namespace World

variable {env : Env} {w w' : World} {a : Action}

/-- The log is cut, and its batches answer what the leader has read. -/
def CutUp (w : World) : Prop := ∃ ss, Enveloped w.log ss ∧ w.proc.Answering ss

theorem CutUp.step (cut : w.CutUp) (going : a ≠ .stop) (moved : World.step env w a = some w') :
    w'.CutUp := by
  obtain ⟨ss, enveloped, answering⟩ := cut
  cases step_inv moved with
  | @clientAppend c at_ noopAt client =>
    let appended : List Entry := [⟨none, at_, .command c⟩, ⟨none, noopAt, .noop⟩]
    have pair : ClientPair appended := ⟨c, at_, noopAt, rfl⟩
    have causes : (ss ++ [appended]).filterMap batchCause = ss.filterMap batchCause := by
      rw [List.filterMap_append]
      exact List.append_nil _
    have noBatch {cause : Nat} (batch : LeaderBatch cause appended) : False := by
      have := batch.has_cause
      rw [pair.no_cause] at this
      cases this
    refine ⟨_, enveloped.append (.inl pair) (fun _ batch => (noBatch batch).elim)
      fun _ batch => (noBatch batch).elim, ?_⟩
    cases here : w.proc with
    | stopped | recovering | running | committing =>
      rw [here] at answering
      unfold Proc.Answering at answering ⊢
      rw [causes]
      exact answering
  | boot here =>
    rw [here] at answering
    exact ⟨ss, enveloped, answering⟩
  | recovered here =>
    rw [here] at answering
    have none : ss.filterMap batchCause = [] := answering
    refine ⟨ss, enveloped, fun c answered => ?_⟩
    rw [none] at answered
    cases answered
  | recover here =>
    rw [here] at answering
    exact ⟨ss, enveloped, answering⟩
  | @dispatch d next _ cause ts c produced _ here entry decided =>
    rw [here] at answering
    have sound := processCommand_sound decided
    have batch : LeaderBatch next (produced.batch next d.noopAt) :=
      ⟨produced.entries, d.noopAt, sound.nonempty, sound.answers, rfl⟩
    have only {other : Nat} (it : LeaderBatch other (produced.batch next d.noopAt)) :
        other = next := Option.some.inj (it.has_cause.symm.trans batch.has_cause)
    refine ⟨_, enveloped.append (.inr ⟨next, batch⟩) (fun other it => ?_) (fun other it => ?_), ?_⟩
    · rw [only it]
      exact answering
    · rw [only it]
      exact ⟨_, entry, rfl⟩
    · intro other answered
      rw [List.filterMap_append] at answered
      rcases List.mem_append.mp answered with old | new
      · exact (answering other old).le
      · obtain ⟨s, member, is⟩ := List.mem_filterMap.mp new
        cases List.mem_singleton.mp member
        rw [batch.has_cause] at is
        cases is
        exact le_rfl
  | skip here =>
    rw [here] at answering
    exact ⟨ss, enveloped, fun c answered => Nat.lt_succ_of_lt (answering c answered)⟩
  | commit here =>
    rw [here] at answering
    exact ⟨ss, enveloped, fun c answered => Nat.lt_succ_of_le (answering c answered)⟩
  | stop => exact absurd rfl going
  | follow => exact ⟨ss, enveloped, answering⟩
  | followerRestart => exact ⟨ss, enveloped, answering⟩

/-- The log keeps its envelope, whatever fails, as long as the leader is not restarted. -/
theorem log_enveloped (run : Run.Reach (World.step env) (fun _ a => a ≠ .stop) init w) :
    ∃ ss, Enveloped w.log ss ∧ (∀ ss', Envelope w.log ss' → ss' = ss) ∧
      (LogStream.ofAppends ss).entries.map Prod.fst = List.range' 1 w.log.length := by
  have cut : w.CutUp := run.keeps (fun _ _ _ cut going moved => cut.step going moved)
    ⟨[], Enveloped.empty, rfl⟩
  obtain ⟨ss, enveloped, -⟩ := cut
  refine ⟨ss, enveloped, fun ss' other => enveloped.envelope.unique other, ?_⟩
  rw [enveloped.stream.entries]
  exact (LogStream.stamp_positions 1 w.log).1

/-- The log of one execution run to its end. -/
theorem log_enveloped_pass :
    (after true (single pass) oneExecution).log.length = 26 ∧
      ∃ ss, Enveloped (after true (single pass) oneExecution).log ss ∧
        (∀ ss', Envelope (after true (single pass) oneExecution).log ss' → ss' = ss) ∧
        (LogStream.ofAppends ss).entries.map Prod.fst =
          List.range' 1 (after true (single pass) oneExecution).log.length := by
  refine ⟨by decide +kernel, log_enveloped (reach_after fun _ a member => ?_)⟩
  rintro rfl
  simp only [oneExecution, List.mem_append] at member
  rcases member with (member | member) | member
  · exact appends_no_stop member
  · exact starts_no_stop member
  · exact leads_no_stop member

end World

end Spica
