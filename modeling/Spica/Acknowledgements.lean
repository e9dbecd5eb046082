import Spica.Calls

/-! # Whose outcome a call is told

An entry that names a request answers a command that carries it, and the commands that carry one
are those of calls. So where no two calls share an identity, and none has the nil one, which the
leader puts on the rejections of its own commands, whatever the hook hears of under an identity is
the outcome of the one call with that identity.
-/

namespace Spica

open Log Scenario

variable {ev : Event} {e : Entry} {r : Reject} {log : List Entry} {id : RequestId} {next : Nat}
    {leader : Leader} {at_ noopAt : Timestamp} {rows : Projection} {request : Request}

/-! ## Entries that name a request -/

theorem Command.Acks.requestId {c : Command} (acks : c.Acks ev) : c.requestId = ev.requestId := by
  cases c <;> cases ev <;> first | exact acks.elim | exact congrArg some (Eq.symm acks)

theorem Entry.names_of_event (isEvent : e.event? = some ev) :
    e.requestId = ev.requestId ∧ e.isCommand = false := by
  obtain ⟨cause, at_, payload⟩ := e
  cases payload with
  | event => cases isEvent; exact ⟨rfl, rfl⟩
  | command | reject | noop => cases isEvent

theorem Entry.names_of_reject (isReject : e.reject? = some r) :
    e.requestId = some r.requestId ∧ e.isCommand = false := by
  obtain ⟨cause, at_, payload⟩ := e
  cases payload with
  | reject => cases isReject; exact ⟨rfl, rfl⟩
  | command | event | noop => cases isReject

/-- What an entry that names a request is to the log. -/
inductive Echoes (log : List Entry) (e : Entry) : Prop
  | unnamed (names : e.requestId = none)
  | client (first : e.causeId = none) (isCommand : e.isCommand = true)
  | tells {p : Nat} {asked : Entry} {c : Command} {ev : Event} (cause : e.causeId = some p)
      (found : entryAt log p = some asked) (isCommand : asked.payload = .command c)
      (isEvent : e.event? = some ev) (acks : c.Acks ev)
  | refuses {p : Nat} {asked : Entry} {c : Command} {r : Reject} (cause : e.causeId = some p)
      (found : entryAt log p = some asked) (isCommand : asked.payload = .command c)
      (isReject : e.reject? = some r) (own : r.requestId = c.requestId.getD .nil)

theorem Echoes.append (echoes : Echoes log e) (es : List Entry) : Echoes (log ++ es) e := by
  cases echoes with
  | unnamed names => exact .unnamed names
  | client first isCommand => exact .client first isCommand
  | tells cause found isCommand isEvent acks =>
    exact .tells cause (entryAt_extend found es) isCommand isEvent acks
  | refuses cause found isCommand isReject own =>
    exact .refuses cause (entryAt_extend found es) isCommand isReject own

/-- An entry that names a request answers a command that carries it. -/
theorem Echoes.asked (echoes : Echoes log e) (other : e.isCommand = false)
    (names : e.requestId = some id) (real : id ≠ .nil) :
    ∃ p asked c, e.causeId = some p ∧ entryAt log p = some asked ∧ asked.payload = .command c ∧
      c.requestId = some id ∧ ∀ ev, e.event? = some ev → c.Acks ev := by
  obtain ⟨cause, at_, payload⟩ := e
  cases echoes with
  | unnamed silent => cases names.symm.trans silent
  | client _ isCommand => cases other.symm.trans isCommand
  | @tells p asked c ev cause found isCommand isEvent acks =>
    cases payload with
    | event ev' =>
      obtain rfl : ev' = ev := Option.some.inj isEvent
      refine ⟨p, asked, c, cause, found, isCommand, acks.requestId.trans names, ?_⟩
      rintro _ ⟨⟩
      exact acks
    | command | reject | noop => cases isEvent
  | @refuses p asked c r cause found isCommand isReject own =>
    cases payload with
    | reject r' =>
      obtain rfl : r' = r := Option.some.inj isReject
      obtain rfl : r'.requestId = id := Option.some.inj names
      refine ⟨p, asked, c, cause, found, isCommand, ?_, by rintro _ ⟨⟩⟩
      cases carried : c.requestId with
      | none =>
        rw [carried] at own
        exact absurd own real
      | some id =>
        rw [carried] at own
        exact congrArg some own.symm
    | event | command | noop => cases isReject

namespace World

variable {env : Env} {w w' : World} {a : Action}

def Echoing (w : World) : Prop := ∀ e ∈ w.log, Echoes w.log e

theorem Echoing.extend {es} (echoing : w.Echoing) (new : ∀ e ∈ es, Echoes (w.log ++ es) e) :
    ∀ e ∈ w.log ++ es, Echoes (w.log ++ es) e := by
  intro e member
  rcases List.mem_append.mp member with old | added
  · exact (echoing e old).append es
  · exact new e added

/-- The answer to a command names that command's request, or none. -/
theorem answer_echoes {cause ts c produced definitions d}
    (entry : entryAt w.log next = some ⟨cause, ts, .command c⟩)
    (decided : processCommand env next c w.storage.rows leader.definitions d =
      (some produced, definitions)) (es : List Entry) :
    ∀ e ∈ produced.entries, Echoes (w.log ++ es) e := by
  intro e member
  have sound := processCommand_sound decided
  have answers := attemptFrom_answers decided
  have found := entryAt_extend entry es
  split at answers
  · obtain ⟨at_, r, own, rfl⟩ := answers
    obtain rfl := List.mem_singleton.mp member
    exact .refuses rfl found rfl rfl own
  · rcases answers e member with names | ⟨ev, isEvent, acks⟩
    · exact .unnamed names
    · exact .tells (sound.answers e member).1 found rfl isEvent acks

theorem Echoing.step (echoing : w.Echoing) (moved : w.step env a = some w') : w'.Echoing := by
  cases step_inv moved with
  | clientAppend =>
    refine echoing.extend fun e member => ?_
    simp only [List.mem_cons, List.not_mem_nil, or_false] at member
    rcases member with rfl | rfl
    · exact .client rfl rfl
    · exact .unnamed rfl
  | dispatch here entry decided =>
    refine echoing.extend fun e member => ?_
    rcases List.mem_append.mp member with answer | closing
    · exact answer_echoes entry decided _ e answer
    · obtain rfl := List.mem_singleton.mp closing
      exact .unnamed rfl
  | _ => exact echoing

theorem entryAt_clientAppend {command}
    (moved : w.step env (.clientAppend command at_ noopAt) = some w') :
    entryAt w'.log (w.log.length + 1) = some ⟨none, at_, .command command⟩ := by
  cases step_inv moved with
  | clientAppend => exact entryAt_append_right

/-- A command without a cause is new to the log only where a client has appended it. -/
theorem command_appended (moved : w.step env a = some w') {p command}
    (found : entryAt w'.log p = some ⟨none, at_, .command command⟩) :
    entryAt w.log p = some ⟨none, at_, .command command⟩ ∨
      p = w.log.length + 1 ∧ ∃ at_ noopAt, a = .clientAppend command at_ noopAt := by
  cases step_inv moved with
  | clientAppend =>
    rcases entryAt_append_cases found with old | ⟨i, rfl, new⟩
    · exact .inl old
    · rcases i with - | - | i
      · cases new
        exact .inr ⟨rfl, _, _, rfl⟩
      · cases new
      · cases new
  | dispatch here entry decided =>
    rcases entryAt_append_cases found with old | ⟨i, rfl, new⟩
    · exact .inl old
    · rcases List.mem_append.mp (List.mem_of_getElem? new) with answer | closing
      · cases ((processCommand_sound decided).answers _ answer).1
      · cases List.mem_singleton.mp closing
  | _ => exact .inl found

/-- The entry is in a committed batch. -/
def Committed (w : World) (e : Entry) : Prop :=
  ∃ pos, pos ≤ w.storage.lastProcessedPosition ∧ entryAt w.log pos = some e

theorem Committed.step (committed : w.Committed e) (placed : w.Placed)
    (moved : w.step env a = some w') : w'.Committed e := by
  obtain ⟨pos, below, found⟩ := committed
  obtain ⟨es, grown⟩ := log_grows moved
  exact ⟨pos, below.trans (committed_mono placed moved), grown ▸ entryAt_extend found es⟩

theorem Committed.mem (committed : w.Committed e) : e ∈ w.log := by
  obtain ⟨pos, -, found⟩ := committed
  exact mem_of_entryAt found

end World

namespace Observed

variable {env : Env} {o o' : Observed} {a : Action}

/-- Every rejection the hook was told of is in a committed batch. -/
def Refusals (o : Observed) : Prop :=
  ∀ id r, .onCommandRejected id r ∈ o.calls →
    id = r.requestId ∧ ∃ e, o.world.Committed e ∧ e.reject? = some r

theorem onCommandRejected_mem_hookCalls {applied answer}
    (told : .onCommandRejected id r ∈ hookCalls applied answer) :
    id = r.requestId ∧ ∃ e ∈ answer, e.reject? = some r := by
  simp only [hookCalls, List.mem_append, List.mem_map, reduceCtorEq, and_false, exists_false,
    false_or, HookCall.onCommandRejected.injEq, List.mem_filterMap] at told
  obtain ⟨r', ⟨e, member, isReject⟩, rfl, rfl⟩ := told
  exact ⟨rfl, e, member, isReject⟩

/-- Every entry of the answer is in the batch that is being committed. -/
theorem Holds.committed {w produced last} (holds : Holds w produced)
    (here : w.proc = .committing next leader rows last) (member : e ∈ produced) :
    ∃ pos, pos ≤ last ∧ entryAt w.log pos = some e := by
  obtain ⟨first, ts, answer, -, batch⟩ := holds next leader rows last here
  have inside : e ∈ (w.log.take last).drop first := by
    rw [batch]
    exact List.mem_append_left _ member
  obtain ⟨i, found⟩ := List.mem_iff_getElem?.mp (List.mem_of_mem_drop inside)
  have below : i < last := by
    have := (List.getElem?_eq_some_iff.mp found).1
    simp only [List.length_take] at this
    omega
  rw [List.getElem?_take_of_lt below] at found
  exact ⟨i + 1, below, by rw [entryAt_succ, found]⟩

theorem Refusals.step (refusals : o.Refusals) (consistent : o.Consistent)
    (moved : o.step env a = some o') : o'.Refusals := by
  have stepped := step_world moved
  have kept (id : RequestId) (r : Reject) (told : .onCommandRejected id r ∈ o.calls) :
      id = r.requestId ∧ ∃ e, o'.world.Committed e ∧ e.reject? = some r := by
    obtain ⟨own, e, committed, isReject⟩ := refusals id r told
    exact ⟨own, e, committed.step consistent.placed stepped, isReject⟩
  intro id r told
  by_cases commits : a = .commit
  · subst commits
    obtain ⟨w, -, rfl⟩ := Option.map_eq_some_iff.mp moved
    rcases List.mem_append.mp told with old | new
    · exact kept id r old
    · obtain ⟨own, e, member, isReject⟩ := onCommandRejected_mem_hookCalls new
      refine ⟨own, e, ?_, isReject⟩
      cases World.step_inv stepped with
      | commit here => exact consistent.answer.committed here member
  · rw [step_silent commits moved] at told
    exact kept id r told

end Observed

/-! ## The command of a call -/

/-- The command a call appends. -/
def Request.command (id : RequestId) : Request → Command
  | .createFlow name definition => .createFlow ⟨id, name, definition⟩
  | .startForRevision name flowVersion input => .createExecution ⟨id, name, flowVersion, input⟩
  | .pollTasks workerId resource maxTasks leaseSeconds =>
    .claimTasks ⟨id, workerId, resource, maxTasks, leaseSeconds⟩
  | .complete workerId task _ output => .completeTask ⟨id, ⟨task, .nil⟩, workerId, output⟩

theorem Request.command_requestId (id : RequestId) (request : Request) :
    (request.command id).requestId = some id := by
  cases request <;> rfl

/-- What the engine appends for a call is its command; what it answers otherwise is no rejection. -/
theorem Request.submit_cases {env fault} (request : Request) :
    request.submit env rows fault id = .ok (request.command id) ∨
      ∃ e, request.submit env rows fault id = .error e ∧ ∀ r, e ≠ .rejected r := by
  cases request with
  | createFlow name definition =>
    simp only [submit, Engine.createFlow]
    split
    · exact .inr ⟨_, rfl, by simp⟩
    · split
      · exact .inr ⟨_, rfl, by simp⟩
      · split
        · exact .inr ⟨_, rfl, by simp⟩
        · exact .inl rfl
  | startForRevision name flowVersion input =>
    simp only [submit, Engine.createExecution]
    split
    · exact .inr ⟨_, rfl, by simp⟩
    · split
      · exact .inr ⟨_, rfl, by simp⟩
      · exact .inl rfl
  | pollTasks | complete => exact .inl rfl

/-- Only a rejection makes a call return one. -/
theorem Request.rejected_of_result {outcome}
    (given : request.result outcome = some (.error (.rejected r))) : outcome = .rejected r := by
  cases outcome with
  | rejected reject =>
    cases given
    rfl
  | granted tasks => cases request <;> cases given
  | applied event => cases request <;> cases event <;> cases given

/-- An event that tells the outcome of a call resolves what the call awaits. -/
theorem Request.target_of_acks {target} (acks : (request.command id).Acks ev)
    (resolved : AckHook.resolves ev = some (id, target)) : request.target = target := by
  cases request <;> cases ev <;> first | exact acks.elim | (cases resolved <;> rfl)

theorem AckHook.resolves_requestId {target} (resolved : resolves ev = some (id, target)) :
    ev.requestId = some id := by
  cases ev <;> cases resolved <;> rfl

/-- The entry is where an outcome comes from. -/
def Entry.Gives (e : Entry) : AckOutcome → Prop
  | .applied ev => e.event? = some ev
  | .granted tasks => ∃ id ts, e.event? = some (.tasksClaimed id ts) ∧ tasks = AckHook.grantedFrom ts
  | .rejected r => e.reject? = some r

theorem AckHook.outcome_gives {target outcome} (isEvent : e.event? = some ev)
    (given : AckHook.outcome target ev = some outcome) : e.Gives outcome := by
  unfold AckHook.outcome at given
  split at given
  · cases given
    exact ⟨_, _, isEvent, rfl⟩
  · cases given
  · cases given
    exact isEvent

namespace Server

variable {env : Env} {s s' : Server} {a : ServerAction}

/-- The outcome is in a committed entry that answers the call's own command. -/
def Answered (w : World) (c : Call) (outcome : AckOutcome) : Prop :=
  ∃ p at_ e, c.position = some p ∧
    entryAt w.log p = some ⟨none, at_, .command (c.request.command c.id)⟩ ∧
    w.Committed e ∧ e.causeId = some p ∧ e.Gives outcome

/-- No two calls share an identity, and none has the nil one. -/
def Apart (s : Server) : ServerAction → Prop
  | .call request _ _ _ => ∀ id, request.ownId = some id → s.Unused id
  | _ => True

/-- What holds of one call. -/
structure CallSound (w : World) (c : Call) : Prop where
  real : c.id ≠ .nil
  command : ∀ p, c.position = some p →
    ∃ at_, entryAt w.log p = some ⟨none, at_, .command (c.request.command c.id)⟩
  fresh : c.stage = .registered → c.position = none
  kept : c.channel ≠ .dropped
  sent : ∀ outcome, c.channel = .sent outcome → Answered w c outcome
  succeeded : ∀ reply, c.stage = .returned (.ok reply) →
    ∃ outcome, c.channel = .sent outcome ∧ c.request.result outcome = some (.ok reply)
  refused : ∀ r, c.stage = .returned (.error (.rejected r)) → c.channel = .sent (.rejected r)

/-- What holds of the engine and the calls, where calls keep apart. -/
structure Sound (o : Observed) (calls : List Call) : Prop where
  consistent : o.Consistent
  echoing : o.world.Echoing
  refusals : o.Refusals
  distinct : ∀ (n m : Nat) (c d : Call), calls[n]? = some c → calls[m]? = some d →
    c.id = d.id → n = m
  owned : ∀ p at_ command id, entryAt o.world.log p = some ⟨none, at_, .command command⟩ →
    command.requestId = some id →
    ∃ (n : Nat) (c : Call), calls[n]? = some c ∧ c.id = id ∧ c.position = some p
  each : ∀ (n : Nat) (c : Call), calls[n]? = some c → CallSound o.world c

section sound

variable {o o' : Observed} {calls : List Call} {n : Nat} {c : Call}

/-- An entry that names the request of a call answers the call's command. -/
theorem Sound.own (sound : Sound o calls) (there : calls[n]? = some c) (member : e ∈ o.world.log)
    (other : e.isCommand = false) (names : e.requestId = some c.id) :
    ∃ p at_, c.position = some p ∧
      entryAt o.world.log p = some ⟨none, at_, .command (c.request.command c.id)⟩ ∧
      e.causeId = some p ∧ ∀ ev, e.event? = some ev → (c.request.command c.id).Acks ev := by
  have real := (sound.each n c there).real
  obtain ⟨p, ⟨first, at_, payload⟩, command, cause, found, rfl, carries, acks⟩ :=
    (sound.echoing e member).asked other names real
  -- a command that carries a request is a client's
  obtain rfl : first = none := by
    cases sound.echoing _ (mem_of_entryAt found) with
    | unnamed silent => cases carries.symm.trans silent
    | client first _ => exact first
    | tells _ _ _ isEvent => cases isEvent
    | refuses _ _ _ isReject => cases isReject
  obtain ⟨m, d, there', same, position⟩ := sound.owned p at_ command c.id found carries
  obtain rfl : n = m := sound.distinct n m c d there there' same.symm
  obtain rfl : c = d := Option.some.inj (there.symm.trans there')
  obtain ⟨at', found'⟩ := (sound.each n c there).command p position
  cases found.symm.trans found'
  exact ⟨p, at_, position, found, cause, acks⟩

/-- A call's own outcome stays where it is. -/
theorem Answered.step {w w' a outcome} (answered : Answered w c outcome) (placed : w.Placed)
    (moved : w.step env a = some w') : Answered w' c outcome := by
  obtain ⟨p, at_, e, position, found, committed, cause, gives⟩ := answered
  obtain ⟨es, grown⟩ := World.log_grows moved
  exact ⟨p, at_, e, position, grown ▸ entryAt_extend found es, committed.step placed moved, cause,
    gives⟩

theorem CallSound.step {w w' a} (sound : CallSound w c) (placed : w.Placed)
    (moved : w.step env a = some w') : CallSound w' c where
  real := sound.real
  command := by
    intro p position
    obtain ⟨at_, found⟩ := sound.command p position
    obtain ⟨es, grown⟩ := World.log_grows moved
    exact ⟨at_, grown ▸ entryAt_extend found es⟩
  fresh := sound.fresh
  kept := sound.kept
  sent := fun outcome isSent => (sound.sent outcome isSent).step placed moved
  succeeded := sound.succeeded
  refused := sound.refused

/-- A call with an identity of its own is registered. -/
theorem Sound.register (sound : Sound o calls) (real : id ≠ .nil)
    (unused : ∀ c ∈ calls, c.id ≠ id) :
    Sound o (calls ++ [⟨request, id, .registered, .waiting, none⟩]) where
  consistent := sound.consistent
  echoing := sound.echoing
  refusals := sound.refusals
  distinct := by
    intro n m c d there there' same
    rcases Journal.noted_concat there with ⟨-, old⟩ | ⟨rfl, rfl⟩ <;>
      rcases Journal.noted_concat there' with ⟨-, old'⟩ | ⟨rfl, rfl⟩
    · exact sound.distinct n m c d old old' same
    · exact absurd same (unused c (List.mem_of_getElem? old))
    · exact absurd same.symm (unused d (List.mem_of_getElem? old'))
    · rfl
  owned := by
    intro p at_ command id found carries
    obtain ⟨n, c, there, rest⟩ := sound.owned p at_ command id found carries
    refine ⟨n, c, ?_, rest⟩
    rw [List.getElem?_append_left (List.getElem?_eq_some_iff.mp there).1, there]
  each := by
    intro n c there
    rcases Journal.noted_concat there with ⟨-, old⟩ | ⟨-, rfl⟩
    · exact sound.each n c old
    · exact ⟨real, by simp, by simp, by simp, by simp, by simp, by simp⟩

/-- One call moves on. -/
theorem Sound.modify (sound : Sound o calls) {f}
    (same : ∀ c, (f c).id = c.id ∧ (f c).position = c.position)
    (one : ∀ c, calls[n]? = some c → CallSound o.world (f c)) : Sound o (calls.modify n f) := by
  have modified {m : Nat} {c : Call} (there : (calls.modify n f)[m]? = some c) :
      ∃ c₀, calls[m]? = some c₀ ∧ c.id = c₀.id ∧ (c = c₀ ∨ n = m ∧ c = f c₀) := by
    rw [List.getElem?_modify] at there
    obtain ⟨c₀, there₀, rfl⟩ := Option.map_eq_some_iff.mp there
    by_cases here : n = m
    · simp only [here, if_true]
      exact ⟨c₀, there₀, (same c₀).1, .inr ⟨trivial, rfl⟩⟩
    · simp only [here, if_false]
      exact ⟨c₀, there₀, rfl, .inl rfl⟩
  refine ⟨sound.consistent, sound.echoing, sound.refusals, ?_, ?_, ?_⟩
  · intro m k c d there there' alike
    obtain ⟨c₀, there₀, id, -⟩ := modified there
    obtain ⟨d₀, there₀', id', -⟩ := modified there'
    exact sound.distinct m k c₀ d₀ there₀ there₀' (id ▸ id' ▸ alike)
  · intro p at_ command id found carries
    obtain ⟨m, c, there, own, position⟩ := sound.owned p at_ command id found carries
    refine ⟨m, if n = m then f c else c, ?_, ?_, ?_⟩
    · rw [List.getElem?_modify, there]
      rfl
    · split
      · exact (same c).1.trans own
      · exact own
    · split
      · exact (same c).2.trans position
      · exact position
  · intro m c there
    obtain ⟨c₀, there₀, -, rfl | ⟨rfl, rfl⟩⟩ := modified there
    · exact sound.each m c there₀
    · exact one c₀ there₀

/-- The engine moves without appending a command that carries a request. -/
theorem Sound.engine (sound : Sound o calls) {a} (moved : o.step env a = some o')
    (quiet : ∀ command at_ noopAt, a = .clientAppend command at_ noopAt →
      command.requestId = none) : Sound o' calls where
  consistent := sound.consistent.step moved
  echoing := sound.echoing.step (Observed.step_world moved)
  refusals := sound.refusals.step sound.consistent moved
  distinct := sound.distinct
  owned := by
    intro p at_ command id found carries
    rcases World.command_appended (Observed.step_world moved) found with old | ⟨-, _, _, rfl⟩
    · exact sound.owned p at_ command id old carries
    · cases (quiet _ _ _ rfl).symm.trans carries
  each := fun n c there =>
    (sound.each n c there).step sound.consistent.placed (Observed.step_world moved)

/-- A call appends its command. -/
theorem Sound.submitted (sound : Sound o calls) (there : calls[n]? = some c)
    (stage : c.stage = .registered)
    (moved : o.step env (.clientAppend (c.request.command c.id) at_ noopAt) = some o') :
    Sound o' (calls.modify n fun c => { c with
      stage := .awaiting
      position := some (o.world.log.length + 1) }) := by
  have stepped := Observed.step_world moved
  have whole := sound.each n c there
  have unplaced := whole.fresh stage
  have modified {m : Nat} {d : Call} (found : (calls.modify n fun c => { c with
      stage := .awaiting
      position := some (o.world.log.length + 1) })[m]? = some d) :
      n ≠ m ∧ calls[m]? = some d ∨ n = m ∧ d = { c with
        stage := .awaiting
        position := some (o.world.log.length + 1) } := by
    rw [List.getElem?_modify] at found
    obtain ⟨d₀, found₀, rfl⟩ := Option.map_eq_some_iff.mp found
    by_cases here : n = m
    · subst here
      obtain rfl : c = d₀ := Option.some.inj (there.symm.trans found₀)
      simp
    · simp [here, found₀]
  refine ⟨sound.consistent.step moved, sound.echoing.step stepped,
    sound.refusals.step sound.consistent moved, ?_, ?_, ?_⟩
  · intro m k d d' found found' alike
    rcases modified found with ⟨-, old⟩ | ⟨rfl, rfl⟩ <;>
      rcases modified found' with ⟨-, old'⟩ | ⟨rfl, rfl⟩
    · exact sound.distinct m k d d' old old' alike
    · exact sound.distinct m n d c old there alike
    · exact sound.distinct n k c d' there old' alike
    · rfl
  · intro p at' command id found carries
    rcases World.command_appended stepped found with old | ⟨rfl, _, _, same⟩
    · obtain ⟨m, d, found', own, position⟩ := sound.owned p at' command id old carries
      -- the call itself had no command in the log before
      have other : n ≠ m := by
        rintro rfl
        obtain rfl : c = d := Option.some.inj (there.symm.trans found')
        cases unplaced.symm.trans position
      exact ⟨m, d, by simp [found', other], own, position⟩
    · cases same
      rw [Request.command_requestId] at carries
      exact ⟨n, { c with stage := .awaiting, position := some (o.world.log.length + 1) },
        by simp [there], Option.some.inj carries, rfl⟩
  · intro m d found
    rcases modified found with ⟨-, old⟩ | ⟨-, rfl⟩
    · exact (sound.each m d old).step sound.consistent.placed stepped
    · refine ⟨whole.real, ?_, by simp, whole.kept, ?_, by simp, by simp⟩
      · rintro _ ⟨⟩
        exact ⟨at_, World.entryAt_clientAppend stepped⟩
      · intro outcome isSent
        obtain ⟨p, -, -, position, -⟩ := whole.sent outcome isSent
        cases unplaced.symm.trans position

/-- A call is woken. -/
theorem CallSound.resumed {w} (sound : CallSound w c) {stage}
    (woken : c.channel = .dropped ∧ stage = .returned (.error ackDropped) ∨
      ∃ outcome, c.channel = .sent outcome ∧
        stage = (c.request.result outcome).elim .panicked .returned) :
    CallSound w { c with stage := stage } := by
  rcases woken with ⟨dropped, -⟩ | ⟨outcome, isSent, rfl⟩
  · exact absurd dropped sound.kept
  · refine ⟨sound.real, sound.command, ?_, sound.kept, sound.sent, ?_, ?_⟩
    · intro registered
      cases given : c.request.result outcome <;> simp [given] at registered
    · intro reply returned
      cases given : c.request.result outcome with
      | none => simp [given] at returned
      | some result =>
        simp only [given, Option.elim_some, CallStage.returned.injEq] at returned
        exact ⟨outcome, isSent, given.trans (congrArg some returned)⟩
    · intro r returned
      cases given : c.request.result outcome with
      | none => simp [given] at returned
      | some result =>
        simp only [given, Option.elim_some, CallStage.returned.injEq] at returned
        subst returned
        rw [isSent, Request.rejected_of_result given]

/-- An outcome is heard of that names the request of a waiting call. -/
theorem Sound.heard (sound : Sound o calls) (there : calls[n]? = some c) {call : HookCall}
    {channel : Channel} (told : call ∈ o.calls)
    (how : (∃ event target, call = .onEventApplied event ∧
        AckHook.resolves event = some (c.id, target) ∧ c.request.target ≠ target ∧
        channel = .dropped) ∨
      (∃ event outcome, call = .onEventApplied event ∧
        AckHook.resolves event = some (c.id, c.request.target) ∧
        AckHook.outcome c.request.target event = some outcome ∧ channel = .sent outcome) ∨
      ∃ reject, call = .onCommandRejected c.id reject ∧ channel = .sent (.rejected reject)) :
    ∃ outcome, channel = .sent outcome ∧ Answered o.world c outcome := by
  have ofEvent {event : Event} {target : AckTarget} (applied : call = .onEventApplied event)
      (resolved : AckHook.resolves event = some (c.id, target)) :
      c.request.target = target ∧ ∀ outcome, AckHook.outcome target event = some outcome →
        Answered o.world c outcome := by
    obtain ⟨pos, e, below, found, isEvent⟩ := sound.consistent.told event (applied ▸ told)
    obtain ⟨echoed, other⟩ := Entry.names_of_event isEvent
    have names : e.requestId = some c.id := echoed.trans (AckHook.resolves_requestId resolved)
    obtain ⟨p, at_, position, asked, cause, acks⟩ :=
      sound.own there (mem_of_entryAt found) other names
    exact ⟨Request.target_of_acks (acks event isEvent) resolved, fun outcome given =>
      ⟨p, at_, e, position, asked, ⟨pos, below, found⟩, cause,
        AckHook.outcome_gives isEvent given⟩⟩
  rcases how with ⟨event, target, applied, resolved, other, -⟩ |
    ⟨event, outcome, applied, resolved, given, rfl⟩ | ⟨reject, refused, rfl⟩
  · exact absurd (ofEvent applied resolved).1 other
  · exact ⟨outcome, rfl, (ofEvent applied resolved).2 outcome given⟩
  · obtain ⟨own, e, committed, isReject⟩ := sound.refusals c.id reject (refused ▸ told)
    obtain ⟨echoed, other⟩ := Entry.names_of_reject isReject
    have names : e.requestId = some c.id := echoed.trans (congrArg some own.symm)
    obtain ⟨p, at_, position, asked, cause, -⟩ := sound.own there committed.mem other names
    exact ⟨_, rfl, p, at_, e, position, asked, committed, cause, isReject⟩

end sound

/-- An identity in the registry is that of a call. -/
theorem Registered.lookup_unused (registered : s.Registered) (unused : s.Unused id) :
    s.pending.lookup id = none := by
  cases entry : s.pending.lookup id with
  | none => rfl
  | some pair =>
    obtain ⟨c, there, own, -⟩ := registered id pair.1 pair.2 entry
    exact absurd own (unused.2 c (List.mem_of_getElem? there))

theorem Sound.step (sound : Sound s.observed s.calls) (registered : s.Registered)
    (apart : s.Apart a) (moved : s.step env a = some s') : Sound s'.observed s'.calls := by
  cases step_inv moved with
  | @call request minted id fault now identity =>
    have unused : s.Unused id := by
      rcases identity with own | ⟨-, fresh⟩
      · exact apart id own
      · exact fresh
    have calls : (s.register request id).calls =
        s.calls ++ [⟨request, id, .registered, .waiting, none⟩] := by
      simp [Server.register, registered.lookup_unused unused]
    have observed : (s.register request id).observed = s.observed := by
      simp [Server.register, registered.lookup_unused unused]
    rw [calls, observed]
    exact sound.register unused.1 unused.2
  | idlePoll => exact sound
  | @refused n c fault appendFault at_ noopAt e there stage failed =>
    refine sound.modify (fun c => ⟨rfl, rfl⟩) fun c' there' => ?_
    obtain rfl : c = c' := Option.some.inj (there.symm.trans there')
    have whole := sound.each n c there
    refine ⟨whole.real, whole.command, by simp, whole.kept, whole.sent, by simp, ?_⟩
    intro r returned
    simp only [CallStage.returned.injEq, Except.error.injEq] at returned
    subst returned
    rcases failed with failed | ⟨msg, -, same⟩
    · rcases c.request.submit_cases with ok | ⟨e', failed', other⟩
      · cases ok.symm.trans failed
      · cases failed'.symm.trans failed
        exact absurd rfl (other r)
    · cases same
  | @submitted n c fault at_ noopAt command o there stage accepted appended =>
    rcases c.request.submit_cases with ok | ⟨e', failed, -⟩
    · cases ok.symm.trans accepted
      exact sound.submitted there stage appended
    · cases failed.symm.trans accepted
  | @resumed n c stage there before woken =>
    refine sound.modify (fun c => ⟨rfl, rfl⟩) fun c' there' => ?_
    obtain rfl : c = c' := Option.some.inj (there.symm.trans there')
    exact (sound.each n c there).resumed woken
  | @hear call told =>
    rcases onHook_cases s call with same | ⟨id, t, n, channel, entry, same, how⟩
    · rw [same]
      exact sound
    · rw [same]
      obtain ⟨c, there, rfl, rfl, open_⟩ := registered id t n entry
      obtain ⟨outcome, rfl, answered⟩ := sound.heard there (List.mem_of_getElem? told) how
      refine sound.modify (fun c => ⟨rfl, rfl⟩) fun c' there' => ?_
      obtain rfl : c = c' := Option.some.inj (there.symm.trans there')
      have whole := sound.each n c there
      refine ⟨whole.real, whole.command, whole.fresh, by simp, ?_, ?_, ?_⟩
      · rintro _ ⟨⟩
        exact answered
      · intro reply returned
        obtain ⟨_, isSent, -⟩ := whole.succeeded reply returned
        cases open_.symm.trans isSent
      · intro r returned
        cases open_.symm.trans (whole.refused r returned)
  | @engine a o heard admitted taken =>
    refine sound.engine taken ?_
    rintro command at_ noopAt rfl
    exact Option.isNone_iff_eq_none.mp admitted

theorem init_sound : Sound init.observed init.calls where
  consistent := Observed.init_consistent
  echoing := by intro e member; cases member
  refusals := by intro id r told; cases told
  distinct := by intro n m c d there; cases there
  owned := by
    intro p at_ command id found
    have : p ≤ 0 := (entryAt_eq_some found).2
    have := (entryAt_eq_some found).1
    omega
  each := by intro n c there; cases there

/-- Where no two calls share an identity and none has the nil one, a call returns success only for
    an event that answers its own command, a rejection only for a rejection of its own command, and
    no call is woken by anything else or loses its sender. -/
theorem each_call_its_own_outcome (run : Run.Reach (Server.step env) Apart init s) {n : Nat}
    {c : Call} (there : s.calls[n]? = some c) :
    (∀ reply, c.stage = .returned (.ok reply) → ∃ outcome,
      Answered s.observed.world c outcome ∧ c.request.result outcome = some (.ok reply)) ∧
    (∀ r, c.stage = .returned (.error (.rejected r)) →
      Answered s.observed.world c (.rejected r)) ∧
    (∀ outcome, c.channel = .sent outcome → Answered s.observed.world c outcome) ∧
    c.channel ≠ .dropped := by
  have kept : Sound s.observed s.calls ∧ s.Registered := by
    refine run.keeps (I := fun s => Sound s.observed s.calls ∧ s.Registered)
      (fun _ _ _ kept apart moved =>
      ⟨kept.1.step kept.2 apart moved, kept.2.step moved⟩) ⟨init_sound, ?_⟩
    intro id t n found
    cases found
  have whole := kept.1.each n c there
  refine ⟨?_, ?_, whole.sent, whole.kept⟩
  · intro reply returned
    obtain ⟨outcome, isSent, given⟩ := whole.succeeded reply returned
    exact ⟨outcome, whole.sent outcome isSent, given⟩
  · intro r returned
    exact whole.sent _ (whole.refused r returned)

/-! Two workers report the same task. The one that holds the lease is heard under the identity 9, and
the other one under an identity of its own or under the same one. -/

/-- Both reports are submitted before the first is decided. -/
def crossing (other : RequestId) : List ServerAction :=
  opening ++ serves 26 ++
    [.call (.pollTasks "worker" "resource" 1 60) ⟨⟨3⟩⟩ none ⟨0⟩, .submit 2 none none ⟨0⟩ ⟨0⟩] ++
    serves 6 ++
    [.call (.complete "worker" firstTask.name ⟨⟨9⟩⟩ .null) .nil none ⟨0⟩,
      .submit 3 none none ⟨0⟩ ⟨0⟩,
      .call (.complete "other" firstTask.name other .null) .nil none ⟨0⟩,
      .submit 4 none none ⟨0⟩ ⟨0⟩] ++ serves 1

/-- Each has its own identity, and both are decided. -/
def uncrossed : Server :=
  Run.script (Server.step (host true catching)) init
    (crossing ⟨⟨10⟩⟩ ++ serves 12 ++ [.resume 4, .resume 3])

def apart (s : Server) : ServerAction → Bool
  | .call request _ _ _ => request.ownId.all fun id => decide (s.Unused id)
  | _ => true

theorem apart_of_check {a} (good : s.apart a = true) : s.Apart a := by
  cases a with
  | call request =>
    intro id own
    simpa [apart, own] using good
  | _ => trivial

def refusal : Reject :=
  ⟨⟨⟨10⟩⟩, .invalidState,
    "task task/exec-2 cannot be completed: only a Running task can be completed, but it is Completed"⟩

/-- The holder's report is done and the other one is refused, each for its own command. -/
theorem each_call_its_own_outcome_uncrossed :
    (∃ c outcome, uncrossed.calls[3]? = some c ∧ c.stage = .returned (.ok .done) ∧
      Answered uncrossed.observed.world c outcome) ∧
    ∃ d, uncrossed.calls[4]? = some d ∧ d.stage = .returned (.error (.rejected refusal)) ∧
      Answered uncrossed.observed.world d (.rejected refusal) := by
  have run : Run.Reach (Server.step (host true catching)) Apart init uncrossed :=
    Run.reach_checked apart (fun _ _ _ good => apart_of_check good) (by decide +kernel)
  have first : uncrossed.calls[3]?.map Call.stage = some (.returned (.ok .done)) := by
    decide +kernel
  have second : uncrossed.calls[4]?.map Call.stage =
      some (.returned (.error (.rejected refusal))) := by decide +kernel
  obtain ⟨c, there, done⟩ := Option.map_eq_some_iff.mp first
  obtain ⟨d, there', refused⟩ := Option.map_eq_some_iff.mp second
  obtain ⟨outcome, answered, -⟩ := (each_call_its_own_outcome run there).1 _ done
  exact ⟨⟨c, outcome, there, done, answered⟩, d, there', refused,
    (each_call_its_own_outcome run there').2.1 _ refused⟩

/-- Under one identity, the other worker's call returns success before the engine has decided its
    command, and the holder's loses its sender. -/
def crossed : Server :=
  Run.script (Server.step (host true catching)) init (crossing ⟨⟨9⟩⟩ ++ [.resume 4])

theorem crossed_outcomes :
    ∃ s c d, Run.Reach (Server.step (host true catching)) (fun _ _ => True) init s ∧
      s.calls[4]? = some c ∧ c.stage = .returned (.ok .done) ∧
      (∀ outcome, ¬Answered s.observed.world c outcome) ∧
      s.calls[3]? = some d ∧ d.channel = .dropped := by
  have run : Run.Reach (Server.step (host true catching)) (fun _ _ => True) init crossed :=
    Run.reach_script fun _ _ _ => trivial
  have second : crossed.calls[4]?.map (fun c => (c.stage, c.position)) =
      some (.returned (.ok .done), some 24) := by decide +kernel
  have undecided : (crossed.log.all fun e => e.causeId ≠ some 24) = true := by decide +kernel
  have first : crossed.calls[3]?.map Call.channel = some .dropped := by decide +kernel
  generalize crossed = s at run second undecided first
  obtain ⟨c, there, same⟩ := Option.map_eq_some_iff.mp second
  obtain ⟨stage, position⟩ := Prod.mk.inj same
  obtain ⟨d, there', dropped⟩ := Option.map_eq_some_iff.mp first
  refine ⟨s, c, d, run, there, stage, ?_, there', dropped⟩
  rintro outcome ⟨p, at_, e, position', -, committed, cause, -⟩
  cases position.symm.trans position'
  have other := List.all_eq_true.mp undecided e committed.mem
  simp [cause] at other

end Server

end Spica
