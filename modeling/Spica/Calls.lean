import Spica.Requests
import Spica.Lib.Journal

/-! # Calls through the gateway

A call registers its request with the hook, hands its command to the engine and waits on a channel
of its own. The hook keeps the other end of the channel under the identity of the request, and
sends on it when the engine tells of an outcome with that identity. The gateway mints an identity
for each call, but that of a completion is chosen by the worker.
-/

namespace Spica

open Log Scenario

variable {n : Nat} {f : Call → Call}

inductive AckTarget where
  | flowVersionCreated
  | executionCreated
  | taskCompleted
  | grant
  deriving DecidableEq

structure ActivatedTask where
  task : ObjectName
  resource : String
  arguments : Json
  deriving DecidableEq

inductive AckOutcome where
  | applied (event : Event)
  | rejected (reject : Reject)
  | granted (tasks : List ActivatedTask)
  deriving DecidableEq

namespace AckHook

/-- The identity an event echoes and what it resolves. A created flow is not awaited, though it
    echoes the identity. -/
def resolves : Event → Option (RequestId × AckTarget)
  | .flowVersionCreated id _ => some (id, .flowVersionCreated)
  | .executionCreated id _ => some (id, .executionCreated)
  | .taskCompleted id _ _ => some (id, .taskCompleted)
  | .tasksClaimed id _ => some (id, .grant)
  | _ => none

def grantedFrom (tasks : List Task) : List ActivatedTask :=
  tasks.map fun t => ⟨t.metadata.name, t.resource, t.arguments⟩

/-- What is sent for an event that resolves the target. -/
def outcome : AckTarget → Event → Option AckOutcome
  | .grant, .tasksClaimed _ tasks => some (.granted (grantedFrom tasks))
  | .grant, _ => none
  | _, event => some (.applied event)

end AckHook

/-! ## The engine's side of a call

What is checked before a command is appended. A read of the storage may fail. -/

namespace Engine

def createFlow (env : Env) (rows : Projection) (fault : Option StorageError)
    (requestId : RequestId) (name : FlowName) (definition : String) :
    Except ExecutionError Command :=
  match env.parse definition with
  | .error _ => .error (.runtime (.invalidDefinition
      "malformed flow definition: does not parse as a StateMachine"))
  | .ok _ =>
    if let some e := fault then .error (.infra (.storage e))
    else if (rows.getFlowByName name).isSome then
      .error (.runtime (.invalidDefinition s!"flow {name} already exists"))
    else .ok (.createFlow ⟨requestId, name, definition⟩)

def createExecution (rows : Projection) (fault : Option StorageError) (requestId : RequestId)
    (name : ObjectName) (flowVersion : ObjectRef .flowVersion) (input : Json) :
    Except ExecutionError Command :=
  if let some e := fault then .error (.infra (.storage e))
  else if (rows.executions.lookup name).isSome then
    .error (.runtime (.invalidDefinition s!"execution {name} already exists"))
  else .ok (.createExecution ⟨requestId, name, flowVersion, input⟩)

def claimTasks (requestId : RequestId) (workerId resource : String)
    (maxTasks leaseSeconds : Nat) : Except ExecutionError Command :=
  .ok (.claimTasks ⟨requestId, workerId, resource, maxTasks, leaseSeconds⟩)

/-- Tasks are looked up by name, so the identity is left out. -/
def completeTask (workerId : String) (task : ObjectName) (requestId : RequestId) (output : Json) :
    Except ExecutionError Command :=
  .ok (.completeTask ⟨requestId, ⟨task, .nil⟩, workerId, output⟩)

end Engine

/-! ## Calls -/

inductive Request where
  | createFlow (name : FlowName) (definition : String)
  | startForRevision (name : ObjectName) (flowVersion : ObjectRef .flowVersion) (input : Json)
  | pollTasks (workerId resource : String) (maxTasks leaseSeconds : Nat)
  | complete (workerId : String) (task : ObjectName) (requestId : RequestId) (output : Json)
  deriving DecidableEq

inductive Reply where
  | flowVersion (r : ObjectRef .flowVersion)
  | execution (r : ObjectRef .execution)
  | tasks (ts : List ActivatedTask)
  | done
  deriving DecidableEq

/-- Whether there is a task to lease, by a reading of the clock. A failed read counts as none. -/
def Projection.claimableNow (rows : Projection) (fault : Option StorageError) (resource : String)
    (now : Timestamp) (maxTasks : Nat) : Bool :=
  fault.isNone && !((rows.claimable resource now).take maxTasks).isEmpty

namespace Request

def target : Request → AckTarget
  | .createFlow .. => .flowVersionCreated
  | .startForRevision .. => .executionCreated
  | .pollTasks .. => .grant
  | .complete .. => .taskCompleted

/-- The identity the caller brings. -/
def ownId : Request → Option RequestId
  | .complete _ _ id _ => some id
  | _ => none

/-- An idle poll is answered without a request. -/
def opens (rows : Projection) (fault : Option StorageError) (now : Timestamp) : Request → Bool
  | .pollTasks _ resource maxTasks _ => rows.claimableNow fault resource now maxTasks
  | _ => true

def submit (env : Env) (rows : Projection) (fault : Option StorageError) (id : RequestId) :
    Request → Except ExecutionError Command
  | .createFlow name definition => Engine.createFlow env rows fault id name definition
  | .startForRevision name flowVersion input =>
    Engine.createExecution rows fault id name flowVersion input
  | .pollTasks workerId resource maxTasks leaseSeconds =>
    Engine.claimTasks id workerId resource maxTasks leaseSeconds
  | .complete workerId task _ output => Engine.completeTask workerId task id output

/-- What a call returns for an outcome. `none` is an outcome the code takes to be unreachable. -/
def result (request : Request) : AckOutcome → Option (Except ExecutionError Reply)
  | .rejected reject => some (.error (.rejected reject))
  | .granted tasks =>
    match request with
    | .pollTasks .. => some (.ok (.tasks tasks))
    | _ => none
  | .applied event =>
    match request, event with
    | .createFlow .., .flowVersionCreated _ v =>
      some (.ok (.flowVersion (v.metadata.objectRef .flowVersion)))
    | .startForRevision .., .executionCreated _ e => some (.ok (.execution e.objectRef))
    | .complete .., _ => some (.ok .done)
    | _, _ => none

end Request

/-- What a caller sees where the other end of its channel was dropped. -/
def ackDropped : ExecutionError := .runtime (.invalidDefinition
  ("no acknowledgement received (engine not started, or its StreamProcessor never applied " ++
    "the awaited outcome)"))

inductive Channel where
  | waiting
  | sent (outcome : AckOutcome)
  | dropped
  deriving DecidableEq

inductive CallStage where
  | registered
  | awaiting
  | returned (result : Except ExecutionError Reply)
  | panicked
  deriving DecidableEq

def CallStage.isOver : CallStage → Bool
  | .registered | .awaiting => false
  | .returned _ | .panicked => true

structure Call where
  request : Request
  id : RequestId
  stage : CallStage
  channel : Channel
  /-- where the log has the command of the call -/
  position : Option Nat

/-- The server: the engine with its observer, the registry of the hook and the calls. -/
structure Server where
  observed : Observed
  /-- what is awaited, and the number of the call that holds the other end -/
  pending : AList fun _ : RequestId => AckTarget × Nat
  calls : List Call
  /-- how many calls of the hook have returned -/
  heard : Nat

inductive ServerAction where
  | call (request : Request) (minted : RequestId) (fault : Option StorageError) (now : Timestamp)
  | idlePoll (resource : String) (maxTasks : Nat) (fault : Option StorageError) (now : Timestamp)
  | submit (n : Nat) (fault : Option StorageError) (appendFault : Option String)
      (at_ noopAt : Timestamp)
  | resume (n : Nat)
  | hear
  | engine (a : Action)

namespace Server

def init : Server := ⟨.init, ∅, [], 0⟩

variable (env : Env) (s : Server)

def rows : Projection := s.observed.world.storage.rows

def log : List Entry := s.observed.world.log

/-- A minted identity is not the nil one, nor that of any call. -/
def Unused (id : RequestId) : Prop := id ≠ .nil ∧ ∀ c ∈ s.calls, c.id ≠ id

instance (id : RequestId) : Decidable (s.Unused id) :=
  inferInstanceAs (Decidable (id ≠ .nil ∧ ∀ c ∈ s.calls, c.id ≠ id))

def change (n : Nat) (f : Call → Call) : Server := { s with calls := s.calls.modify n f }

/-- The sender of a call goes away. -/
def dropSender (n : Nat) : Server := s.change n fun c => { c with channel := .dropped }

def send (n : Nat) (outcome : AckOutcome) : Server :=
  s.change n fun c => { c with channel := .sent outcome }

/-- An entry under the same identity is replaced, and its sender goes with it. -/
def register (request : Request) (id : RequestId) : Server :=
  let s' := match s.pending.lookup id with
    | none => s
    | some (_, n) => s.dropSender n
  { s' with
    pending := s.pending.insert id (request.target, s.calls.length)
    calls := s'.calls ++ [⟨request, id, .registered, .waiting, none⟩] }

def onEventApplied (event : Event) : Server :=
  match AckHook.resolves event with
  | none => s
  | some (id, target) =>
    match s.pending.lookup id with
    | none => s
    | some (t, n) =>
      let s' := { s with pending := s.pending.erase id }
      if t ≠ target then s'.dropSender n
      else
        match AckHook.outcome target event with
        | none => s'.dropSender n
        | some outcome => s'.send n outcome

def onCommandRejected (id : RequestId) (reject : Reject) : Server :=
  match s.pending.lookup id with
  | none => s
  | some (_, n) => { s with pending := s.pending.erase id }.send n (.rejected reject)

def onHook : HookCall → Server
  | .onEventApplied event => s.onEventApplied event
  | .onCommandRejected id reject => s.onCommandRejected id reject

/-- The leader waits for the hook; clients and the replica do not. Commands that carry a request
    are appended by calls only. -/
def admits : Action → Bool
  | .clientAppend c _ _ => c.requestId.isNone
  | .follow _ | .followerRestart | .stop => true
  | _ => s.heard = s.observed.calls.length

def submit (n : Nat) (c : Call) (fault : Option StorageError) (appendFault : Option String)
    (at_ noopAt : Timestamp) : Option Server :=
  match c.request.submit env s.rows fault c.id, appendFault with
  | .error e, _ => some (s.change n fun c => { c with stage := .returned (.error e) })
  | .ok _, some msg =>
    some (s.change n fun c => { c with stage := .returned (.error (.infra (.log msg))) })
  | .ok command, none =>
    (s.observed.step env (.clientAppend command at_ noopAt)).map fun o =>
      { s.change n fun c => { c with stage := .awaiting, position := some (s.log.length + 1) } with
        observed := o }

def resume (n : Nat) (c : Call) : Option Server :=
  match c.channel with
  | .waiting => none
  | .dropped => some (s.change n fun c => { c with stage := .returned (.error ackDropped) })
  | .sent outcome =>
    match c.request.result outcome with
    | none => some (s.change n fun c => { c with stage := .panicked })
    | some result => some (s.change n fun c => { c with stage := .returned result })

def step : ServerAction → Option Server
  | .call request minted fault now =>
    if request.opens s.rows fault now ∧ (request.ownId = none → s.Unused minted) then
      some (s.register request (request.ownId.getD minted))
    else none
  | .idlePoll resource maxTasks fault now =>
    if s.rows.claimableNow fault resource now maxTasks then none else some s
  | .submit n fault appendFault at_ noopAt =>
    match s.calls[n]? with
    | some c =>
      match c.stage with
      | .registered => s.submit env n c fault appendFault at_ noopAt
      | _ => none
    | none => none
  | .resume n =>
    match s.calls[n]? with
    | some c =>
      match c.stage with
      | .awaiting => s.resume n c
      | _ => none
    | none => none
  | .hear =>
    (s.observed.calls[s.heard]?).map fun call => { s.onHook call with heard := s.heard + 1 }
  | .engine a =>
    if s.admits a then
      (s.observed.step env a).map fun o =>
        -- what the hook has not heard of is lost where the loop is stopped
        { s with observed := o, heard := if a matches .stop then o.calls.length else s.heard }
    else none

/-! ## What a move can do -/

/-- Everything a move can do, with what made it possible. -/
inductive Step (s : Server) : ServerAction → Server → Prop
  | call {request minted id fault now}
      (identity : request.ownId = some id ∨ request.ownId = none ∧ s.Unused id) :
      Step s (.call request minted fault now) (s.register request id)
  | idlePoll {resource maxTasks fault now} : Step s (.idlePoll resource maxTasks fault now) s
  | refused {n c fault appendFault at_ noopAt e} (there : s.calls[n]? = some c)
      (stage : c.stage = .registered) (failed : c.request.submit env s.rows fault c.id = .error e ∨
        ∃ msg, appendFault = some msg ∧ e = .infra (.log msg)) :
      Step s (.submit n fault appendFault at_ noopAt)
        (s.change n fun c => { c with stage := .returned (.error e) })
  | submitted {n c fault at_ noopAt command o} (there : s.calls[n]? = some c)
      (stage : c.stage = .registered)
      (accepted : c.request.submit env s.rows fault c.id = .ok command)
      (appended : s.observed.step env (.clientAppend command at_ noopAt) = some o) :
      Step s (.submit n fault none at_ noopAt)
        { s.change n fun c => { c with stage := .awaiting, position := some (s.log.length + 1) } with
          observed := o }
  | resumed {n c stage} (there : s.calls[n]? = some c) (before : c.stage = .awaiting)
      (woken : c.channel = .dropped ∧ stage = .returned (.error ackDropped) ∨
        ∃ outcome, c.channel = .sent outcome ∧
          stage = (c.request.result outcome).elim .panicked .returned) :
      Step s (.resume n) (s.change n fun c => { c with stage := stage })
  | hear {call} (told : s.observed.calls[s.heard]? = some call) :
      Step s .hear { s.onHook call with heard := s.heard + 1 }
  | engine {a o heard} (admitted : s.admits a = true) (moved : s.observed.step env a = some o) :
      Step s (.engine a) { s with observed := o, heard := heard }

variable {env} {s} {s' : Server} {a : ServerAction}

theorem step_inv (moved : s.step env a = some s') : s.Step env a s' := by
  cases a with
  | call request minted fault now =>
    simp only [step, Option.ite_none_right_eq_some, Option.some.injEq] at moved
    obtain ⟨⟨-, unused⟩, rfl⟩ := moved
    refine .call ?_
    cases own : request.ownId with
    | some id => exact .inl rfl
    | none => exact .inr ⟨rfl, unused own⟩
  | idlePoll resource maxTasks fault now =>
    simp only [step, Option.ite_none_left_eq_some, Option.some.injEq] at moved
    obtain ⟨-, rfl⟩ := moved
    exact .idlePoll
  | submit n fault appendFault at_ noopAt =>
    simp only [step] at moved
    split at moved
    case h_2 => cases moved
    case h_1 c there =>
      split at moved
      case h_2 => cases moved
      case h_1 stage =>
        unfold submit at moved
        split at moved
        case h_1 failed =>
          cases moved
          exact .refused there stage (.inl failed)
        case h_2 =>
          cases moved
          exact .refused there stage (.inr ⟨_, rfl, rfl⟩)
        case h_3 accepted =>
          obtain ⟨o, appended, rfl⟩ := Option.map_eq_some_iff.mp moved
          exact .submitted there stage accepted appended
  | resume n =>
    simp only [step] at moved
    split at moved
    case h_2 => cases moved
    case h_1 c there =>
      split at moved
      case h_2 => cases moved
      case h_1 before =>
        unfold resume at moved
        split at moved
        case h_1 => cases moved
        case h_2 dropped =>
          cases moved
          exact .resumed there before (.inl ⟨dropped, rfl⟩)
        case h_3 outcome sent =>
          split at moved
          case h_1 unreachable =>
            cases moved
            exact .resumed there before (.inr ⟨outcome, sent, by rw [unreachable]; rfl⟩)
          case h_2 result =>
            cases moved
            exact .resumed there before (.inr ⟨outcome, sent, by rw [result]; rfl⟩)
  | hear =>
    obtain ⟨call, told, rfl⟩ := Option.map_eq_some_iff.mp moved
    exact .hear told
  | engine a =>
    simp only [step, Option.ite_none_right_eq_some] at moved
    obtain ⟨admitted, moved⟩ := moved
    obtain ⟨o, taken, rfl⟩ := Option.map_eq_some_iff.mp moved
    exact .engine admitted taken

theorem getElem?_change {m c} :
    (s.change n f).calls[m]? = some c ↔
      ∃ c₀, s.calls[m]? = some c₀ ∧ c = if n = m then f c₀ else c₀ := by
  rw [change, List.getElem?_modify]
  simp [eq_comm]

/-- Hearing of an outcome does nothing, or it takes one entry out of the registry and does
    something with its channel. -/
theorem onHook_cases (s : Server) (call : HookCall) :
    s.onHook call = s ∨ ∃ id t n channel, s.pending.lookup id = some (t, n) ∧
      s.onHook call = { s with pending := s.pending.erase id }.change n
        (fun c => { c with channel := channel }) ∧
      ((∃ event target, call = .onEventApplied event ∧
          AckHook.resolves event = some (id, target) ∧ t ≠ target ∧ channel = .dropped) ∨
        (∃ event outcome, call = .onEventApplied event ∧
          AckHook.resolves event = some (id, t) ∧ AckHook.outcome t event = some outcome ∧
          channel = .sent outcome) ∨
        ∃ reject, call = .onCommandRejected id reject ∧ channel = .sent (.rejected reject)) := by
  cases call with
  | onEventApplied event =>
    simp only [onHook, onEventApplied]
    cases resolved : AckHook.resolves event with
    | none => exact .inl rfl
    | some pair =>
      obtain ⟨id, target⟩ := pair
      dsimp only
      cases entry : s.pending.lookup id with
      | none => exact .inl rfl
      | some pair =>
        obtain ⟨t, n⟩ := pair
        right
        by_cases other : t = target
        · subst other
          obtain ⟨outcome, given⟩ : ∃ outcome, AckHook.outcome t event = some outcome := by
            cases event <;> cases resolved <;> exact ⟨_, rfl⟩
          refine ⟨id, t, n, .sent outcome, entry, ?_, .inr (.inl ⟨event, outcome, rfl,
            resolved, given, rfl⟩)⟩
          simp [given, send]
        · refine ⟨id, t, n, .dropped, entry, ?_, .inl ⟨event, target, rfl, resolved, other,
            rfl⟩⟩
          simp [other, dropSender]
  | onCommandRejected id reject =>
    simp only [onHook, onCommandRejected]
    cases entry : s.pending.lookup id with
    | none => exact .inl rfl
    | some pair =>
      obtain ⟨t, n⟩ := pair
      exact .inr ⟨id, t, n, .sent (.rejected reject), entry, rfl, .inr (.inr ⟨reject, rfl, rfl⟩)⟩

/-! ## The registry -/

/-- Every entry belongs to a call with that identity, which awaits what the entry says and has not
    been sent anything. -/
def Registered (s : Server) : Prop :=
  ∀ id t n, s.pending.lookup id = some (t, n) →
    ∃ c, s.calls[n]? = some c ∧ c.id = id ∧ c.request.target = t ∧ c.channel = .waiting

/-- The entry of one identity goes, and with it the sender of its call. -/
theorem Registered.remove (registered : s.Registered) {id t} (channel : Channel)
    (entry : s.pending.lookup id = some (t, n)) :
    Registered ({ s with pending := s.pending.erase id }.change n
      fun c => { c with channel := channel }) := by
  intro id' t' m found
  have other : id' ≠ id := by
    rintro rfl
    rw [change, AList.lookup_erase] at found
    cases found
  rw [change, AList.lookup_erase_ne other] at found
  obtain ⟨c, there, own, awaited, open_⟩ := registered id' t' m found
  obtain ⟨c₀, there₀, own₀, -, -⟩ := registered id t n entry
  -- two entries are never of one call
  have apart : n ≠ m := by
    rintro rfl
    obtain rfl : c = c₀ := Option.some.inj (there.symm.trans there₀)
    exact other (own.symm.trans own₀)
  exact ⟨c, getElem?_change.mpr ⟨c, there, by rw [if_neg apart]⟩, own, awaited, open_⟩

/-- Moving a call on leaves its channel and the registry alone. -/
theorem Registered.moveOn (registered : s.Registered)
    (same : ∀ c, (f c).id = c.id ∧ (f c).request = c.request ∧ (f c).channel = c.channel) :
    (s.change n f).Registered := by
  intro id t m found
  obtain ⟨c, there, own, awaited, open_⟩ := registered id t m found
  refine ⟨_, getElem?_change.mpr ⟨c, there, rfl⟩, ?_⟩
  split
  · obtain ⟨id_, request, channel⟩ := same c
    exact ⟨id_.trans own, request ▸ awaited, channel.trans open_⟩
  · exact ⟨own, awaited, open_⟩

theorem Registered.register (registered : s.Registered) (request : Request) (id : RequestId) :
    (s.register request id).Registered := by
  intro id' t m found
  by_cases same : id' = id
  · subst same
    rw [Server.register, AList.lookup_insert] at found
    cases found
    refine ⟨⟨request, id', .registered, .waiting, none⟩, ?_, rfl, rfl, rfl⟩
    cases entry : s.pending.lookup id' with
    | none => simp [Server.register, entry]
    | some pair => simp [Server.register, entry, dropSender, change]
  · rw [Server.register, AList.lookup_insert_ne same] at found
    cases entry : s.pending.lookup id with
    | none =>
      obtain ⟨c, there, rest⟩ := registered id' t m found
      refine ⟨c, ?_, rest⟩
      simp only [Server.register, entry]
      rw [List.getElem?_append_left (List.getElem?_eq_some_iff.mp there).1, there]
    | some pair =>
      obtain ⟨t₀, n⟩ := pair
      have removed := registered.remove .dropped entry
      obtain ⟨c, there, rest⟩ := removed id' t m (by
        rw [change, AList.lookup_erase_ne same]
        exact found)
      refine ⟨c, ?_, rest⟩
      simp only [Server.register, entry]
      exact (List.getElem?_append_left (List.getElem?_eq_some_iff.mp there).1).trans there

theorem Registered.step (registered : s.Registered) (moved : s.step env a = some s') :
    s'.Registered := by
  cases step_inv moved with
  | call => exact registered.register _ _
  | idlePoll => exact registered
  | refused | resumed => exact registered.moveOn fun c => ⟨rfl, rfl, rfl⟩
  | @submitted n =>
    have on : (s.change n fun c => { c with
        stage := .awaiting
        position := some (s.log.length + 1) }).Registered :=
      registered.moveOn fun c => ⟨rfl, rfl, rfl⟩
    exact on
  | @hear call told =>
    rcases onHook_cases s call with same | ⟨id, t, n, channel, entry, same, -⟩
    · rw [same]
      exact registered
    · rw [same]
      exact registered.remove channel entry
  | engine => exact registered

/-- The engine takes the command of the call. -/
def Accepts (env : Env) (s : Server) : ServerAction → Prop
  | .submit n fault appendFault _ _ => appendFault = none ∧ ∀ c, s.calls[n]? = some c →
      ∃ command, c.request.submit env s.rows fault c.id = .ok command
  | _ => True

/-- A call that is over was sent an outcome, or its sender is gone. -/
def Settled (s : Server) : Prop :=
  ∀ (n : Nat) (c : Call), s.calls[n]? = some c → c.stage.isOver = true → c.channel ≠ .waiting

theorem Settled.change (settled : s.Settled)
    (kept : ∀ c, s.calls[n]? = some c → (f c).stage.isOver = true → (f c).channel ≠ .waiting) :
    (s.change n f).Settled := by
  intro m c there ended
  obtain ⟨c₀, there₀, rfl⟩ := getElem?_change.mp there
  by_cases same : n = m
  · subst same
    rw [if_pos rfl] at ended ⊢
    exact kept c₀ there₀ ended
  · rw [if_neg same] at ended ⊢
    exact settled m c₀ there₀ ended

theorem Settled.register (settled : s.Settled) (request : Request) (id : RequestId) :
    (s.register request id).Settled := by
  have appended {s₁ : Server} (settled : s₁.Settled) (m : Nat) (c : Call)
      (there : (s₁.calls ++ [⟨request, id, .registered, .waiting, none⟩])[m]? = some c)
      (ended : c.stage.isOver = true) : c.channel ≠ .waiting := by
    rcases Journal.noted_concat there with ⟨-, old⟩ | ⟨-, rfl⟩
    · exact settled m c old ended
    · cases ended
  cases entry : s.pending.lookup id with
  | none =>
    intro m c there
    simp only [Server.register, entry] at there
    exact appended settled m c there
  | some pair =>
    intro m c there
    simp only [Server.register, entry] at there
    have dropped : (s.dropSender pair.2).Settled := settled.change fun _ _ _ => Channel.noConfusion
    exact appended dropped m c there

theorem Settled.step (settled : s.Settled) (accepts : s.Accepts env a)
    (moved : s.step env a = some s') : s'.Settled := by
  cases step_inv moved with
  | call => exact settled.register _ _
  | idlePoll => exact settled
  | refused there stage failed =>
    obtain ⟨rfl, taken⟩ := accepts
    obtain ⟨command, ok⟩ := taken _ there
    rcases failed with failed | ⟨msg, failed, -⟩
    · cases ok.symm.trans failed
    · cases failed
  | @submitted n =>
    have on : (s.change n fun c => { c with
        stage := .awaiting
        position := some (s.log.length + 1) }).Settled :=
      settled.change fun _ _ ended => by cases ended
    exact on
  | @resumed n c stage there before woken =>
    refine settled.change fun c' there' _ => ?_
    obtain rfl : c = c' := Option.some.inj (there.symm.trans there')
    rcases woken with ⟨dropped, -⟩ | ⟨outcome, sent, -⟩
    · simp [dropped]
    · simp [sent]
  | @hear call told =>
    rcases onHook_cases s call with same | ⟨id, t, n, channel, entry, same, how⟩
    · rw [same]
      exact settled
    · rw [same]
      have heard : ({ s with pending := s.pending.erase id }.change n
          fun c => { c with channel := channel }).Settled := by
        have before : ({ s with pending := s.pending.erase id } : Server).Settled := settled
        refine before.change fun c _ _ => ?_
        rcases how with ⟨_, _, -, -, -, rfl⟩ | ⟨_, _, -, -, -, rfl⟩ | ⟨_, -, rfl⟩ <;> simp
      exact heard
  | engine => exact settled

/-- While the engine takes every command it is handed, an entry of the registry is there only
    until its call is over. -/
theorem registry_holds_waiting_calls {id : RequestId} {t : AckTarget} {n : Nat}
    (run : Run.Reach (Server.step env) (Accepts env) init s)
    (entry : s.pending.lookup id = some (t, n)) :
    ∃ c, s.calls[n]? = some c ∧ c.id = id ∧ c.stage.isOver = false := by
  have registered : s.Registered := run.keeps (fun _ _ _ kept _ moved => kept.step moved)
    (by intro id t n found; cases found)
  have settled : s.Settled := run.keeps (fun _ _ _ kept accepts moved => kept.step accepts moved)
    (by intro n c there; cases there)
  obtain ⟨c, there, own, -, open_⟩ := registered id t n entry
  refine ⟨c, there, own, ?_⟩
  by_contra ended
  exact settled n c there (Bool.eq_true_of_not_eq_false ended) open_

/-- Decide, commit and pass over at most so many entries, and hear of each commit. -/
def serves (entries : Nat) : List ServerAction :=
  (List.replicate entries
    ([.engine (.dispatch decision), .engine .commit] ++ List.replicate 6 .hear ++
      [.engine .skip])).flatten

/-- A flow is created, and an execution of it is asked for. -/
def opening : List ServerAction :=
  [.call (.createFlow flow "definition") ⟨⟨1⟩⟩ none ⟨0⟩, .submit 0 none none ⟨0⟩ ⟨0⟩] ++
    (starts 2).map .engine ++ serves 4 ++
    [.resume 0, .call (.startForRevision (.plain exec) ⟨.generated flow 1, ⟨0⟩⟩ .null) ⟨⟨2⟩⟩ none ⟨0⟩,
      .submit 1 none none ⟨0⟩ ⟨0⟩]

def opened : Server := Run.script (Server.step (host true catching)) init opening

def accepts (s : Server) : ServerAction → Bool
  | .submit n fault appendFault _ _ => appendFault.isNone && (s.calls[n]?.all fun c =>
      (c.request.submit (host true catching) s.rows fault c.id).toOption.isSome)
  | _ => true

theorem accepts_of_check {a} (good : s.accepts a = true) : s.Accepts (host true catching) a := by
  cases a with
  | submit n fault appendFault =>
    simp only [accepts, Bool.and_eq_true, Option.isNone_iff_eq_none] at good
    refine ⟨good.1, fun c there => ?_⟩
    rw [there] at good
    cases submitted : c.request.submit (host true catching) s.rows fault c.id with
    | error => simp [submitted, Except.toOption] at good
    | ok command => exact ⟨command, rfl⟩
  | _ => trivial

/-- The first call has returned, and is not registered any more; the second one waits. -/
theorem registry_holds_waiting_calls_opened :
    opened.calls[0]?.any (fun c => c.stage.isOver) = true ∧
      opened.pending.lookup ⟨⟨1⟩⟩ = none ∧
      opened.pending.lookup ⟨⟨2⟩⟩ = some (.executionCreated, 1) ∧
      ∃ c, opened.calls[1]? = some c ∧ c.id = ⟨⟨2⟩⟩ ∧ c.stage.isOver = false := by
  have run : Run.Reach (Server.step (host true catching)) (Accepts (host true catching)) init opened :=
    Run.reach_checked accepts (fun _ _ _ good => accepts_of_check good) (by decide +kernel)
  have entry : opened.pending.lookup ⟨⟨2⟩⟩ = some (.executionCreated, 1) := by decide +kernel
  exact ⟨by decide +kernel, by decide +kernel, entry, registry_holds_waiting_calls run entry⟩

/-! A definition that does not parse is refused after its call has registered, and the entry stays
behind. -/

def unparsed : Env := { host true (single pass) with parse := fun _ => .error "expected value" }

theorem refused_call_stays_registered :
    ∃ s c, Run.Reach (Server.step unparsed) (fun _ _ => True) init s ∧
      s.pending.lookup ⟨⟨7⟩⟩ = some (.flowVersionCreated, 0) ∧ s.calls[0]? = some c ∧
      c.id = ⟨⟨7⟩⟩ ∧ c.stage.isOver = true := by
  refine ⟨Run.script (Server.step unparsed) init [.call (.createFlow flow "") ⟨⟨7⟩⟩ none ⟨0⟩,
    .submit 0 none none ⟨0⟩ ⟨0⟩], _, Run.reach_script fun _ _ _ => trivial, by decide +kernel, rfl,
    rfl, rfl⟩

end Server

end Spica
