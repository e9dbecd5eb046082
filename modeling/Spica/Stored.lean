import Spica.Stream
import Spica.Delivery
import Spica.Wire.Nulls

/-! # The engine over the durable store and log

The same engine, with each row and each log entry kept as its JSON. A write keeps the JSON of the
row; a read of it, in the same transaction or later, decodes that. The handlers and appliers are the
same programs.

A failed decoding is a failed call.
-/

namespace Spica.Stored

open Serde Log

variable [Wire.Texts] {α : Type}

/-! ## Rows -/

structure Rows where
  executions : Table ObjectName Json
  threads : Table ObjectName Json
  scopes : Table ObjectName Json
  activities : Table ObjectName Json
  tasks : Table ObjectName Json
  flows : Table FlowName Json
  flowVersions : Table ObjectName Json
  edges : List ((RawObjectRef × RawObjectRef) × Json)
  nextGeneratedSeq : Option Json

def Rows.empty : Rows := ⟨∅, ∅, ∅, ∅, ∅, ∅, ∅, [], none⟩

def scope : Codec Variables := Codec.json.table KeyText.string

def decode (c : Codec α) (what : String) (v : Json) : Except StorageError α :=
  (c.read v).mapError fun e => .codec s!"{what}: {Wire.Texts.shown e}"

def getRow (c : Codec α) : Option Json → Except StorageError (Option α)
  | none => .ok none
  | some v => (decode c "deserialize row" v).map some

/-- The answer to a read. A scan of the tasks decodes them as it comes to them. -/
def eval (refs : Order RawObjectRef) (tasks : Order ObjectName) (j : Rows) :
    (q : Query) → Except StorageError q.Ret
  | .execution r => getRow Wire.execution (j.executions.lookup r.name)
  | .thread r => getRow Wire.thread (j.threads.lookup r.name)
  | .vars r => (getRow scope (j.scopes.lookup r.name)).map fun scope => scope.getD ∅
  | .activity r => getRow Wire.activity (j.activities.lookup r.name)
  | .task r => getRow Wire.task (j.tasks.lookup r.name)
  | .children r =>
    ((j.edges.filter fun edge => edge.1.1 = r).mapM fun edge =>
      decode Wire.rawObjectRef "rocksdb txn edge decode" edge.2).map refs.arrange
  | .activatableTasks resource now limit =>
    taskLoop (decode Wire.task "rocksdb txn task decode") resource now limit
      (scanned tasks j.tasks) []
  | .flowByName name => getRow Wire.flow (j.flows.lookup name)
  | .flowVersion r => getRow Wire.flowVersion (j.flowVersions.lookup r.name)
  | .nextGeneratedSeq =>
    (getRow Codec.i64 j.nextGeneratedSeq).map fun seq => (seq.getD 0).toNat

/-- A put replaces what is kept under the key. -/
def putEdge (edges : List ((RawObjectRef × RawObjectRef) × Json)) (key : RawObjectRef × RawObjectRef)
    (v : Json) : List ((RawObjectRef × RawObjectRef) × Json) :=
  if edges.any fun edge => edge.1 = key then
    edges.map fun edge => if edge.1 = key then (key, v) else edge
  else (key, v) :: edges

def Rows.put (j : Rows) : Write → Rows
  | .execution e => { j with
      executions := j.executions.insert e.metadata.name (Wire.execution.write e) }
  | .thread t => { j with threads := j.threads.insert t.metadata.name (Wire.thread.write t) }
  | .vars r vars => { j with scopes := j.scopes.insert r.name (scope.write vars) }
  | .activity a => { j with
      activities := j.activities.insert a.metadata.name (Wire.activity.write a) }
  | .task t => { j with tasks := j.tasks.insert t.metadata.name (Wire.task.write t) }
  | .flow name f => { j with flows := j.flows.insert name (Wire.flow.write f) }
  | .flowVersion v => { j with
      flowVersions := j.flowVersions.insert v.metadata.name (Wire.flowVersion.write v) }
  | .addChild parent child => { j with
      edges := putEdge j.edges (parent, child) (Wire.rawObjectRef.write child) }
  | .removeChild parent child => { j with
      edges := j.edges.filter fun edge => edge.1 ≠ (parent, child) }
  | .nextGeneratedSeq n => { j with nextGeneratedSeq := some (Codec.i64.write n) }

/-! ## Transactions -/

structure TxnState where
  rows : Rows
  calls : Nat

namespace Txn

def read (q : Query) : Eff Backend TxnAbort TxnState (Except StorageError q.Ret) := fun b s =>
  let s' := { s with calls := s.calls + 1 }
  match b.fault s.calls with
  | some e => (.ok (.error e), s')
  | none => (.ok (eval (b.refs s.calls) (b.tasks s.calls) s.rows q), s')

def write (w : Write) : Eff Backend TxnAbort TxnState (Except StorageError Unit) := fun b s =>
  let s' := { s with calls := s.calls + 1 }
  match b.fault s.calls with
  | some e => (.ok (.error e), s')
  | none => (.ok (.ok ()), { s' with rows := s.rows.put w })

def orFail (r : Except StorageError α) : Eff Backend TxnAbort TxnState α :=
  match r with
  | .ok a => pure a
  | .error e => Eff.fail (.storage e)

def interpret : (o : TxnOp) → Eff Backend TxnAbort TxnState o.Ret
  | .ask q => read q >>= orFail
  | .peek q => read q
  | .put w => write w >>= orFail
  | .tryPut w => write w

end Txn

/-! ## Dispatches -/

structure Work where
  txn : TxnState
  out : List Entry
  ticks : Nat
  minted : Nat
  evals : Nat
  machines : MachineCache

def Work.start (rows : Rows) (machines : MachineCache) : Work where
  txn := ⟨rows, 0⟩
  out := []
  ticks := 0
  minted := 0
  evals := 0
  machines := machines

namespace Handler

def onTxn (onFault : StorageError → Abort) (m : Txn α) : Eff Ctx Abort Work α := fun c w =>
  let (result, txn) := m.run Txn.interpret c.toBackend w.txn
  (result.mapError (Handler.ofTxn onFault), { w with txn := txn })

def tick : Eff Ctx Abort Work Timestamp := fun c w =>
  (.ok (c.clock w.ticks), { w with ticks := w.ticks + 1 })

def push (ts : Timestamp) (payload : EntryPayload) : Eff Ctx Abort Work Unit :=
  Eff.change fun c w => { w with out := w.out ++ [⟨some c.cause, ts, payload⟩] }

def project (ts : Timestamp) (e : Event) : Eff Ctx Abort Work Unit := fun c w =>
  let (result, txn) := (dispatchEvent ts e).run Txn.interpret c.toBackend w.txn
  let w' := { w with txn := txn }
  match result with
  | .error (.panicked msg) => (.error (.panicked msg), w')
  | .error (.storage _) | .ok () => (.ok (), w')

def appendEvent (e : Event) : Eff Ctx Abort Work Unit := do
  let ts ← tick
  project ts e
  push ts (.event e)

def pushNow (payload : EntryPayload) : Eff Ctx Abort Work Unit := do
  let ts ← tick
  push ts payload

def interpret : (o : Op) → Eff Ctx Abort Work o.Ret
  | .ask q onFault => onTxn onFault (Txn.ask q)
  | .peek q => onTxn storageFault (Txn.peek q)
  | .appendEvent e => appendEvent e
  | .appendCommand c => pushNow (.command c)
  | .reject r => pushNow (.reject r)
  | .nextGeneratedSeq => onTxn storageFault mintGeneratedSeq
  | .mint => fun c w => (.ok (c.ids w.minted), { w with minted := w.minted + 1 })
  | .now => tick
  | .env => Eff.gets fun c _ => c.env
  | .evalJsonata expr states vars => fun c w =>
    (.ok (c.jsonata w.evals expr states vars), { w with evals := w.evals + 1 })
  | .cached version => Eff.gets fun _ w => w.machines.lookup version
  | .cache version machine =>
    Eff.change fun _ w => { w with machines := w.machines.insert version machine }

end Handler

/-! ## The leader -/

structure Produced where
  entries : List Entry
  rows : Rows

def Produced.batch (produced : Produced) (cause : Nat) (noopAt : Timestamp) : List Entry :=
  produced.entries ++ [⟨some cause, noopAt, .noop⟩]

section leader

variable (env : Env)

def dispatchOnce (cause : Nat) (command : Command) (rows : Rows) (machines : MachineCache)
    (a : Attempt) : Except Abort Produced × MachineCache :=
  match a.beginFault with
  | some e => (.error (storageFault e), machines)
  | none =>
    match (dispatchCommand command).run Handler.interpret (a.ctx env cause)
        (.start rows machines) with
    | (.error e, w) => (.error e, w.machines)
    | (.ok (), w) =>
      if w.out.isEmpty then
        (.error (.panicked "dispatch produced no entry"), w.machines)
      else (.ok ⟨w.out, w.txn.rows⟩, w.machines)

def rejectCommand (cause : Nat) (command : Command) (rows : Rows) (d : Decision)
    (type : RejectionType) (reason : String) : Option Produced :=
  match d.rejectFault with
  | some _ => none
  | none => some
      { entries := [⟨some cause, d.rejectAt,
          .reject ⟨command.requestId.getD .nil, type, reason⟩⟩]
        rows := rows }

def attemptFrom (cause : Nat) (command : Command) (rows : Rows) (d : Decision) :
    List Attempt → MachineCache → Option Produced × MachineCache
  | [], machines => (none, machines)
  | a :: later, machines =>
    match dispatchOnce env cause command rows machines a with
    | (.ok produced, machines) => (some produced, machines)
    | (.error (.panicked _), machines) => (none, machines)
    | (.error (.rejected type reason), machines) =>
      (rejectCommand cause command rows d type reason, machines)
    | (.error (.unexpected e), machines) =>
      if later.isEmpty then
        (rejectCommand cause command rows d .processingError
          s!"dispatch failed on all {maxCommandAttempts} attempts: {e}", machines)
      else attemptFrom cause command rows d later machines

def processCommand (cause : Nat) (command : Command) (rows : Rows) (machines : MachineCache)
    (d : Decision) : Option Produced × MachineCache :=
  attemptFrom env cause command rows d (List.ofFn d.attempts) machines

end leader

/-! ## The stream processor -/

/-- Committed storage. -/
structure Storage where
  rows : Rows
  lastProcessedPosition : Nat

def Storage.empty : Storage := ⟨.empty, 0⟩

/-- The transaction's cells land as they are, the counter's among them. -/
def Storage.commit (rows : Rows) (watermark : Nat) : Storage := ⟨rows, watermark⟩

inductive Proc where
  | stopped (definitions : MachineCache)
  | recovering (definitions : MachineCache) (pos : Nat) (inflight : Option Rows)
  | running (next : Nat) (leader : Leader)
  | committing (next : Nat) (leader : Leader) (rows : Rows) (last : Nat)

structure Follower where
  storage : Storage
  pos : Nat
  inflight : Option Rows

def Follower.boot (s : Storage) : Follower := ⟨s, s.lastProcessedPosition + 1, none⟩

structure World where
  log : List Json
  storage : Storage
  proc : Proc
  follower : Follower

def World.init : World where
  log := []
  storage := .empty
  proc := .stopped ∅
  follower := .boot .empty

/-- What a reader of the log gets at a position. An entry that does not decode is not handed out. -/
def readEntry (log : List Json) (pos : Nat) : Option Entry :=
  (entryAt log pos).bind fun v => (Wire.entry.read v).toOption.map Streams.Entry.toLog

/-- An entry before the stream gives it a position. -/
def unstamped (e : Entry) : Streams.Entry EntryPayload :=
  ⟨Streams.nil, Streams.nil, e.causeId.map Int.ofNat, e.timestamp, e.payload⟩

/-- The stream's identity. -/
def streamId : Int := 1

def append (log : List Json) (es : List Entry) : List Json :=
  log ++ (Streams.stamp streamId (log.length + 1) (es.map unstamped)).map Wire.entry.write

def foldInflight (backend : Backend) (storage : Storage) (inflight : Option Rows) (ts : Timestamp)
    (e : Event) : Option Rows :=
  let rows := inflight.getD storage.rows
  match (dispatchEvent ts e).run Txn.interpret backend ⟨rows, 0⟩ with
  | (.ok (), txn) => some txn.rows
  | (.error _, _) => none

def replayEntry (backend : Backend) (pos : Nat) (e : Entry) (s : Storage)
    (inflight : Option Rows) : Option (Storage × Option Rows) :=
  match e.payload with
  | .event ev =>
    (foldInflight backend s inflight e.timestamp ev).map fun rows => (s, some rows)
  | .noop =>
    match inflight with
    | none => some (s, none)
    | some rows => some (.commit rows pos, none)
  | .command _ | .reject _ => some (s, inflight)

namespace World

variable (env : Env)

def clientAppend (w : World) (c : Command) (at_ noopAt : Timestamp) : Option World :=
  if c.isClient then
    some { w with log := append w.log [⟨none, at_, .command c⟩, ⟨none, noopAt, .noop⟩] }
  else none

def boot (w : World) (keep : Bool) : Option World :=
  match w.proc with
  | .stopped definitions => some { w with
      proc := .recovering (if keep then definitions else ∅)
        (w.storage.lastProcessedPosition + 1) none }
  | _ => none

def recover (w : World) (backend : Backend) : Option World :=
  match w.proc with
  | .recovering definitions pos inflight =>
    match readEntry w.log pos with
    | none => some { w with
        proc := .running (w.storage.lastProcessedPosition + 1)
          ⟨w.storage.lastProcessedPosition, definitions⟩ }
    | some e =>
      (replayEntry backend pos e w.storage inflight).map fun (s, inflight) =>
        { w with storage := s, proc := .recovering definitions (pos + 1) inflight }
  | _ => none

def dispatch (w : World) (d : Decision) : Option World :=
  match w.proc with
  | .running next leader =>
    match readEntry w.log next with
    | some ⟨_, _, .command c⟩ =>
      match processCommand env next c w.storage.rows leader.definitions d with
      | (some produced, definitions) =>
        let batch := produced.batch next d.noopAt
        some { w with
          log := append w.log batch
          proc := .committing next { leader with definitions := definitions }
            produced.rows (w.log.length + batch.length) }
      | (none, _) => none
    | _ => none
  | _ => none

def commit (w : World) : Option World :=
  match w.proc with
  | .committing next leader rows last => some { w with
      storage := .commit rows last
      proc := .running (next + 1) { leader with watermark := last } }
  | _ => none

def skip (w : World) : Option World :=
  match w.proc with
  | .running next leader =>
    match readEntry w.log next with
    | some ⟨_, _, .event _⟩ =>
      if env.debug && decide (leader.watermark < next) then none
      else some { w with proc := .running (next + 1) leader }
    | some ⟨_, _, .noop⟩ | some ⟨_, _, .reject _⟩ =>
      some { w with proc := .running (next + 1) leader }
    | _ => none
  | _ => none

def stop (w : World) : Option World :=
  match w.proc with
  | .stopped _ => none
  | .recovering definitions _ _ => some { w with proc := .stopped definitions }
  | .running _ leader => some { w with proc := .stopped leader.definitions }
  | .committing _ leader _ _ => some { w with proc := .stopped leader.definitions }

def follow (w : World) (backend : Backend) : Option World :=
  match readEntry w.log w.follower.pos with
  | none => none
  | some e =>
    (replayEntry backend w.follower.pos e w.follower.storage w.follower.inflight).map
      fun (s, inflight) => { w with follower := ⟨s, w.follower.pos + 1, inflight⟩ }

def step (w : World) : Action → Option World
  | .clientAppend c at_ noopAt => w.clientAppend c at_ noopAt
  | .boot keep => w.boot keep
  | .recover backend => w.recover backend
  | .dispatch d => w.dispatch env d
  | .skip => w.skip env
  | .commit => w.commit
  | .stop => w.stop
  | .follow backend => w.follow backend
  | .followerRestart => some { w with follower := .boot w.follower.storage }

end World

end Spica.Stored
