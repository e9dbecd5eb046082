import Spica.Dispatch

/-! # The leader: deciding one command

A command is dispatched against a fresh working transaction. A fault of the engine's machinery
is retried on another fresh transaction; a refusal, or the last fault, is answered by a single
rejection. Every command that is answered gets at least one entry.
-/

namespace Spica

def maxCommandAttempts : Nat := 3

/-- What the outside decides about one dispatch attempt. -/
structure Attempt extends Backend where
  /-- the failure of `begin_txn`, if it fails -/
  beginFault : Option StorageError
  clock : Nat → Timestamp
  ids : Nat → Ulid
  jsonata : Nat → String → Json → Variables → Except String Json

def Attempt.ctx (a : Attempt) (env : Env) (cause : Nat) : Ctx where
  toBackend := a.toBackend
  env := env
  cause := cause
  clock := a.clock
  ids := a.ids
  jsonata := a.jsonata

/-- A decided command: the entries that answer it and the transaction to commit with them. -/
structure Produced where
  entries : List Entry
  rows : Projection

/-- The batch the answer is appended as, closed by a Noop. -/
def Produced.batch (produced : Produced) (cause : Nat) (noopAt : Timestamp) : List Entry :=
  produced.entries ++ [⟨some cause, noopAt, .noop⟩]

/-- `dispatch_once`, with the machine cache it leaves behind. An empty answer panics. -/
def dispatchOnce (env : Env) (cause : Nat) (command : Command) (rows : Projection)
    (machines : MachineCache) (a : Attempt) : Except Abort Produced × MachineCache :=
  match a.beginFault with
  | some e => (.error (storageFault e), machines)
  | none =>
    match (dispatchCommand command).run Handler.interpret (a.ctx env cause)
        (.start rows machines) with
    | (.error e, w) => (.error e, w.machines)
    | (.ok (), w) =>
      if w.out.isEmpty then
        (.error (.panicked "dispatch produced no entry"), w.machines)
      else (.ok ⟨w.out, w.txn.rows⟩, w.machines)

/-- What the outside decides while one command is decided. -/
structure Decision where
  attempts : Fin maxCommandAttempts → Attempt
  /-- the failure of the transaction a rejection is committed with, if it fails -/
  rejectFault : Option StorageError
  rejectAt : Timestamp
  noopAt : Timestamp

/-- Nothing the outside decides about the command is a storage failure. -/
def Decision.FaultFree (d : Decision) : Prop :=
  (∀ i, (d.attempts i).toBackend.FaultFree ∧ (d.attempts i).beginFault = none) ∧
    d.rejectFault = none

/-- `reject_command`: one entry, and a transaction with nothing in it. `none` when the
    transaction cannot be opened, which ends the loop. -/
def rejectCommand (cause : Nat) (command : Command) (rows : Projection) (d : Decision)
    (type : RejectionType) (reason : String) : Option Produced :=
  match d.rejectFault with
  | some _ => none
  | none => some
      { entries := [⟨some cause, d.rejectAt,
          .reject ⟨command.requestId.getD .nil, type, reason⟩⟩]
        rows := rows }

/-- The attempts from the given one on, with at most `fuel` further ones. `none` ends the loop:
    a panic, or a rejection that cannot be committed. -/
def attemptFrom (env : Env) (cause : Nat) (command : Command) (rows : Projection) (d : Decision) :
    List Attempt → MachineCache → Option Produced × MachineCache
  | [], machines => (none, machines)
  | a :: later, machines =>
    match dispatchOnce env cause command rows machines a with
    | (.ok produced, machines) => (some produced, machines)
    | (.error (.panicked _), machines) => (none, machines)
    | (.error (.rejected type reason), machines) =>
      (rejectCommand cause command rows d type reason, machines)
    | (.error (.unexpected e), machines) =>
      if later.isEmpty then
        (rejectCommand cause command rows d .processingError
          s!"dispatch failed on all {maxCommandAttempts} attempts: {e}", machines)
      else attemptFrom env cause command rows d later machines

/-- `process_command`. -/
def processCommand (env : Env) (cause : Nat) (command : Command) (rows : Projection)
    (machines : MachineCache) (d : Decision) : Option Produced × MachineCache :=
  attemptFrom env cause command rows d (List.ofFn d.attempts) machines

end Spica
