import Spica.Types.Entry
import Spica.Lib.Log
import Spica.Lib.Numerals
import Spica.Lib.Run

/-! # The two log streams

A log stream gives each entry the next position, answers reads by position, and lets readers tail
it. In memory the entries are a list. The durable stream keeps each entry's JSON under a key that
orders as its position, and beside them, written with every batch, the next position to give. A
reader of the durable stream reads all there is from its cursor on in one sweep, hands the entries
out one at a time, counting its cursor up by one for each, and sweeps again.

Positions are `i64`s. They are integers here; the runs looked at stay within the type.
-/

namespace Spica.Streams

/-- `Entry`, whatever it carries. -/
structure Entry (P : Type) where
  streamId : Int
  entryId : Int
  causeId : Option Int
  timestamp : Timestamp
  payload : P
  deriving DecidableEq

/-- `EntryId::nil`. -/
def nil : Int := -1

def i64Size : Nat := 9223372036854775808

def IsI64 (x : Int) : Prop := -(i64Size : Int) ≤ x ∧ x < i64Size

instance : DecidablePred IsI64 := fun x =>
  inferInstanceAs (Decidable (-(i64Size : Int) ≤ x ∧ x < i64Size))

inductive LogError where
  | open_ (text : String)
  | read (text : String)
  | write (text : String)
  | serialize (text : String)
  | deserialize (text : String)
  | corrupt (text : String)
  deriving DecidableEq

variable {P : Type}

/-- The entries of a batch get the stream's identity and the positions from `id` on. -/
def stamp (streamId id : Int) : List (Entry P) → List (Entry P)
  | [] => []
  | e :: es => { e with streamId := streamId, entryId := id } :: stamp streamId (id + 1) es

/-! ## In memory -/

structure InMemoryLogStream (P : Type) where
  entries : List (Entry P)
  nextEntryId : Int
  streamId : Int
  /-- how often the watch has been sent to -/
  watch : Nat

namespace InMemoryLogStream

def new : InMemoryLogStream P := ⟨[], 1, 1, 0⟩

def append (s : InMemoryLogStream P) (entries : List (Entry P)) : InMemoryLogStream P × Int :=
  let id := s.nextEntryId + entries.length
  ({ s with
      entries := s.entries ++ stamp s.streamId s.nextEntryId entries
      nextEntryId := id
      watch := s.watch + 1 }, id - 1)

/-- A position below 1 is no index. -/
def read (s : InMemoryLogStream P) (entryId : Int) : Option (Entry P) :=
  if entryId - 1 < 0 then none else s.entries[(entryId - 1).toNat]?

/-- What a `stream_read` holds between two of its steps, and what it has yielded. -/
structure Reader (P : Type) where
  next : Int
  awaiting : Bool
  /-- the last send of the watch it has seen -/
  seen : Nat
  yielded : List (Entry P)

def streamRead (s : InMemoryLogStream P) (from_ : Int) : Reader P where
  next := if from_ = nil then 1 else from_
  awaiting := false
  seen := s.watch
  yielded := []

/-- A step of the reader: look for the next entry, or wait for a send it has not seen. -/
def Reader.poll (s : InMemoryLogStream P) (r : Reader P) : Reader P :=
  if r.awaiting then
    if r.seen = s.watch then r else { r with awaiting := false, seen := s.watch }
  else
    match s.read r.next with
    | some e => { r with next := r.next + 1, yielded := r.yielded ++ [e] }
    | none => { r with awaiting := true }

end InMemoryLogStream

/-! ## Over keys -/

/-- The bytes, each below 256. -/
abbrev Bytes := List Nat

/-- The entries' JSON: `serde_json::to_vec` and `serde_json::from_slice`. -/
structure Codec (P : Type) where
  toVec : Entry P → Except String Bytes
  fromSlice : Bytes → Except String (Entry P)

/-- An `i64` as the `u64` with the same bits. -/
def unsigned (x : Int) : Nat := (x % (2 * i64Size : Nat)).toNat

def toBeBytes (x : Int) : Bytes := Numerals.digits 256 8 (unsigned x)

def fromBeBytes (bytes : Bytes) : Int :=
  let u := Numerals.value 256 bytes
  if u < i64Size then u else (u : Int) - (2 * i64Size : Nat)

def entryPrefix : Nat := 0x00
def metaNextId : Bytes := [0xFE]
def metaStreamId : Bytes := [0xFD]

def entryKey (position : Int) : Bytes := entryPrefix :: toBeBytes position

def decodeNext (bytes : Bytes) : Except LogError Int :=
  if bytes.length = 8 then .ok (fromBeBytes bytes) else .error (.corrupt "meta next-id length")

def decodeStreamId (bytes : Bytes) : Except LogError Int :=
  if bytes.length = 8 then .ok (fromBeBytes bytes) else .error (.corrupt "meta stream-id length")

structure RocksLogStream where
  db : Table Bytes Bytes
  nextId : Int
  streamId : Int
  watch : Nat

namespace RocksLogStream

def open_ (db : Table Bytes Bytes) : Except LogError RocksLogStream := do
  let nextId ← (db.lookup metaNextId).elim (.ok 1) decodeNext
  let streamId ← (db.lookup metaStreamId).elim (.ok 1) decodeStreamId
  return ⟨db, nextId, streamId, 0⟩

variable (codec : Codec P)

/-- The entries' part of a write batch. -/
def putEntries (db : Table Bytes Bytes) (position : Int) : List Bytes → Table Bytes Bytes
  | [] => db
  | value :: values => putEntries (db.insert (entryKey position) value) (position + 1) values

/-- `written` is what the database says to the write of the batch, of which all or nothing is
    done. -/
def append (written : Except String Unit) (s : RocksLogStream) (entries : List (Entry P)) :
    Except LogError (RocksLogStream × Int) :=
  if entries.isEmpty then .ok (s, s.nextId - 1)
  else
    match (stamp s.streamId s.nextId entries).mapM codec.toVec with
    | .error e => .error (.serialize e)
    | .ok values =>
      match written with
      | .error e => .error (.write e)
      | .ok () =>
        let position := s.nextId + entries.length
        let db := (putEntries s.db s.nextId values).insert metaNextId (toBeBytes position)
        .ok ({ s with db := db, nextId := position, watch := s.watch + 1 }, position - 1)

def read (s : RocksLogStream) (entryId : Int) : Except LogError (Option (Entry P)) :=
  if entryId < 1 then .ok none
  else
    match s.db.lookup (entryKey entryId) with
    | none => .ok none
    | some bytes =>
      match codec.fromSlice bytes with
      | .ok e => .ok (some e)
      | .error e => .error (.deserialize e)

/-- What a `stream_read` holds between two of its steps, and what it has yielded. -/
structure Reader (P : Type) where
  next : Int
  /-- swept up and not yet yielded -/
  committed : List (Entry P)
  awaiting : Bool
  seen : Nat
  yielded : List (Entry P)

def streamRead (s : RocksLogStream) (from_ : Int) : Reader P where
  next := if from_ = nil then 1 else from_
  committed := []
  awaiting := false
  seen := s.watch
  yielded := []

/-- One pass of an iterator over the entry keys from `next` on. An entry that does not decode is
    left out. -/
def sweep (s : RocksLogStream) (next : Int) : List (Entry P) :=
  ((Scan.iterate s.db (entryKey next)).filter fun cell => cell.1.head? == some entryPrefix).filterMap
    fun cell => (codec.fromSlice cell.2).toOption

/-- A step of the reader: yield what is swept up, or sweep, or wait for a send it has not seen. -/
def Reader.poll (s : RocksLogStream) (r : Reader P) : Reader P :=
  if r.awaiting then
    if r.seen = s.watch then r else { r with awaiting := false, seen := s.watch }
  else
    match r.committed with
    | e :: committed =>
      { r with next := r.next + 1, committed := committed, yielded := r.yielded ++ [e] }
    | [] =>
      match sweep codec s r.next with
      | [] => { r with awaiting := true }
      | committed => { r with committed := committed }

end RocksLogStream

/-! ## Streams in use -/

/-- A stream in memory with what its writers have handed to it and one of its readers, with the
    position it was asked to start from. -/
structure Transient (P : Type) where
  log : InMemoryLogStream P
  appended : List (Entry P)
  reader : Option (Int × InMemoryLogStream.Reader P)

namespace Transient

def init : Transient P := ⟨.new, [], none⟩

inductive Action (P : Type) where
  | append (entries : List (Entry P))
  | streamRead (from_ : Int)
  | poll

def step (t : Transient P) : Action P → Option (Transient P)
  | .append entries => some { t with
      log := (t.log.append entries).1
      appended := t.appended ++ entries }
  | .streamRead from_ => some { t with reader := some (from_, t.log.streamRead from_) }
  | .poll => t.reader.map fun r => { t with reader := some (r.1, r.2.poll t.log) }

end Transient

/-- A durable stream, likewise. -/
structure Durable (P : Type) where
  log : RocksLogStream
  appended : List (Entry P)
  reader : Option (Int × RocksLogStream.Reader P)

namespace Durable

def init : Durable P := ⟨⟨∅, 1, 1, 0⟩, [], none⟩

inductive Action (P : Type) where
  | append (entries : List (Entry P)) (written : Except String Unit)
  /-- the process ends, its readers with it, and the next one opens what is stored -/
  | reopen
  | streamRead (from_ : Int)
  | poll

variable (codec : Codec P)

/-- A failed append leaves the stream as it is. -/
def step (d : Durable P) : Action P → Option (Durable P)
  | .append entries written =>
    match d.log.append codec written entries with
    | .ok (log, _) => some { d with log := log, appended := d.appended ++ entries }
    | .error _ => some d
  | .reopen =>
    match RocksLogStream.open_ d.log.db with
    | .ok log => some { d with log := log, reader := none }
    | .error _ => none
  | .streamRead from_ => some { d with reader := some (from_, d.log.streamRead from_) }
  | .poll => d.reader.map fun r => { d with reader := some (r.1, r.2.poll codec d.log) }

/-- The entries appended are read back from their JSON as they were, their positions are `i64`s,
    and a reader starts from a position or from `nil`, not from 0. -/
def Spared (d : Durable P) : Action P → Prop
  | .append entries _ =>
    (∀ e ∈ stamp d.log.streamId d.log.nextId entries, ∀ bytes,
      codec.toVec e = .ok bytes → codec.fromSlice bytes = .ok e) ∧
    IsI64 (d.log.nextId + entries.length)
  | .streamRead from_ => IsI64 from_ ∧ from_ ≠ 0
  | .reopen | .poll => True

end Durable

end Spica.Streams
