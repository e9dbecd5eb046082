import Spica.DurableLog

/-! # What the log streams deliver

Both streams do what is asked of a log stream, and so agree. The durable stream does it in runs in
which every entry is read back from its JSON as it was: a sweep leaves out what it cannot decode,
and the cursor then falls behind.
-/

namespace Spica.Streams

open Log

variable {P : Type}
variable {appended : List (Entry P)} {from_ next : Int}

/-! ## Each entry once, in order -/

section

variable {codec : Codec P} {d : Durable P} {t : Transient P}

theorem held_getElem? {i : Nat} {e} (found : appended[i]? = some e) :
    (held appended)[i]? = some { e with streamId := 1, entryId := i + 1 } := by
  rw [held, stamp_getElem?, found, Option.map_some, Int.add_comm]

theorem Durable.Sound.holds (sound : d.Sound codec) :
    Holds d.appended d.log.nextId (d.log.read codec) where
  next := by
    rw [sound.log.next, held, length_stamp]
  reads i e found := sound.log.read_at (held_getElem? found)
  ends position range out := sound.log.read_none range (by rwa [held, length_stamp])

theorem Durable.Sound.tails (sound : d.Sound codec) {r} (reading : d.reader = some (from_, r)) :
    Tails RocksLogStream.Reader.yielded (·.poll codec d.log) d.appended from_ r := by
  have follows := sound.reader from_ r reading
  have entries : r.yielded <+: rest (held d.appended) (start from_) :=
    (List.prefix_append _ _).trans follows.handed
  have stamped : ∀ (i : Nat) (e : Entry P), (held d.appended)[i]? = some e → e.entryId = i + 1 :=
    fun _ _ => held_entryId
  refine ⟨entries, fun i e found => rest_positions entries found, ?_⟩
  exact Run.iterate_reaches (RocksLogStream.toGo (held d.appended) from_)
    (fun _ follows => follows.poll sound.log stamped)
    (fun _ follows unfinished => follows.closer sound.log stamped unfinished) follows

theorem Transient.Sound.holds (sound : t.Sound) :
    Holds t.appended t.log.nextEntryId (fun position => .ok (t.log.read position)) where
  next := by
    rw [sound.next, held, length_stamp]
  reads i e found := by
    rw [InMemoryLogStream.read, if_neg (by omega), sound.entries, Int.add_sub_cancel, Int.toNat_natCast,
      held_getElem? found]
  ends position _ out := by
    rw [InMemoryLogStream.read]
    split
    next => rfl
    next above =>
      rw [sound.entries, List.getElem?_eq_none_iff.mpr]
      rw [held, length_stamp]
      omega

theorem Transient.Sound.tails (sound : t.Sound) {r} (reading : t.reader = some (from_, r)) :
    Tails InMemoryLogStream.Reader.yielded (·.poll t.log) t.appended from_ r := by
  have follows := sound.reader from_ r reading
  have entries := follows.handed
  rw [sound.entries] at entries
  refine ⟨entries, fun i e found => rest_positions entries found, ?_⟩
  rw [← sound.entries]
  exact Run.iterate_reaches (InMemoryLogStream.toGo t.log from_) (fun _ follows => follows.poll)
    (fun _ follows unfinished => follows.closer unfinished) follows

/-- Two streams with the same entries answer every read alike. -/
theorem Holds.agree {next' read read'} (holds : Holds appended next read)
    (holds' : Holds appended next' read') :
    next = next' ∧ ∀ position, IsI64 position → read position = read' position := by
  refine ⟨holds.next.trans holds'.next.symm, fun position range => ?_⟩
  by_cases out : position < 1 ∨ appended.length < position
  · rw [holds.ends position range out, holds'.ends position range out]
  · obtain ⟨i, rfl⟩ : ∃ i : Nat, position = i + 1 := ⟨(position - 1).toNat, by omega⟩
    have inside : i < appended.length := by omega
    have found := List.getElem?_eq_getElem inside
    rw [holds.reads i _ found, holds'.reads i _ found]

/-- Readers with the same start yield the same. -/
theorem Tails.agree {R R' : Type} {yielded : R → List (Entry P)} {yielded' poll poll' r} {r' : R'}
    (tails : Tails yielded poll appended from_ r)
    (tails' : Tails yielded' poll' appended from_ r') :
    (yielded r <+: yielded' r' ∨ yielded' r' <+: yielded r) ∧
      ∃ n m, yielded (poll^[n] r) = yielded' (poll'^[m] r') := by
  obtain ⟨n, all⟩ := tails.delivers
  obtain ⟨m, all'⟩ := tails'.delivers
  exact ⟨List.prefix_or_prefix_of_prefix tails.entries tails'.entries, n, m, all.trans all'.symm⟩

theorem Durable.sound_of_run (run : Run.Reach (Durable.step codec) (Durable.Spared codec) .init d) :
    d.Sound codec :=
  run.keeps (fun _ _ _ sound spared moved => sound.step spared moved) (.init codec)

theorem Transient.sound_of_run (run : Run.Reach Transient.step (fun _ _ => True) .init t) :
    t.Sound :=
  run.keeps (fun _ _ _ sound _ moved => sound.step moved) .init

/-- What was appended stays, and is only added to. -/
theorem Durable.appended_grows {u}
    (run : Run.Reach (Durable.step codec) (Durable.Spared codec) d u) :
    d.appended <+: u.appended := by
  refine run.keeps (I := fun u => d.appended <+: u.appended) ?_ List.prefix_rfl
  intro v a u grown _ moved
  cases a with
  | append entries written =>
    rcases v.log.append_cases codec written entries with
      ⟨rfl, appended⟩ | ⟨e, appended⟩ | ⟨values, encoded, appended⟩
    all_goals
      simp only [Durable.step, appended, Option.some.injEq] at moved
      subst moved
    · exact grown.trans (List.prefix_append _ _)
    · exact grown
    · exact grown.trans (List.prefix_append _ _)
  | reopen =>
    simp only [Durable.step] at moved
    split at moved
    next => cases moved; exact grown
    next => cases moved
  | streamRead from_ => cases moved; exact grown
  | poll =>
    obtain ⟨r, -, rfl⟩ := Option.map_eq_some_iff.mp moved
    exact grown

theorem Transient.appended_grows {u} (run : Run.Reach Transient.step (fun _ _ => True) t u) :
    t.appended <+: u.appended := by
  refine run.keeps (I := fun u => t.appended <+: u.appended) ?_ List.prefix_rfl
  intro v a u grown _ moved
  cases a with
  | append entries => cases moved; exact grown.trans (List.prefix_append _ _)
  | streamRead from_ => cases moved; exact grown
  | poll =>
    obtain ⟨r, -, rfl⟩ := Option.map_eq_some_iff.mp moved
    exact grown

/-- Over all appends, reopens and polls: positions are given out from 1 on without a gap and keep
    their entries, a reader yields from its start on each entry once and in order, and both streams
    agree. -/
theorem streams_deliver
    (durable : Run.Reach (Durable.step codec) (Durable.Spared codec) .init d)
    (transient : Run.Reach Transient.step (fun _ _ => True) .init t) :
    (Holds d.appended d.log.nextId (d.log.read codec) ∧
      RocksLogStream.open_ d.log.db = .ok { d.log with watch := 0 } ∧
      (∀ from_ r, d.reader = some (from_, r) →
        Tails RocksLogStream.Reader.yielded (·.poll codec d.log) d.appended from_ r) ∧
      ∀ u, Run.Reach (Durable.step codec) (Durable.Spared codec) d u → d.appended <+: u.appended) ∧
    (Holds t.appended t.log.nextEntryId (fun position => .ok (t.log.read position)) ∧
      (∀ from_ r, t.reader = some (from_, r) →
        Tails InMemoryLogStream.Reader.yielded (·.poll t.log) t.appended from_ r) ∧
      ∀ u, Run.Reach Transient.step (fun _ _ => True) t u → t.appended <+: u.appended) ∧
    (d.appended = t.appended →
      d.log.nextId = t.log.nextEntryId ∧
      (∀ position, IsI64 position → d.log.read codec position = .ok (t.log.read position)) ∧
      ∀ from_ r r', d.reader = some (from_, r) → t.reader = some (from_, r') →
        (r.yielded <+: r'.yielded ∨ r'.yielded <+: r.yielded) ∧
          ∃ n m, ((·.poll codec d.log)^[n] r).yielded = ((·.poll t.log)^[m] r').yielded) := by
  have soundD := Durable.sound_of_run durable
  have soundT := Transient.sound_of_run transient
  refine ⟨⟨soundD.holds, soundD.log.open_, fun _ _ reading => soundD.tails reading,
    fun _ later => Durable.appended_grows later⟩, ⟨soundT.holds,
    fun _ _ reading => soundT.tails reading, fun _ later => Transient.appended_grows later⟩, ?_⟩
  intro same
  have holds := soundD.holds
  rw [same] at holds
  obtain ⟨next, reads⟩ := holds.agree soundT.holds
  refine ⟨next, reads, fun from_ r r' readD readT => ?_⟩
  have tails := soundD.tails readD
  rw [same] at tails
  exact tails.agree (soundT.tails readT)

end

/-- An entry as the engine's log has it, where its position is its index. -/
def Entry.toLog (e : Entry EntryPayload) : Spica.Entry :=
  ⟨e.causeId.map Int.toNat, e.timestamp, e.payload⟩

/-! ## An entry that is not read back -/

/-- Entries that carry a number, of which 13 is not read. -/
def superstitious : Codec Nat where
  toVec e := .ok [e.payload, e.entryId.toNat]
  fromSlice
    | [payload, position] =>
      if payload = 13 then .error "13" else .ok ⟨1, position, none, ⟨0⟩, payload⟩
    | _ => .error "EOF while parsing"

def carrying (payload : Nat) : Entry Nat := ⟨nil, nil, none, ⟨0⟩, payload⟩

/-- Two batches with a reopen between them, and a reader from the second entry on. -/
def twoBatches : List (Durable.Action Nat) :=
  [.append [carrying 1, carrying 2] (.ok ()), .reopen, .streamRead 2, .poll,
    .append [carrying 3] (.ok ()), .poll, .poll, .poll]

def twoBatchesInMemory : List (Transient.Action Nat) :=
  [.append [carrying 1, carrying 2], .streamRead 2, .poll, .append [carrying 3], .poll]

def Durable.spared? (d : Durable Nat) : Durable.Action Nat → Bool
  | .append entries _ =>
    (stamp d.log.streamId d.log.nextId entries).all (fun e =>
      decide (superstitious.fromSlice [e.payload, e.entryId.toNat] = .ok e)) &&
    decide (IsI64 (d.log.nextId + entries.length))
  | .streamRead from_ => decide (IsI64 from_ ∧ from_ ≠ 0)
  | .reopen | .poll => true

theorem Durable.spared_of_check {d : Durable Nat} {a} (good : d.spared? a = true) :
    d.Spared superstitious a := by
  cases a with
  | append entries written =>
    obtain ⟨read, range⟩ := Bool.and_eq_true_iff.mp good
    refine ⟨fun e there bytes encoded => ?_, of_decide_eq_true range⟩
    cases encoded
    exact of_decide_eq_true (List.all_eq_true.mp read e there)
  | streamRead from_ =>
    have asked : IsI64 from_ ∧ from_ ≠ 0 := of_decide_eq_true good
    exact asked
  | reopen => trivial
  | poll => trivial

theorem streams_deliver_twoBatches :
    ((Run.script (Durable.step superstitious) .init twoBatches).reader.map fun r =>
        r.2.yielded.map (·.entryId)) = some [2, 3] ∧
      Holds (Run.script Transient.step .init twoBatchesInMemory).appended
        (Run.script Transient.step .init twoBatchesInMemory).log.nextEntryId
        (fun position =>
          .ok ((Run.script Transient.step .init twoBatchesInMemory).log.read position)) := by
  refine ⟨by decide +kernel, ?_⟩
  have checked : Run.checked (Durable.step superstitious) Durable.spared? .init twoBatches = true := by
    decide +kernel
  have transient : Run.Reach Transient.step (fun _ _ => True) .init
      (Run.script Transient.step .init twoBatchesInMemory) := Run.reach_script fun _ _ _ => trivial
  have delivered := streams_deliver
    (Run.reach_checked Durable.spared? (fun _ _ _ good => Durable.spared_of_check good) checked)
    transient
  exact delivered.2.1.1

/-- Three entries of which the second is not read: a reader yields 1, 3, 3. From 0 on, which is no
    position, the durable stream yields 1 twice, the one in memory nothing. -/
theorem undecodable_repeats :
    ((Run.script (Durable.step superstitious) .init
        [.append [carrying 1, carrying 13, carrying 3] (.ok ()), .streamRead nil,
          .poll, .poll, .poll, .poll, .poll]).reader.map fun r => r.2.yielded.map (·.entryId)) =
      some [1, 3, 3] ∧
    ((Run.script (Durable.step superstitious) .init
        [.append [carrying 1] (.ok ()), .streamRead 0, .poll, .poll, .poll, .poll]).reader.map
          fun r => r.2.yielded.map (·.entryId)) = some [1, 1] ∧
    ((Run.script Transient.step .init
        [.append [carrying 1], .streamRead 0, .poll, .poll, .poll, .poll]).reader.map
          fun r => r.2.yielded.map (·.entryId)) = some [] := by
  decide +kernel

end Spica.Streams
