import Spica.Tailing

/-! # The durable log stream

Its keys order as the positions, so a sweep finds what is stored from the cursor on. As long as
every entry is read back from its JSON as it was, a sweep hands out all of it, and the cursor, which
counts what was yielded, stays the position of the next entry.
-/

namespace Spica.Streams

open Log

variable {P : Type} {xs : List (Entry P)}
variable {x y : Int} {i : Nat} {e : Entry P} {bytes key : Bytes} {es : List (Entry P)}
    {values : List Bytes}

/-! ## Keys -/

theorem unsigned_of_nonneg (from0 : 0 ≤ x) (small : x < i64Size) : unsigned x = x.toNat := by
  unfold unsigned
  unfold i64Size at small ⊢
  omega

theorem unsigned_of_neg (below : x < 0) (range : IsI64 x) : i64Size ≤ unsigned x := by
  obtain ⟨least, -⟩ := range
  unfold unsigned
  unfold i64Size at least ⊢
  omega

theorem unsigned_lt (x : Int) : unsigned x < 256 ^ 8 := by
  unfold unsigned i64Size
  omega

theorem entryKey_le : entryKey x ≤ entryKey y ↔ unsigned x ≤ unsigned y := by
  have tail : entryKey x ≤ entryKey y ↔ toBeBytes x ≤ toBeBytes y :=
    Scan.append_le_append_iff [entryPrefix] _ _
  rw [tail]
  exact Numerals.digits_le_digits (unsigned_lt x) (unsigned_lt y)

theorem entryKey_lt : entryKey x < entryKey y ↔ unsigned x < unsigned y := by
  rw [← not_le, ← not_le, entryKey_le]

theorem entryKey_inj {j} (smallI : i < i64Size) (smallJ : j < i64Size)
    (same : entryKey i = entryKey j) : i = j := by
  have le := entryKey_le.mp same.le
  have ge := entryKey_le.mp same.ge
  rw [unsigned_of_nonneg (by omega) (by omega), unsigned_of_nonneg (by omega) (by omega)] at le ge
  omega

theorem fromBeBytes_toBeBytes (range : IsI64 x) : fromBeBytes (toBeBytes x) = x := by
  have number : Numerals.value 256 (toBeBytes x) = unsigned x := by
    rw [toBeBytes, Numerals.value_digits, Nat.mod_eq_of_lt (unsigned_lt x)]
  obtain ⟨least, most⟩ := range
  unfold fromBeBytes
  dsimp only
  rw [number]
  unfold unsigned
  unfold i64Size at least most ⊢
  split <;> omega

theorem decodeNext_toBeBytes (range : IsI64 x) : decodeNext (toBeBytes x) = .ok x := by
  have eight : (toBeBytes x).length = 8 := Numerals.length_digits 256 8 _
  rw [decodeNext, if_pos eight, fromBeBytes_toBeBytes range]

/-! ## The durable stream -/

namespace RocksLogStream

variable {codec : Codec P} {db : Table Bytes Bytes} {log : List (Entry P)} {s : RocksLogStream}

/-- Under the entry keys there are the entries of a log, each as its JSON, and nothing else. -/
def Filed (codec : Codec P) (db : Table Bytes Bytes) (log : List (Entry P)) : Prop :=
  ∀ key bytes, key.head? = some entryPrefix →
    (db.lookup key = some bytes ↔
      ∃ (i : Nat) (e : Entry P), log[i]? = some e ∧ key = entryKey (i + 1) ∧ codec.toVec e = .ok bytes)

theorem Filed.empty (codec : Codec P) : Filed codec ∅ [] := by
  intro key bytes _
  constructor
  · intro found
    cases found
  · rintro ⟨i, e, found, -⟩
    cases found

theorem Filed.lookup (filed : Filed codec db log) (found : log[i]? = some e)
    (encoded : codec.toVec e = .ok bytes) : db.lookup (entryKey (i + 1)) = some bytes :=
  (filed _ _ rfl).mpr ⟨i, e, found, rfl, encoded⟩

theorem Filed.insert_other (filed : Filed codec db log) (other : key.head? ≠ some entryPrefix)
    (value : Bytes) : Filed codec (db.insert key value) log := by
  intro k bytes entry
  have apart : k ≠ key := by
    rintro rfl
    exact other entry
  rw [AList.lookup_insert_ne apart]
  exact filed k bytes entry

theorem Filed.insert_next (filed : Filed codec db log) (encoded : codec.toVec e = .ok bytes)
    (fits : log.length + 1 < i64Size) :
    Filed codec (db.insert (entryKey (log.length + 1)) bytes) (log ++ [e]) := by
  intro key value entry
  by_cases last : key = entryKey (log.length + 1)
  · subst last
    rw [AList.lookup_insert]
    constructor
    · rintro ⟨⟩
      exact ⟨log.length, e, by simp, rfl, encoded⟩
    · rintro ⟨i, d, found, same, read⟩
      have inside := (List.getElem?_eq_some_iff.mp found).1
      rw [List.length_append, List.length_singleton] at inside
      have here : log.length + 1 = i + 1 :=
        entryKey_inj fits (by omega) (by push_cast; exact same)
      obtain rfl : log.length = i := Nat.succ.inj here
      rw [List.getElem?_concat_length] at found
      cases found
      exact congrArg some (Except.ok.inj (encoded.symm.trans read))
  · rw [AList.lookup_insert_ne last, filed key value entry]
    constructor
    · rintro ⟨i, d, found, at_, read⟩
      have inside := (List.getElem?_eq_some_iff.mp found).1
      exact ⟨i, d, by rw [List.getElem?_append_left inside, found], at_, read⟩
    · rintro ⟨i, d, found, at_, read⟩
      rcases Nat.lt_or_ge i log.length with old | new
      · rw [List.getElem?_append_left old] at found
        exact ⟨i, d, found, at_, read⟩
      · have inside := (List.getElem?_eq_some_iff.mp found).1
        rw [List.length_append, List.length_singleton] at inside
        obtain rfl : i = log.length := by omega
        exact absurd at_ last

theorem mapM_cons_ok (encoded : (e :: es).mapM codec.toVec = .ok values) :
    ∃ bytes more, codec.toVec e = .ok bytes ∧ es.mapM codec.toVec = .ok more ∧
      values = bytes :: more := by
  rw [List.mapM_cons] at encoded
  cases first : codec.toVec e with
  | error m =>
    rw [first] at encoded
    cases encoded
  | ok bytes =>
    cases others : es.mapM codec.toVec with
    | error m =>
      rw [first, others] at encoded
      cases encoded
    | ok more =>
      rw [first, others] at encoded
      cases encoded
      exact ⟨bytes, more, rfl, rfl, rfl⟩

/-- A batch of entries is filed after those there. -/
theorem Filed.putEntries (filed : Filed codec db log) (encoded : es.mapM codec.toVec = .ok values)
    (fits : log.length + es.length < i64Size) :
    Filed codec (putEntries db (log.length + 1) values) (log ++ es) := by
  induction es generalizing db log values with
  | nil =>
    rw [List.mapM_nil] at encoded
    cases encoded
    rw [List.append_nil]
    exact filed
  | cons e es ih =>
    obtain ⟨bytes, more, first, others, rfl⟩ := mapM_cons_ok encoded
    rw [List.length_cons] at fits
    have filed := ih (filed.insert_next first (by omega)) others
      (by rw [List.length_append, List.length_singleton]; omega)
    rw [RocksLogStream.putEntries, List.append_cons]
    rw [List.length_append, List.length_singleton] at filed
    push_cast at filed
    exact filed

theorem putEntries_other (other : key.head? ≠ some entryPrefix) (values : List Bytes) :
    ∀ (db : Table Bytes Bytes) (position : Int),
      (putEntries db position values).lookup key = db.lookup key := by
  induction values with
  | nil => exact fun _ _ => rfl
  | cons value values ih =>
    intro db position
    have apart : key ≠ entryKey position := by
      rintro rfl
      exact other rfl
    rw [RocksLogStream.putEntries, ih, AList.lookup_insert_ne apart]

theorem mapM_encodes (encoded : es.mapM codec.toVec = .ok values) :
    ∀ e ∈ es, ∃ bytes, codec.toVec e = .ok bytes := by
  induction es generalizing values with
  | nil => exact fun _ there => by cases there
  | cons e es ih =>
    obtain ⟨bytes, more, first, others, rfl⟩ := mapM_cons_ok encoded
    intro d there
    rcases List.mem_cons.mp there with rfl | there
    · exact ⟨bytes, first⟩
    · exact ih others d there

/-- The stream holds the entries of a log, the next position is stored with them, and each entry
    is read back as it is. -/
structure Keeps (codec : Codec P) (s : RocksLogStream) (log : List (Entry P)) : Prop where
  filed : Filed codec s.db log
  next : s.nextId = log.length + 1
  stream : s.streamId = 1
  storedNext : (s.db.lookup metaNextId).elim (.ok 1) decodeNext = .ok s.nextId
  storedStream : s.db.lookup metaStreamId = none
  encodes : ∀ e ∈ log, ∃ bytes, codec.toVec e = .ok bytes ∧ codec.fromSlice bytes = .ok e
  fits : log.length + 1 < i64Size

theorem Keeps.open_ (keeps : Keeps codec s log) :
    RocksLogStream.open_ s.db = .ok { s with watch := 0 } := by
  have stream : s.streamId = 1 := keeps.stream
  simp only [RocksLogStream.open_, keeps.storedNext, keeps.storedStream, Option.elim_none]
  cases s
  cases stream
  rfl

theorem Keeps.reopened (keeps : Keeps codec s log) (watch : Nat) :
    Keeps codec { s with watch := watch } log :=
  ⟨keeps.filed, keeps.next, keeps.stream, keeps.storedNext, keeps.storedStream, keeps.encodes,
    keeps.fits⟩

theorem Keeps.read_at (keeps : Keeps codec s log) (found : log[i]? = some e) :
    s.read codec (i + 1) = .ok (some e) := by
  obtain ⟨bytes, encoded, decoded⟩ := keeps.encodes e (List.mem_of_getElem? found)
  rw [read, if_neg (by omega), keeps.filed.lookup found encoded]
  dsimp only
  rw [decoded]

theorem Keeps.read_none (keeps : Keeps codec s log) {position} (range : IsI64 position)
    (out : position < 1 ∨ log.length < position) : s.read codec position = .ok none := by
  unfold read
  split
  next => rfl
  next above =>
    obtain ⟨n, rfl⟩ := Int.eq_ofNat_of_zero_le (by omega : 0 ≤ position)
    cases found : s.db.lookup (entryKey n) with
    | none => rfl
    | some bytes =>
      obtain ⟨i, e, there, same, -⟩ := (keeps.filed _ _ rfl).mp found
      have inside := (List.getElem?_eq_some_iff.mp there).1
      have fits := keeps.fits
      have := entryKey_inj (i := n) (j := i + 1) (by have := range.2; omega) (by omega)
        (by push_cast; exact same)
      omega

/-! ### Sweeps -/

/-- What an entry is filed with. -/
def cell (codec : Codec P) (e : Entry P) : Bytes × Bytes :=
  (entryKey e.entryId, (codec.toVec e).toOption.getD [])

theorem Keeps.mem_cells (keeps : Keeps codec s log)
    (stamped : ∀ (i : Nat) (e : Entry P), log[i]? = some e → e.entryId = i + 1) {next}
    (key bytes : Bytes) :
    (key, bytes) ∈ (Scan.iterate s.db (entryKey next)).filter
        (fun cell => cell.1.head? == some entryPrefix) ↔
      (key, bytes) ∈ (log.drop (unsigned next - 1)).map (cell codec) := by
  have fits := keeps.fits
  rw [List.mem_filter, Scan.mem_iterate, List.mem_map]
  constructor
  · rintro ⟨⟨found, after⟩, entry⟩
    obtain ⟨i, e, there, rfl, encoded⟩ := (keeps.filed _ _ (beq_iff_eq.mp entry)).mp found
    have inside := (List.getElem?_eq_some_iff.mp there).1
    rw [entryKey_le, unsigned_of_nonneg (x := i + 1) (by omega) (by omega)] at after
    refine ⟨e, List.mem_iff_getElem?.mpr ⟨i - (unsigned next - 1), ?_⟩, ?_⟩
    · rw [List.getElem?_drop, Nat.add_sub_cancel' (by omega), there]
    · rw [cell, stamped i e there, encoded]
      rfl
  · rintro ⟨e, there, same⟩
    obtain ⟨j, there⟩ := List.mem_iff_getElem?.mp there
    rw [List.getElem?_drop] at there
    have inside := (List.getElem?_eq_some_iff.mp there).1
    obtain ⟨value, encoded, -⟩ := keeps.encodes e (List.mem_of_getElem? there)
    obtain ⟨rfl, rfl⟩ := Prod.mk.inj same
    rw [stamped _ e there, encoded]
    refine ⟨⟨keeps.filed.lookup there encoded, ?_⟩, rfl⟩
    rw [entryKey_le, unsigned_of_nonneg (x := _ + 1) (by omega) (by omega)]
    omega

theorem cells_ascending (fits : log.length + 1 < i64Size)
    (stamped : ∀ (i : Nat) (e : Entry P), log[i]? = some e → e.entryId = i + 1) :
    Scan.Ascending Prod.fst (log.map (cell codec)) := by
  refine List.pairwise_map.mpr (List.pairwise_iff_getElem.mpr fun i j inI inJ less => ?_)
  have atI := stamped i _ (List.getElem?_eq_getElem inI)
  have atJ := stamped j _ (List.getElem?_eq_getElem inJ)
  show entryKey _ < entryKey _
  rw [atI, atJ, entryKey_lt, unsigned_of_nonneg (by omega) (by omega),
    unsigned_of_nonneg (by omega) (by omega)]
  omega

/-- A sweep finds all entries from its start on. -/
theorem Keeps.sweep (keeps : Keeps codec s log)
    (stamped : ∀ (i : Nat) (e : Entry P), log[i]? = some e → e.entryId = i + 1)
    (next : Int) : s.sweep codec next = log.drop (unsigned next - 1) := by
  have cells : (Scan.iterate s.db (entryKey next)).filter
      (fun cell => cell.1.head? == some entryPrefix) =
        (log.drop (unsigned next - 1)).map (cell codec) := by
    refine Scan.Ascending.eq_of_mem ((Scan.iterate_ascending s.db _).filter _)
      ?_ fun pair => keeps.mem_cells stamped pair.1 pair.2
    rw [List.map_drop]
    exact (cells_ascending keeps.fits stamped).drop
  have decoded : ∀ e ∈ log.drop (unsigned next - 1),
      (codec.fromSlice (cell codec e).2).toOption = some e := by
    intro e there
    obtain ⟨bytes, encoded, decoded⟩ := keeps.encodes e (List.mem_of_mem_drop there)
    rw [cell, encoded]
    exact congrArg Except.toOption decoded
  rw [RocksLogStream.sweep, cells, List.filterMap_map]
  calc _ = (log.drop (unsigned next - 1)).filterMap some := List.filterMap_congr decoded
    _ = _ := List.filterMap_some

/-! ### Readers -/

variable {from_ : Int} {r : Reader P}

/-- What a sweep at the cursor finds is what is left to hand out. -/
theorem rest_sweep {first} (range : IsI64 first) (some_ : first ≠ 0)
    (fits : log.length + 1 < i64Size) (handed : xs <+: rest log first) :
    rest log first = xs ++ log.drop (unsigned (first + xs.length) - 1) := by
  by_cases below : first < 1
  · rw [rest_below below, List.prefix_nil] at handed
    subst handed
    have far : i64Size ≤ unsigned (first + ([] : List (Entry P)).length) := by
      rw [List.length_nil, Int.natCast_zero, Int.add_zero]
      exact unsigned_of_neg (by omega) range
    rw [rest_below below, List.nil_append, List.drop_eq_nil_of_le (by omega)]
  · rw [rest_drop below] at handed ⊢
    have most := handed.length_le
    rw [List.length_drop] at most
    have cursor : unsigned (first + xs.length) - 1 = (first - 1).toNat + xs.length := by
      rw [unsigned_of_nonneg (by omega) (by have := range.2; omega)]
      omega
    rw [cursor]
    exact drop_handed handed

structure Follows (s : RocksLogStream) (log : List (Entry P)) (from_ : Int) (r : Reader P) : Prop where
  asked : IsI64 from_ ∧ from_ ≠ 0
  next : r.next = start from_ + r.yielded.length
  handed : r.yielded ++ r.committed <+: rest log (start from_)
  seen : r.seen ≤ s.watch
  caught : r.awaiting = true → r.seen = s.watch → r.yielded = rest log (start from_)

theorem start_range (asked : IsI64 from_ ∧ from_ ≠ 0) : IsI64 (start from_) ∧ start from_ ≠ 0 := by
  unfold start
  split
  next => decide
  next => exact asked

theorem follows_streamRead (s : RocksLogStream) (log : List (Entry P))
    (asked : IsI64 from_ ∧ from_ ≠ 0) : Follows s log from_ (s.streamRead from_) where
  asked := asked
  next := by simp [streamRead, start]
  handed := List.nil_prefix
  seen := le_rfl
  caught awaiting := by cases awaiting

theorem Follows.poll (follows : Follows s log from_ r) (keeps : Keeps codec s log)
    (stamped : ∀ (i : Nat) (e : Entry P), log[i]? = some e → e.entryId = i + 1) :
    Follows s log from_ (r.poll codec s) := by
  unfold Reader.poll
  split
  next awaiting =>
    split
    next => exact follows
    next =>
      exact { asked := follows.asked, next := follows.next, handed := follows.handed, seen := le_rfl
              caught := fun now => by cases now }
  next looking =>
    have handed := follows.handed
    split
    next e committed holding =>
      rw [holding] at handed
      refine ⟨follows.asked, ?_, ?_, follows.seen, fun awaiting => absurd awaiting looking⟩
      · rw [List.length_append, List.length_singleton, follows.next]
        push_cast
        omega
      · rw [List.append_assoc]
        exact handed
    next empty =>
      rw [empty, List.append_nil] at handed
      obtain ⟨range, some_⟩ := start_range follows.asked
      have left := rest_sweep range some_ keeps.fits handed
      rw [← follows.next, ← keeps.sweep stamped] at left
      split
      next nothing =>
        rw [nothing, List.append_nil] at left
        exact ⟨follows.asked, follows.next, follows.handed, follows.seen, fun _ _ => left.symm⟩
      next =>
        refine ⟨follows.asked, follows.next, ?_, follows.seen, fun awaiting => absurd awaiting looking⟩
        exact ⟨[], (List.append_nil _).trans left.symm⟩

/-- The steps of a reader before it yields again. -/
def Reader.pauses (r : Reader P) : Nat :=
  if r.awaiting then 2 else if r.committed = [] then 1 else 0

theorem Reader.pauses_le (looking : ¬ r.awaiting = true) : r.pauses ≤ 1 := by
  rw [pauses, if_neg looking]
  split <;> omega

/-- How far a reader is from having yielded everything. -/
def toGo (log : List (Entry P)) (from_ : Int) (r : Reader P) : Nat :=
  3 * ((rest log (start from_)).length - r.yielded.length) + r.pauses

theorem Follows.closer (follows : Follows s log from_ r) (keeps : Keeps codec s log)
    (stamped : ∀ (i : Nat) (e : Entry P), log[i]? = some e → e.entryId = i + 1)
    (unfinished : r.yielded ≠ rest log (start from_)) :
    toGo log from_ (r.poll codec s) < toGo log from_ r := by
  unfold Reader.poll
  split
  next awaiting =>
    split
    next current => exact absurd (follows.caught awaiting current) unfinished
    next =>
      have before : r.pauses = 2 := if_pos awaiting
      have after : ({ r with awaiting := false, seen := s.watch } : Reader P).pauses ≤ 1 :=
        Reader.pauses_le Bool.false_ne_true
      simp only [toGo]
      omega
  next looking =>
    have handed := follows.handed
    split
    next e committed holding =>
      have most := handed.length_le
      rw [holding, List.length_append, List.length_cons] at most
      have after := Reader.pauses_le (r := { r with
        next := r.next + 1, committed := committed, yielded := r.yielded ++ [e] }) looking
      simp only [toGo, List.length_append, List.length_singleton]
      omega
    next empty =>
      rw [empty, List.append_nil] at handed
      obtain ⟨range, some_⟩ := start_range follows.asked
      have left := rest_sweep range some_ keeps.fits handed
      rw [← follows.next, ← keeps.sweep stamped] at left
      split
      next nothing =>
        rw [nothing, List.append_nil] at left
        exact absurd left.symm unfinished
      next found =>
        have before : r.pauses = 1 := by rw [Reader.pauses, if_neg looking, if_pos empty]
        have after : ({ r with committed := s.sweep codec r.next } : Reader P).pauses = 0 := by
          rw [Reader.pauses, if_neg looking, if_neg found]
        simp only [toGo]
        omega

theorem Follows.grow (follows : Follows s log from_ r) {s'} (es : List (Entry P))
    (sent : s'.watch = s.watch + 1) : Follows s' (log ++ es) from_ r where
  asked := follows.asked
  next := follows.next
  handed := rest_grow follows.handed es
  seen := by
    rw [sent]
    exact Nat.le_succ_of_le follows.seen
  caught _ current := by
    have := follows.seen
    omega

/-! ### Appends -/

/-- A batch that is written is filed after the entries there, with the next position. -/
theorem Keeps.append (keeps : Keeps codec s log)
    (encoded : (stamp s.streamId s.nextId es).mapM codec.toVec = .ok values)
    (decodes : ∀ e ∈ stamp s.streamId s.nextId es, ∀ bytes,
      codec.toVec e = .ok bytes → codec.fromSlice bytes = .ok e)
    (range : IsI64 (s.nextId + es.length)) :
    Keeps codec
      { s with
        db := (putEntries s.db s.nextId values).insert metaNextId (toBeBytes (s.nextId + es.length))
        nextId := s.nextId + es.length
        watch := s.watch + 1 }
      (log ++ stamp 1 (log.length + 1) es) := by
  have next := keeps.next
  rw [keeps.stream, next] at encoded decodes
  have fits : log.length + es.length + 1 < i64Size := by
    have := range.2
    omega
  have filed : Filed codec (putEntries s.db s.nextId values) (log ++ stamp 1 (log.length + 1) es) := by
    rw [next]
    exact keeps.filed.putEntries encoded (by rw [length_stamp]; omega)
  have apart : metaNextId.head? ≠ some entryPrefix := by decide
  refine ⟨filed.insert_other apart _, ?_, keeps.stream, ?_, ?_, ?_, ?_⟩
  · show s.nextId + es.length = _
    rw [next, List.length_append, length_stamp]
    push_cast
    omega
  · rw [AList.lookup_insert]
    exact decodeNext_toBeBytes range
  · rw [AList.lookup_insert_ne (by decide), putEntries_other (by decide)]
    exact keeps.storedStream
  · intro e there
    rcases List.mem_append.mp there with old | new
    · exact keeps.encodes e old
    · obtain ⟨bytes, written⟩ := mapM_encodes encoded e new
      exact ⟨bytes, written, decodes e new bytes written⟩
  · rw [List.length_append, length_stamp]
    exact fits

/-- Everything an append can do. -/
theorem append_cases (codec : Codec P) (written : Except String Unit) (s : RocksLogStream)
    (entries : List (Entry P)) :
    (entries = [] ∧ s.append codec written entries = .ok (s, s.nextId - 1)) ∨
    (∃ e, s.append codec written entries = .error e) ∨
    ∃ values, (stamp s.streamId s.nextId entries).mapM codec.toVec = .ok values ∧
      s.append codec written entries =
        .ok ({ s with
          db := (putEntries s.db s.nextId values).insert metaNextId
            (toBeBytes (s.nextId + entries.length))
          nextId := s.nextId + entries.length
          watch := s.watch + 1 }, s.nextId + entries.length - 1) := by
  unfold append
  split
  next empty => exact .inl ⟨List.isEmpty_iff.mp empty, rfl⟩
  next =>
    refine .inr ?_
    split
    next e _ => exact .inl ⟨_, rfl⟩
    next values encoded =>
      split
      next => exact .inl ⟨_, rfl⟩
      next => exact .inr ⟨values, encoded, rfl⟩

end RocksLogStream

namespace Durable

variable {codec : Codec P} {d u : Durable P}

/-- Of every state of a durable stream. -/
structure Sound (codec : Codec P) (d : Durable P) : Prop where
  log : d.log.Keeps codec (held d.appended)
  reader : ∀ from_ r, d.reader = some (from_, r) → d.log.Follows (held d.appended) from_ r

theorem Sound.init (codec : Codec P) : Sound codec init where
  log := {
    filed := .empty codec
    next := rfl
    stream := rfl
    storedNext := rfl
    storedStream := rfl
    encodes := fun _ there => by cases there
    fits := (by decide : 0 + 1 < i64Size) }
  reader _ _ reading := by cases reading

theorem Sound.step {a} (sound : d.Sound codec) (spared : Spared codec d a)
    (moved : d.step codec a = some u) : u.Sound codec := by
  cases a with
  | append entries written =>
    rcases d.log.append_cases codec written entries with
      ⟨rfl, appended⟩ | ⟨e, appended⟩ | ⟨values, encoded, appended⟩
    · simp only [Durable.step, appended, List.append_nil, Option.some.injEq] at moved
      exact moved ▸ sound
    · simp only [Durable.step, appended, Option.some.injEq] at moved
      exact moved ▸ sound
    · simp only [Durable.step, appended, Option.some.injEq] at moved
      subst moved
      have kept := sound.log.append encoded spared.1 spared.2
      refine ⟨?_, fun from_ r reading => ?_⟩
      · rw [held_append]
        exact kept
      · rw [held_append]
        exact (sound.reader from_ r reading).grow _ rfl
  | reopen =>
    simp only [Durable.step, sound.log.open_, Option.some.injEq] at moved
    subst moved
    exact ⟨sound.log.reopened 0, fun _ _ reading => by cases reading⟩
  | streamRead from_ =>
    cases moved
    refine ⟨sound.log, fun _ _ reading => ?_⟩
    cases reading
    exact RocksLogStream.follows_streamRead _ _ spared
  | poll =>
    obtain ⟨⟨from_, r⟩, reading, rfl⟩ := Option.map_eq_some_iff.mp moved
    refine ⟨sound.log, fun _ _ polled => ?_⟩
    cases polled
    exact (sound.reader from_ r reading).poll sound.log fun _ _ => held_entryId

end Durable

end Spica.Streams
