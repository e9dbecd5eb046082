import Spica.LogStreams

/-! # What is asked of a log stream

A stream holds the entries appended, the n-th at position n. A reader has yielded, in order and
without a gap, the entries from its start on, and it goes on to yield all of them. The stream in
memory does this as it stands.
-/

namespace Spica.Streams

open Log

variable {P : Type} {xs ys : List (Entry P)} {sid id : Int}
variable {appended : List (Entry P)} {i : Nat} {e : Entry P}

/-! ## Stamped batches -/

theorem stamp_append : stamp sid id (xs ++ ys) = stamp sid id xs ++ stamp sid (id + xs.length) ys := by
  induction xs generalizing id with
  | nil => simp [stamp]
  | cons x xs ih =>
    rw [List.cons_append, stamp, stamp, ih, List.cons_append, List.length_cons]
    congr 3
    push_cast
    omega

theorem stamp_getElem? (n : Nat) :
    (stamp sid id xs)[n]? = xs[n]?.map fun e => { e with streamId := sid, entryId := id + n } := by
  induction xs generalizing id n with
  | nil => simp [stamp]
  | cons x xs ih =>
    cases n with
    | zero => simp [stamp]
    | succ n =>
      rw [stamp, List.getElem?_cons_succ, List.getElem?_cons_succ, ih]
      congr 1
      funext e
      congr 1
      push_cast
      omega

@[simp] theorem length_stamp : (stamp sid id xs).length = xs.length := by
  induction xs generalizing id with
  | nil => rfl
  | cons x xs ih => rw [stamp, List.length_cons, List.length_cons, ih]

/-- What a stream holds once the entries were appended to it. -/
def held (appended : List (Entry P)) : List (Entry P) := stamp 1 1 appended

theorem held_append (appended entries : List (Entry P)) :
    held (appended ++ entries) = held appended ++ stamp 1 ((held appended).length + 1) entries := by
  rw [held, stamp_append, held, length_stamp, Int.add_comm]

theorem held_entryId (found : (held appended)[i]? = some e) : e.entryId = i + 1 := by
  rw [held, stamp_getElem?] at found
  obtain ⟨d, -, rfl⟩ := Option.map_eq_some_iff.mp found
  exact Int.add_comm 1 i

/-! ## What is asked of a stream -/

/-- The entries are at the positions 1, 2, 3 and so on, and nothing is elsewhere. -/
structure Holds (appended : List (Entry P)) (nextId : Int)
    (read : Int → Except LogError (Option (Entry P))) : Prop where
  next : nextId = appended.length + 1
  reads : ∀ (i : Nat) (e : Entry P), appended[i]? = some e →
    read (i + 1) = .ok (some { e with streamId := 1, entryId := i + 1 })
  ends : ∀ position, IsI64 position → position < 1 ∨ appended.length < position →
    read position = .ok none

/-- Where a reader starts. -/
def start (from_ : Int) : Int := if from_ = nil then 1 else from_

/-- What there is from a position on. Below 1 there is no position. -/
def rest (log : List (Entry P)) (first : Int) : List (Entry P) :=
  if first < 1 then [] else log.drop (first - 1).toNat

/-- A reader has yielded what there is from its start on, up to some point, the positions one after
    the other, and yields all of it if it goes on. -/
structure Tails {R : Type} (yielded : R → List (Entry P)) (poll : R → R)
    (appended : List (Entry P)) (from_ : Int) (r : R) : Prop where
  entries : yielded r <+: rest (held appended) (start from_)
  positions : ∀ (i : Nat) (e : Entry P), (yielded r)[i]? = some e → e.entryId = start from_ + i
  delivers : ∃ n, yielded (poll^[n] r) = rest (held appended) (start from_)

section

variable {log : List (Entry P)} {first : Int}

theorem rest_below (below : first < 1) : rest log first = [] := if_pos below

theorem rest_drop (above : ¬ first < 1) : rest log first = log.drop (first - 1).toNat := if_neg above

theorem rest_grow (handed : xs <+: rest log first) (es : List (Entry P)) :
    xs <+: rest (log ++ es) first := by
  by_cases below : first < 1
  · rw [rest_below below] at handed ⊢
    exact handed
  · rw [rest_drop below] at handed ⊢
    exact handed_grow handed es

theorem rest_positions (handed : xs <+: rest (held appended) first) (found : xs[i]? = some e) :
    e.entryId = first + i := by
  by_cases below : first < 1
  · rw [rest_below below, List.prefix_nil] at handed
    subst handed
    cases found
  · rw [rest_drop below] at handed
    obtain ⟨more, whole⟩ := handed
    have here : ((held appended).drop (first - 1).toNat)[i]? = some e := by
      rw [← whole]
      obtain ⟨inside, there⟩ := List.getElem?_eq_some_iff.mp found
      rw [List.getElem?_append_left inside, found]
    rw [List.getElem?_drop] at here
    rw [held_entryId here]
    omega

end

/-! ## In memory -/

namespace InMemoryLogStream

variable {s : InMemoryLogStream P} {first from_ : Int} {r : Reader P}

/-- The entry after those handed out is the one read at the cursor. -/
theorem read_next (handed : xs <+: rest s.entries first) :
    (∀ e, s.read (first + xs.length) = some e → xs ++ [e] <+: rest s.entries first) ∧
      (s.read (first + xs.length) = none → xs = rest s.entries first) := by
  by_cases below : first < 1
  · rw [rest_below below, List.prefix_nil] at handed
    subst handed
    have nothing : s.read (first + ([] : List (Entry P)).length) = none :=
      if_pos (by simp only [List.length_nil]; omega)
    rw [nothing, rest_below below]
    refine ⟨?_, fun _ => rfl⟩
    intro _ found
    cases found
  · rw [rest_drop below] at handed ⊢
    have index : (first + xs.length - 1).toNat = (first - 1).toNat + xs.length := by omega
    have cursor : s.read (first + xs.length) = s.entries[(first - 1).toNat + xs.length]? := by
      rw [read, if_neg (by omega), index]
    rw [cursor]
    exact ⟨fun _ found => handed_next handed found, handed_all handed⟩

/-- A reader's cursor is past what it has yielded, and if it waits and has missed no send, it has
    yielded everything. -/
structure Follows (s : InMemoryLogStream P) (from_ : Int) (r : Reader P) : Prop where
  next : r.next = start from_ + r.yielded.length
  handed : r.yielded <+: rest s.entries (start from_)
  seen : r.seen ≤ s.watch
  caught : r.awaiting = true → r.seen = s.watch → r.yielded = rest s.entries (start from_)

theorem follows_streamRead (s : InMemoryLogStream P) (from_ : Int) :
    Follows s from_ (s.streamRead from_) where
  next := by simp [streamRead, start]
  handed := List.nil_prefix
  seen := le_rfl
  caught awaiting := by cases awaiting

theorem Follows.poll (follows : Follows s from_ r) : Follows s from_ (r.poll s) := by
  unfold Reader.poll
  split
  next awaiting =>
    split
    next => exact follows
    next =>
      exact { next := follows.next, handed := follows.handed, seen := le_rfl
              caught := fun now => by cases now }
  next =>
    obtain ⟨more, none⟩ := read_next follows.handed
    rw [follows.next]
    split
    next e found =>
      refine ⟨?_, more e found, follows.seen, fun awaiting => ?_⟩
      · simp only [List.length_append, List.length_singleton]
        push_cast
        omega
      · exact absurd awaiting ‹_›
    next missing =>
      exact ⟨rfl, follows.handed, follows.seen, fun _ _ => none missing⟩

/-- How far a reader is from having yielded everything. -/
def toGo (s : InMemoryLogStream P) (from_ : Int) (r : Reader P) : Nat :=
  2 * ((rest s.entries (start from_)).length - r.yielded.length) + if r.awaiting then 1 else 0

theorem Follows.closer (follows : Follows s from_ r)
    (unfinished : r.yielded ≠ rest s.entries (start from_)) :
    toGo s from_ (r.poll s) < toGo s from_ r := by
  unfold Reader.poll
  split
  next awaiting =>
    split
    next current => exact absurd (follows.caught awaiting current) unfinished
    next => simp [toGo, awaiting]
  next looking =>
    obtain ⟨more, none⟩ := read_next follows.handed
    rw [follows.next]
    split
    next e found =>
      have most := (more e found).length_le
      simp only [toGo, List.length_append, List.length_singleton, looking] at most ⊢
      omega
    next missing => exact absurd (none missing) unfinished

theorem Follows.append (follows : Follows s from_ r) (entries : List (Entry P)) :
    Follows (s.append entries).1 from_ r where
  next := follows.next
  handed := rest_grow follows.handed _
  seen := Nat.le_succ_of_le follows.seen
  caught _ current := by
    -- the append sent on the watch
    have missed : r.seen = s.watch + 1 := current
    have := follows.seen
    omega

end InMemoryLogStream

namespace Transient

/-- Of every state of a stream in memory. -/
structure Sound (t : Transient P) : Prop where
  entries : t.log.entries = held t.appended
  next : t.log.nextEntryId = (held t.appended).length + 1
  stream : t.log.streamId = 1
  reader : ∀ from_ r, t.reader = some (from_, r) → t.log.Follows from_ r

theorem Sound.init : Sound (init : Transient P) where
  entries := rfl
  next := rfl
  stream := rfl
  reader _ _ reading := by cases reading

theorem Sound.step {t u : Transient P} {a} (sound : t.Sound) (moved : t.step a = some u) :
    u.Sound := by
  cases a with
  | append entries =>
    cases moved
    have added : t.log.entries ++ stamp t.log.streamId t.log.nextEntryId entries =
        held (t.appended ++ entries) := by
      rw [held_append, sound.entries, sound.next, sound.stream]
    refine ⟨added, ?_, sound.stream, fun from_ r reading => ?_⟩
    · show t.log.nextEntryId + entries.length = _
      rw [sound.next, held_append, List.length_append, length_stamp]
      push_cast
      omega
    · exact (sound.reader from_ r reading).append entries
  | streamRead from_ =>
    cases moved
    refine ⟨sound.entries, sound.next, sound.stream, fun _ _ reading => ?_⟩
    cases reading
    exact t.log.follows_streamRead from_
  | poll =>
    obtain ⟨⟨from_, r⟩, reading, rfl⟩ := Option.map_eq_some_iff.mp moved
    refine ⟨sound.entries, sound.next, sound.stream, fun _ _ polled => ?_⟩
    cases polled
    exact (sound.reader from_ r reading).poll

end Transient

end Spica.Streams
