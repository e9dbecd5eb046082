import Spica.Backends

/-! # Scans

A scan over keys reads the rows of its kind first and then runs on into those of the kinds that
follow. It agrees with the store in memory where it has stopped by then, or where what follows
happens to be passed by.
-/

namespace Spica.RocksStorage

variable {p : Projection} {kind : ObjectKind} {n : ObjectName} {v : Encoded} {keys : KeyBuilder}
  {cells : Table Key Encoded}
variable {key : Key} {rest entries : List (Key × Encoded)}

/-! ## What a scan reads -/

/-- The text the rows of a kind are sorted by. -/
def text (row : ObjectName × Encoded) : Key := row.1.asStr.toList

def keyed (keys : KeyBuilder) (kind : ObjectKind) (row : ObjectName × Encoded) : Key × Encoded :=
  (keys.row kind row.1.asStr, row.2)

/-- The rows of a kind in the order of their names. -/
def listed (p : Projection) (kind : ObjectKind) : List (ObjectName × Encoded) :=
  Scan.ordered text (InMemoryStorage.rows p kind)

theorem mem_listed : (n, v) ∈ listed p kind ↔ p.row kind n = some v := by
  rw [listed, (Scan.ordered_perm text _).mem_iff, InMemoryStorage.mem_rows]

theorem text_distinct (p : Projection) (kind : ObjectKind) :
    ((InMemoryStorage.rows p kind).map text).Nodup := by
  have split : text = (fun n : ObjectName => n.asStr.toList) ∘ Prod.fst := rfl
  rw [split, ← List.map_map]
  refine (InMemoryStorage.rows_distinct p kind).map_on fun n _ n' _ same => ?_
  exact ObjectName.asStr_inj (String.toList_inj.mp same)

theorem listed_ascending (p : Projection) (kind : ObjectKind) :
    Scan.Ascending text (listed p kind) :=
  Scan.ordered_ascending (text_distinct p kind)

/-- First come the rows of the kind. -/
theorem Carries.inside (carries : Carries keys cells p) (kind : ObjectKind) :
    Scan.within (keys.kindPrefix kind) (Scan.iterate cells (keys.kindPrefix kind)) =
      (listed p kind).map (keyed keys kind) := by
  have up : Scan.Ascending Prod.fst ((listed p kind).map (keyed keys kind)) := by
    refine List.pairwise_map.mpr ((listed_ascending p kind).imp fun {a b} lt => ?_)
    simp only [keyed, KeyBuilder.row_eq, Scan.append_lt_append_iff]
    exact lt
  have range : Scan.Ascending Prod.fst
      (Scan.within (keys.kindPrefix kind) (Scan.iterate cells (keys.kindPrefix kind))) :=
    (Scan.iterate_ascending cells (keys.kindPrefix kind)).filter _
  refine Scan.Ascending.eq_of_mem range up fun e => ?_
  obtain ⟨key, v⟩ := e
  rw [Scan.mem_within, Scan.mem_iterate, List.mem_map]
  constructor
  · rintro ⟨⟨found, above⟩, carried⟩
    obtain aside | ⟨other, n, fits, rfl⟩ := carries.known found
    · exact absurd (aside.lt_kindPrefix kind) (not_lt.mpr above)
    · obtain rfl := (keys.kindPrefix_prefix_row_iff kind other n.asStr).mp carried
      exact ⟨(n, v), mem_listed.mpr (carries.rows fits ▸ found), rfl⟩
  · rintro ⟨⟨n, v'⟩, there, same⟩
    obtain ⟨rfl, rfl⟩ := Prod.mk.inj same
    have row := mem_listed.mp there
    refine ⟨⟨(carries.rows (carries.fits row)).trans row, ?_⟩, ?_⟩
    · exact (keys.kindPrefix_le_row_iff kind kind n.asStr).mpr (.inl rfl)
    · exact (keys.kindPrefix_prefix_row_iff kind kind n.asStr).mpr rfl

/-- Then come the rows of the kinds that follow. -/
theorem Carries.outside (carries : Carries keys cells p) :
    (key, v) ∈ Scan.past (keys.kindPrefix kind) (Scan.iterate cells (keys.kindPrefix kind)) ↔
    ∃ other ∈ kind.later, ∃ n, p.row other n = some v ∧ key = keys.row other n.asStr := by
  rw [Scan.mem_past, Scan.mem_iterate]
  constructor
  · rintro ⟨⟨found, above⟩, past⟩
    obtain aside | ⟨other, n, fits, rfl⟩ := carries.known found
    · exact absurd (aside.lt_kindPrefix kind) (not_lt.mpr above)
    · obtain rfl | later := (keys.kindPrefix_le_row_iff kind other n.asStr).mp above
      · exact absurd ((keys.kindPrefix_prefix_row_iff other other n.asStr).mpr rfl) past
      · exact ⟨other, later, n, carries.rows fits ▸ found, rfl⟩
  · rintro ⟨other, later, n, row, rfl⟩
    refine ⟨⟨(carries.rows (carries.fits row)).trans row, ?_⟩, ?_⟩
    · exact (keys.kindPrefix_le_row_iff kind other n.asStr).mpr (.inr later)
    · rw [keys.kindPrefix_prefix_row_iff kind other n.asStr]
      rintro rfl
      revert later
      cases other <;> decide

/-! ## Pages -/

section pages

variable {quoted : String → String} {startAfter : Option ObjectName} {limit : Nat}
  {out : List (ObjectName × Encoded)}

/-- The loop passes a key by: it can be cut at the prefix's length, and what is left of it does
    not come after the position the page continues from. -/
def Passes (keys : KeyBuilder) (kind : ObjectKind) (startAfter : Option ObjectName) (key : Key) :
    Prop :=
  (keys.kindPrefix kind).length ≤ key.length ∧
    ∃ a ∈ startAfter, key.drop (keys.kindPrefix kind).length ≤ a.asStr.toList

/-- The rows after a position. -/
def after (startAfter : Option ObjectName) (rows : List (ObjectName × Encoded)) :
    List (ObjectName × Encoded) :=
  rows.filter fun row => InMemoryStorage.isAfter startAfter row.1

end pages

/-! ## Tasks to claim -/

section tasks

variable {unreadable : Encoded → String} {what resource : String} {now : Timestamp} {limit : Nat}
  {out : List Task}

end tasks

/-! ## Both stores -/

/-- In memory the order of the table is forgotten. -/
theorem memory_eq (p : Projection) (order : Order (ObjectName × Encoded)) (kind : ObjectKind)
    (startAfter : Option ObjectName) (limit : Nat) :
    InMemoryStorage.listKind order p kind startAfter limit =
      (after startAfter (listed p kind)).take limit := by
  have perm := order.perm (InMemoryStorage.rows p kind)
  have distinct := (perm.map text).nodup_iff.mpr (text_distinct p kind)
  have same : Scan.ordered text (order.arrange (InMemoryStorage.rows p kind)) = listed p kind := by
    refine (Scan.ordered_ascending distinct).eq_of_mem (listed_ascending p kind) fun row => ?_
    rw [listed, (Scan.ordered_perm text _).mem_iff, (Scan.ordered_perm text _).mem_iff, perm.mem_iff]
  exact congrArg (fun rows => (after startAfter rows).take limit) same

end Spica.RocksStorage
