import Spica.Keys
import Spica.Lib.Segments

/-! # What a key addresses

Every key the builder makes is a scope and a few segments that spell the method, the kinds and the
names it was made from. No segment contains the separator, so the key determines them, and a scan
from one of the builder's prefixes meets exactly the keys of one kind, of one flow's versions or
of one parent's children.
-/

namespace Spica

/-- A call of one of the builder's methods. -/
inductive KeyCall where
  | execution (r : ObjectRef .execution)
  | thread (r : ObjectRef .thread)
  | activity (r : ObjectRef .activity)
  | task (r : ObjectRef .task)
  | flow (name : FlowName)
  | flowVersion (name : ObjectName)
  | childEdge (parent child : RawObjectRef)
  | vars (threadName : ObjectName)
  | lastProcessedPosition
  | nextGeneratedSeq

def KeyBuilder.key (keys : KeyBuilder) : KeyCall → Key
  | .execution r => keys.execution r
  | .thread r => keys.thread r
  | .activity r => keys.activity r
  | .task r => keys.task r
  | .flow name => keys.flow name
  | .flowVersion name => keys.flowVersion name
  | .childEdge parent child => keys.childEdge parent child
  | .vars threadName => keys.vars threadName
  | .lastProcessedPosition => keys.lastProcessedPosition
  | .nextGeneratedSeq => keys.nextGeneratedSeq

/-- The method, the kinds and the names of a call; identities are no part of it. -/
inductive Address where
  | row (kind : ObjectKind) (name : ObjectName)
  | childEdge (parentKind : ObjectKind) (parent : ObjectName) (childKind : ObjectKind)
      (child : ObjectName)
  | vars (thread : ObjectName)
  | lastProcessedPosition
  | nextGeneratedSeq
  deriving DecidableEq

def KeyCall.address : KeyCall → Address
  | .execution r => .row .execution r.name
  | .thread r => .row .thread r.name
  | .activity r => .row .activity r.name
  | .task r => .row .task r.name
  | .flow name => .row .flow (.plain name)
  | .flowVersion name => .row .flowVersion name
  | .childEdge parent child => .childEdge parent.kind parent.name child.kind child.name
  | .vars threadName => .vars threadName
  | .lastProcessedPosition => .lastProcessedPosition
  | .nextGeneratedSeq => .nextGeneratedSeq

/-! ## Segments -/

/-- The segments behind the scope. -/
def Address.segments : Address → List String
  | .row kind name => [kind.segment, name.asStr]
  | .childEdge parentKind parent childKind child =>
    ["_index", "children", parentKind.segment, parent.asStr, childKind.segment, child.asStr]
  | .vars thread => ["_index", "variables", thread.asStr]
  | .lastProcessedPosition => ["_global", "last_processed_position"]
  | .nextGeneratedSeq => ["_global", "next_generated_seq"]

theorem PlainName.segment (p : PlainName) : '/' ∉ p.raw.toList := by
  intro there
  exact absurd (p.chars.2 '/' there) (by decide)

theorem ObjectName.segment (n : ObjectName) : '/' ∉ n.asStr.toList := by
  cases n with
  | plain p => exact p.segment
  | generated b key =>
    rw [ObjectName.toList_generated]
    intro there
    rcases List.mem_append.mp there with there | there
    · exact b.segment there
    · rcases List.mem_cons.mp there with dash | digit
      · cases dash
      · exact absurd (Nat.isDigit_of_mem_toDigits (by decide) (by decide) digit) (by decide)

theorem ObjectKind.segment_free (kind : ObjectKind) : '/' ∉ kind.segment.toList := by
  cases kind <;> decide

theorem ObjectKind.segment_inj {kind kind' : ObjectKind} (same : kind.segment = kind'.segment) :
    kind = kind' := by
  cases kind <;> cases kind' <;> first | rfl | exact absurd same (by decide)

theorem Address.segments_free (a : Address) : ∀ s ∈ a.segments, '/' ∉ s.toList := by
  cases a with
  | row kind name => simp [segments, kind.segment_free, name.segment]
  | childEdge parentKind parent childKind child =>
    simp [segments, parentKind.segment_free, parent.segment, childKind.segment_free, child.segment]
  | vars thread => simp [segments, thread.segment]
  | lastProcessedPosition | nextGeneratedSeq => simp [segments]

/-- No kind is spelled like a table beside the rows. -/
theorem ObjectKind.segment_ne (kind : ObjectKind) :
    kind.segment ≠ "_index" ∧ kind.segment ≠ "_global" := by
  cases kind <;> decide

theorem Address.segments_inj {a a' : Address} (same : a.segments = a'.segments) : a = a' := by
  cases a with
  | row kind name =>
    cases a' with
    | row kind' name' =>
      obtain ⟨kinds, names⟩ : kind.segment = kind'.segment ∧ name.asStr = name'.asStr := by
        simpa [segments] using same
      rw [ObjectKind.segment_inj kinds, ObjectName.asStr_inj names]
    | _ => exact absurd same (by simp [segments, kind.segment_ne])
  | childEdge parentKind parent childKind child =>
    cases a' with
    | childEdge parentKind' parent' childKind' child' =>
      obtain ⟨parentKinds, parents, childKinds, children⟩ := by simpa [segments] using same
      rw [ObjectKind.segment_inj parentKinds, ObjectName.asStr_inj parents,
        ObjectKind.segment_inj childKinds, ObjectName.asStr_inj children]
    | _ => exact absurd same (by simp [segments])
  | vars thread =>
    cases a' with
    | vars thread' =>
      have names : thread.asStr = thread'.asStr := by simpa [segments] using same
      rw [ObjectName.asStr_inj names]
    | _ => exact absurd same (by simp [segments])
  | lastProcessedPosition =>
    cases a' with
    | lastProcessedPosition => rfl
    | row kind' name' => exact absurd same.symm (by simp [segments, kind'.segment_ne])
    | _ => exact absurd same (by simp [segments])
  | nextGeneratedSeq =>
    cases a' with
    | nextGeneratedSeq => rfl
    | row kind' name' => exact absurd same.symm (by simp [segments, kind'.segment_ne])
    | _ => exact absurd same (by simp [segments])

theorem join_eq (segments : List String) :
    join segments = Segments.joined '/' (segments.map String.toList) := by
  simp [join, Segments.joined, List.flatMap_map]

/-- The text that marks a version of the flow begins the name of its versions only. -/
theorem ObjectName.begins_iff {flow : FlowName} {n : ObjectName} :
    s!"{flow}-".toList <+: n.asStr.toList ↔ ∃ k, n = .generated flow k := by
  have text : s!"{flow}-".toList = flow.raw.toList ++ ['-'] := by
    show (toString flow.raw ++ toString "-").toList = _
    rw [String.toList_append]
    rfl
  rw [text]
  constructor
  · rintro ⟨rest, whole⟩
    have parts := n.span_asStr
    rw [← whole, List.append_assoc, List.span_eq_takeWhile_dropWhile,
      List.takeWhile_append_of_pos flow.no_dash, List.dropWhile_append_of_pos flow.no_dash] at parts
    obtain ⟨base, tail⟩ := Prod.mk.inj parts
    cases n with
    | plain p => cases tail
    | generated b key =>
      have base : flow.raw.toList = b.raw.toList := by simpa [ObjectName.base] using base
      exact ⟨key, by rw [PlainName.raw_inj (String.toList_inj.mp base)]⟩
  · rintro ⟨k, rfl⟩
    rw [ObjectName.toList_generated]
    exact ⟨Nat.toDigits 10 k, by simp⟩

/-! ## Keys and prefixes -/

namespace KeyBuilder

variable {keys keys' : KeyBuilder} {c c' : KeyCall}

theorem key_eq (keys : KeyBuilder) (c : KeyCall) :
    keys.key c = join (keys.tenant.raw :: keys.ns.raw :: c.address.segments) := by
  cases c <;> rfl

theorem scope_free (keys : KeyBuilder) {segments} (free : ∀ s ∈ segments, '/' ∉ s.toList) :
    Segments.Free '/' ((keys.tenant.raw :: keys.ns.raw :: segments).map String.toList) := by
  intro word there
  obtain ⟨s, member, rfl⟩ := List.mem_map.mp there
  rcases List.mem_cons.mp member with rfl | member
  · exact keys.tenant.segment
  rcases List.mem_cons.mp member with rfl | member
  · exact keys.ns.segment
  · exact free s member

theorem scope_inj (tenants : keys.tenant.raw = keys'.tenant.raw)
    (namespaces : keys.ns.raw = keys'.ns.raw) : keys = keys' := by
  obtain ⟨tenant, ns⟩ := keys
  obtain ⟨tenant', ns'⟩ := keys'
  obtain rfl : tenant = tenant' := PlainName.raw_inj tenants
  obtain rfl : ns = ns' := PlainName.raw_inj namespaces
  rfl

/-- A key determines the scope and the call it was built from, identities aside. -/
theorem key_inj (same : keys.key c = keys'.key c') : keys = keys' ∧ c.address = c'.address := by
  rw [key_eq, key_eq, join_eq, join_eq] at same
  have segments := List.map_injective_iff.mpr (fun _ _ => String.toList_inj.mp)
    (Segments.joined_inj (keys.scope_free c.address.segments_free)
      (keys'.scope_free c'.address.segments_free) same)
  obtain ⟨tenants, rest⟩ := List.cons.inj segments
  obtain ⟨namespaces, rest⟩ := List.cons.inj rest
  exact ⟨scope_inj tenants namespaces, Address.segments_inj rest⟩

/-- A prefix of a scope and whole segments, the last one begun. -/
theorem prefix_key_iff (segments : List String) (last : String)
    (free : ∀ s ∈ segments, '/' ∉ s.toList) (begun : '/' ∉ last.toList) :
    join (keys.tenant.raw :: keys.ns.raw :: (segments ++ [last])) <+: keys'.key c ↔
      keys = keys' ∧ ∃ s rest, c.address.segments = segments ++ s :: rest ∧
        last.toList <+: s.toList := by
  have words : (keys.tenant.raw :: keys.ns.raw :: (segments ++ [last])).map String.toList =
      (keys.tenant.raw :: keys.ns.raw :: segments).map String.toList ++ [last.toList] := by simp
  rw [key_eq, join_eq, join_eq, words, Segments.joined_prefix_iff (keys.scope_free free) begun
    (keys'.scope_free c.address.segments_free)]
  constructor
  · rintro ⟨word, more, whole, begins⟩
    obtain ⟨front, back, split, fronts, backs⟩ := List.map_eq_append_iff.mp whole
    obtain ⟨s, rest, rfl, rfl, rfl⟩ := List.map_eq_cons_iff.mp backs
    obtain rfl := List.map_injective_iff.mpr (fun _ _ => String.toList_inj.mp) fronts
    obtain ⟨tenants, split⟩ := List.cons.inj split
    obtain ⟨namespaces, split⟩ := List.cons.inj split
    exact ⟨scope_inj tenants.symm namespaces.symm, s, rest, split, begins⟩
  · rintro ⟨rfl, s, rest, whole, begins⟩
    exact ⟨s.toList, rest.map String.toList, by rw [whole]; simp, begins⟩

theorem kindPrefix_key_iff {kind : ObjectKind} :
    keys.kindPrefix kind <+: keys'.key c ↔ keys = keys' ∧ ∃ n, c.address = .row kind n := by
  refine (prefix_key_iff [kind.segment] "" ?_ (by simp)).trans ?_
  · simp [kind.segment_free]
  refine and_congr_right fun _ => ⟨?_, ?_⟩
  · rintro ⟨s, rest, whole, -⟩
    cases address : c.address with
    | row kind' n =>
      rw [address] at whole
      exact ⟨n, by rw [ObjectKind.segment_inj (List.cons.inj whole).1]⟩
    | _ =>
      rw [address] at whole
      have := (List.cons.inj whole).1
      cases kind <;> exact absurd this (by decide)
  · rintro ⟨n, address⟩
    exact ⟨n.asStr, [], by rw [address]; rfl, List.nil_prefix⟩

theorem flowVersionPrefix_key_iff {flow : FlowName} :
    keys.flowVersionPrefix flow <+: keys'.key c ↔
      keys = keys' ∧ ∃ version, c.address = .row .flowVersion (.generated flow version) := by
  refine (prefix_key_iff [ObjectKind.flowVersion.segment] s!"{flow}-" ?_ ?_).trans ?_
  · simp [ObjectKind.segment_free]
  · intro there
    have inside : s!"{flow}-".toList <+: (ObjectName.generated flow 0).asStr.toList :=
      ObjectName.begins_iff.mpr ⟨0, rfl⟩
    exact (ObjectName.generated flow 0).segment (inside.subset there)
  refine and_congr_right fun _ => ⟨?_, ?_⟩
  · rintro ⟨s, rest, whole, begins⟩
    cases address : c.address with
    | row kind n =>
      rw [address] at whole
      obtain ⟨kinds, whole⟩ := List.cons.inj whole
      obtain rfl := (List.cons.inj whole).1
      obtain ⟨version, rfl⟩ := ObjectName.begins_iff.mp begins
      exact ⟨version, by rw [ObjectKind.segment_inj kinds]⟩
    | _ =>
      rw [address] at whole
      exact absurd (List.cons.inj whole).1 (by decide)
  · rintro ⟨version, address⟩
    exact ⟨_, [], by rw [address]; rfl, ObjectName.begins_iff.mpr ⟨version, rfl⟩⟩

theorem childEdgePrefix_key_iff {parent : RawObjectRef} :
    keys.childEdgePrefix parent <+: keys'.key c ↔
      keys = keys' ∧ ∃ kind child, c.address = .childEdge parent.kind parent.name kind child := by
  refine (prefix_key_iff ["_index", "children", parent.kind.segment, parent.name.asStr] "" ?_
    (by simp)).trans ?_
  · simp [ObjectKind.segment_free, ObjectName.segment]
  refine and_congr_right fun _ => ⟨?_, ?_⟩
  · rintro ⟨s, rest, whole, -⟩
    cases address : c.address with
    | childEdge parentKind name childKind child =>
      rw [address] at whole
      obtain ⟨kinds, names, -⟩ := by simpa [Address.segments] using whole
      exact ⟨childKind, child, by rw [ObjectKind.segment_inj kinds, ObjectName.asStr_inj names]⟩
    | row kind n =>
      rw [address] at whole
      exact absurd (List.cons.inj whole).1 kind.segment_ne.1
    | _ =>
      rw [address] at whole
      exact absurd whole (by simp [Address.segments])
  · rintro ⟨kind, child, address⟩
    exact ⟨kind.segment, [child.asStr], by rw [address]; rfl, List.nil_prefix⟩

/-- Keys are equal only if they were built alike, and each prefix is that of the keys it is made
    for. -/
theorem keys_unambiguous (keys keys' : KeyBuilder) :
    (∀ c c', keys.key c = keys'.key c' ↔ keys = keys' ∧ c.address = c'.address) ∧
    (∀ kind c, keys.kindPrefix kind <+: keys'.key c ↔
      keys = keys' ∧ ∃ n, c.address = .row kind n) ∧
    (∀ c, keys.taskPrefix <+: keys'.key c ↔ keys = keys' ∧ ∃ n, c.address = .row .task n) ∧
    (∀ flow c, keys.flowVersionPrefix flow <+: keys'.key c ↔
      keys = keys' ∧ ∃ version, c.address = .row .flowVersion (.generated flow version)) ∧
    ∀ parent c, keys.childEdgePrefix parent <+: keys'.key c ↔
      keys = keys' ∧ ∃ kind child, c.address = .childEdge parent.kind parent.name kind child := by
  refine ⟨fun c c' => ⟨key_inj, ?_⟩, fun _ _ => kindPrefix_key_iff, fun _ => kindPrefix_key_iff,
    fun _ _ => flowVersionPrefix_key_iff, fun _ _ => childEdgePrefix_key_iff⟩
  rintro ⟨rfl, same⟩
  rw [key_eq, key_eq, same]

end KeyBuilder

end Spica
