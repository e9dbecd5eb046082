import Spica.Stored
import Spica.Fold

/-! # The store read back

As long as no write puts a null into an optional field, the durable store answers every read as the
projection does, and so every program run over the one runs alike over the other.
-/

namespace Spica

open Serde

variable [Wire.Texts]

/-- The values are those of the source's types, and no optional field holds a null. -/
def Write.Whole : Write → Prop
  | .execution e => Wire.execution.Valid e ∧ e.NullFree
  | .thread t => Wire.thread.Valid t ∧ t.NullFree
  | .activity a => Wire.activity.Valid a ∧ a.NullFree
  | .task t => Wire.task.Valid t
  | .flow _ f => Wire.flow.Valid f
  | .flowVersion v => Wire.flowVersion.Valid v
  | .addChild _ child => Wire.rawObjectRef.Valid child
  | .nextGeneratedSeq n => (n : Int) < Codec.i64Bound
  | .vars _ _ | .removeChild _ _ => True

instance : DecidablePred Write.Whole := fun w => by
  cases w <;> unfold Write.Whole <;> infer_instance

def TxnOp.Whole : TxnOp → Prop
  | .put w | .tryPut w => w.Whole
  | .ask _ | .peek _ => True

instance : DecidablePred TxnOp.Whole := fun o => by
  cases o <;> unfold TxnOp.Whole <;> infer_instance

namespace Stored

variable {α κ : Type}

/-! ## One table -/

/-- Each row is kept as its JSON and is read back as itself. -/
structure Keeps (c : Codec α) (t : Table κ α) (j : Table κ Json) : Prop where
  written : j = mapTable c.write t
  back : ∀ e ∈ t.entries, c.Valid e.2 ∧ c.back e.2 = e.2

section tables

variable {c : Codec α} {t : Table κ α} {j : Table κ Json} {a : α}

theorem decode_write (valid : c.Valid a) (back : c.back a = a) (what : String) :
    decode c what (c.write a) = .ok a := by
  rw [decode, c.law a valid, back]
  rfl

theorem mapM_decode {β : Type} (f : β → α) {g : β → Json} {bs : List β} (what : String)
    (good : ∀ b ∈ bs, c.Valid (f b) ∧ c.back (f b) = f b ∧ g b = c.write (f b)) :
    (bs.mapM fun b => decode c what (g b)) = .ok (bs.map f) := by
  induction bs with
  | nil => rfl
  | cons b bs ih =>
    obtain ⟨valid, back, written⟩ := good b List.mem_cons_self
    rw [List.mapM_cons, written, decode_write valid back,
      ih fun b there => good b (List.mem_cons_of_mem _ there)]
    rfl

omit [Wire.Texts] in
theorem Keeps.empty : Keeps c (∅ : Table κ α) ∅ :=
  ⟨rfl, fun _ there => by cases there⟩

variable [DecidableEq κ]

/-- A scan comes to the rows in the same order, and each of them decodes. -/
theorem Keeps.scan (keeps : Keeps c t j) (order : Order κ) (what : String) :
    (scanned order j).map (decode c what) = (scanned order t).map .ok := by
  have cells : scanned order j = (scanned order t).map c.write := by
    have keys : (mapTable c.write t).keys = t.keys := by
      simp [AList.keys, List.keys, mapTable]
    rw [scanned, scanned, keeps.written, keys, List.map_filterMap]
    exact List.filterMap_congr fun k _ => lookup_mapTable ..
  rw [cells, List.map_map]
  refine List.map_congr_left fun a there => ?_
  obtain ⟨k, -, found⟩ := List.mem_filterMap.mp there
  obtain ⟨valid, back⟩ := keeps.back ⟨k, a⟩ (AList.mem_lookup_iff.mp found)
  exact decode_write valid back what

theorem Keeps.getRow (keeps : Keeps c t j) (k : κ) :
    getRow c (j.lookup k) = .ok (t.lookup k) := by
  rw [keeps.written, lookup_mapTable]
  cases found : t.lookup k with
  | none => rfl
  | some a =>
    obtain ⟨valid, back⟩ := keeps.back ⟨k, a⟩ (AList.mem_lookup_iff.mp found)
    rw [Option.map_some, Stored.getRow, decode_write valid back]
    rfl

omit [Wire.Texts] in
theorem Keeps.insert (keeps : Keeps c t j) (k : κ) (valid : c.Valid a) (back : c.back a = a) :
    Keeps c (t.insert k a) (j.insert k (c.write a)) where
  written := by rw [keeps.written, mapTable_insert]
  back e there := by
    have inside : e ∈ (⟨k, a⟩ : Sigma fun _ : κ => α) :: t.entries.kerase k := there
    rcases List.mem_cons.mp inside with rfl | old
    · exact ⟨valid, back⟩
    · exact keeps.back e ((List.kerase_sublist k t.entries).subset old)

end tables

/-! ## All rows -/

/-- The cell an ownership edge is kept as. -/
def edgeCell (edge : RawObjectRef × RawObjectRef) : (RawObjectRef × RawObjectRef) × Json :=
  (edge, Wire.rawObjectRef.write edge.2)

/-- The durable rows are those of the projection, each of which is read back as itself. -/
structure Holds (p : Projection) (j : Rows) : Prop where
  executions : Keeps Wire.execution p.executions j.executions
  threads : Keeps Wire.thread p.threads j.threads
  scopes : Keeps scope p.scopes j.scopes
  activities : Keeps Wire.activity p.activities j.activities
  tasks : Keeps Wire.task p.tasks j.tasks
  flows : Keeps Wire.flow p.flows j.flows
  flowVersions : Keeps Wire.flowVersion p.flowVersions j.flowVersions
  edges : j.edges = p.children.map edgeCell
  referred : ∀ edge ∈ p.children, Wire.rawObjectRef.Valid edge.2
  counter : getRow Codec.i64 j.nextGeneratedSeq = .ok none ∧ p.nextGeneratedSeq = 0 ∨
    getRow Codec.i64 j.nextGeneratedSeq = .ok (some (p.nextGeneratedSeq : Int))

theorem Holds.empty : Holds .empty .empty where
  executions := .empty
  threads := .empty
  scopes := .empty
  activities := .empty
  tasks := .empty
  flows := .empty
  flowVersions := .empty
  edges := rfl
  referred _ there := by cases there
  counter := .inl ⟨rfl, rfl⟩

variable {p : Projection} {j : Rows}

theorem Holds.children (holds : Holds p j) (r : RawObjectRef) (what : String) :
    ((j.edges.filter fun edge => edge.1.1 = r).mapM fun edge =>
      decode Wire.rawObjectRef what edge.2) = .ok (p.getChildren r) := by
  have cells : (j.edges.filter fun edge => edge.1.1 = r) =
      (p.children.filter fun edge => edge.1 = r).map edgeCell := by
    rw [holds.edges, List.filter_map]
    rfl
  rw [cells, List.mapM_map]
  exact mapM_decode Prod.snd what fun edge there =>
    ⟨holds.referred edge (List.mem_of_mem_filter there), Codec.Exact.back_eq _, rfl⟩

/-- A read is answered as the projection answers it. -/
theorem Holds.eval (holds : Holds p j) (refs : Order RawObjectRef) (tasks : Order ObjectName)
    (q : Query) : eval refs tasks j q = .ok (q.eval refs tasks p) := by
  cases q with
  | execution r => exact holds.executions.getRow r.name
  | thread r => exact holds.threads.getRow r.name
  | vars r =>
    show (Stored.getRow scope _).map _ = _
    rw [holds.scopes.getRow r.name]
    rfl
  | activity r => exact holds.activities.getRow r.name
  | task r => exact holds.tasks.getRow r.name
  | children r =>
    show Except.map _ (List.mapM _ _) = _
    rw [holds.children r]
    rfl
  | activatableTasks resource now limit =>
    exact taskLoop_all (holds.tasks.scan tasks "rocksdb txn task decode")
  | flowByName name => exact holds.flows.getRow name
  | flowVersion r => exact holds.flowVersions.getRow r.name
  | nextGeneratedSeq =>
    show (Stored.getRow Codec.i64 _).map _ = _
    rcases holds.counter with ⟨absent, zero⟩ | kept
    · rw [absent]
      show Except.ok 0 = Except.ok p.nextGeneratedSeq
      rw [zero]
    · rw [kept]
      rfl

theorem putEdge_edgeCell (edges : List (RawObjectRef × RawObjectRef))
    (key : RawObjectRef × RawObjectRef) :
    putEdge (edges.map edgeCell) key (Wire.rawObjectRef.write key.2) =
      (edges.insert key).map edgeCell := by
  unfold putEdge
  by_cases there : key ∈ edges
  · have found : ((edges.map edgeCell).any fun edge => edge.1 = key) = true := by
      rw [List.any_eq_true]
      exact ⟨edgeCell key, List.mem_map_of_mem there, decide_eq_true rfl⟩
    rw [if_pos found, List.insert_of_mem there, List.map_map]
    refine List.map_congr_left fun edge _ => ?_
    show (if edge = key then _ else _) = _
    split
    next same => rw [same]; rfl
    next => rfl
  · have absent : ¬ ((edges.map edgeCell).any fun edge => edge.1 = key) = true := by
      intro found
      obtain ⟨cell, inside, same⟩ := List.any_eq_true.mp found
      obtain ⟨edge, member, rfl⟩ := List.mem_map.mp inside
      exact there (of_decide_eq_true same ▸ member)
    rw [if_neg absent, List.insert_of_not_mem there, List.map_cons]
    rfl

omit [Wire.Texts] in
theorem scope_valid (vars : Variables) : scope.Valid vars := fun _ _ => ⟨trivial, trivial⟩

instance : scope.Exact := by unfold scope; infer_instance

/-- A write that keeps its row whole keeps the two alike. -/
theorem Holds.put (holds : Holds p j) {w} (whole : w.Whole) : Holds (w.apply p) (j.put w) := by
  cases w with
  | execution e =>
    exact { holds with
      executions := holds.executions.insert _ whole.1 ((Wire.execution_back_iff e).mpr whole.2) }
  | thread t =>
    exact { holds with
      threads := holds.threads.insert _ whole.1 ((Wire.thread_back_iff t).mpr whole.2) }
  | vars r vars =>
    exact { holds with
      scopes := holds.scopes.insert _ (scope_valid vars) (Codec.Exact.back_eq vars) }
  | activity a =>
    exact { holds with
      activities := holds.activities.insert _ whole.1 ((Wire.activity_back_iff a).mpr whole.2) }
  | task t =>
    exact { holds with tasks := holds.tasks.insert _ whole (Codec.Exact.back_eq t) }
  | flow name f =>
    exact { holds with flows := holds.flows.insert _ whole (Codec.Exact.back_eq f) }
  | flowVersion v =>
    exact { holds with
      flowVersions := holds.flowVersions.insert _ whole (Codec.Exact.back_eq v) }
  | addChild parent child =>
    refine { holds with edges := ?_, referred := ?_ }
    · show putEdge j.edges (parent, child) _ = _
      rw [holds.edges]
      exact putEdge_edgeCell p.children (parent, child)
    · intro edge there
      rcases List.mem_insert_iff.mp there with rfl | old
      · exact whole
      · exact holds.referred edge old
  | removeChild parent child =>
    refine { holds with edges := ?_, referred := ?_ }
    · show j.edges.filter _ = _
      rw [holds.edges, List.filter_map]
      rfl
    · intro edge there
      exact holds.referred edge (List.mem_of_mem_filter there)
  | nextGeneratedSeq n =>
    refine { holds with counter := .inr ?_ }
    have low : -Codec.i64Bound ≤ (n : Int) := by
      unfold Codec.i64Bound
      omega
    have valid : Codec.i64.Valid (n : Int) := ⟨low, whole⟩
    show getRow Codec.i64 (some (Codec.i64.write n)) = .ok (some (n : Int))
    rw [getRow, decode_write valid (Codec.Exact.back_eq (n : Int))]
    rfl

/-! ## Transactions -/

/-- A transaction over either store, after the same calls. -/
structure TxnState.Mirrors (s' : TxnState) (s : Spica.TxnState) : Prop where
  rows : Holds s.rows s'.rows
  calls : s'.calls = s.calls

namespace Txn

variable {b : Backend} {s : Spica.TxnState} {s' : TxnState}

theorem read_mirrors (q : Query) (mirrors : s'.Mirrors s) :
    (read q b s').1 = (Spica.Txn.read q b s).1 ∧
      (read q b s').2.Mirrors (Spica.Txn.read q b s).2 := by
  unfold read Spica.Txn.read
  dsimp only
  rw [mirrors.calls]
  cases b.fault s.calls with
  | some e => exact ⟨rfl, mirrors.rows, rfl⟩
  | none =>
    dsimp only
    rw [mirrors.rows.eval]
    exact ⟨rfl, mirrors.rows, rfl⟩

theorem write_mirrors {w} (whole : w.Whole) (mirrors : s'.Mirrors s) :
    (write w b s').1 = (Spica.Txn.write w b s).1 ∧
      (write w b s').2.Mirrors (Spica.Txn.write w b s).2 := by
  unfold write Spica.Txn.write
  dsimp only
  rw [mirrors.calls]
  cases b.fault s.calls with
  | some e => exact ⟨rfl, mirrors.rows, rfl⟩
  | none => exact ⟨rfl, mirrors.rows.put whole, rfl⟩

/-- `?` behind calls that answer alike. -/
theorem orFail_mirrors {f : Eff Backend TxnAbort Spica.TxnState (Except StorageError α)}
    {g : Eff Backend TxnAbort TxnState (Except StorageError α)}
    (same : (g b s').1 = (f b s).1 ∧ (g b s').2.Mirrors (f b s).2) :
    ((g >>= orFail) b s').1 = ((f >>= Spica.Txn.orFail) b s).1 ∧
      ((g >>= orFail) b s').2.Mirrors ((f >>= Spica.Txn.orFail) b s).2 := by
  obtain ⟨alike, after⟩ := same
  rcases first : f b s with ⟨e | r, t⟩ <;> rcases second : g b s' with ⟨e' | r', t'⟩ <;>
    rw [first, second] at alike after <;> cases alike
  · rw [Eff.bind_of_error first, Eff.bind_of_error second]
    exact ⟨rfl, after⟩
  · rw [Eff.bind_of_ok first, Eff.bind_of_ok second]
    cases r <;> exact ⟨rfl, after⟩

theorem interpret_mirrors (o : TxnOp) (mirrors : s'.Mirrors s) (whole : o.Whole) :
    (interpret o b s').1 = (Spica.Txn.interpret o b s).1 ∧
      (interpret o b s').2.Mirrors (Spica.Txn.interpret o b s).2 := by
  cases o with
  | ask q => exact orFail_mirrors (read_mirrors q mirrors)
  | peek q => exact read_mirrors q mirrors
  | put w => exact orFail_mirrors (write_mirrors whole mirrors)
  | tryPut w => exact write_mirrors whole mirrors

/-- A program that only makes whole writes runs alike over the two stores. -/
theorem run_mirrors (m : Txn α)
    (whole : m.Along Spica.Txn.interpret (fun o _ => o.Whole) b s) (mirrors : s'.Mirrors s) :
    (m.run interpret b s').1 = (m.run Spica.Txn.interpret b s).1 ∧
      (m.run interpret b s').2.Mirrors (m.run Spica.Txn.interpret b s).2 :=
  m.run_simulates (R := fun s s' => TxnState.Mirrors s' s)
    (fun o _ _ mirrors whole => interpret_mirrors o mirrors whole) whole mirrors

end Txn

end Stored

/-! ## Dispatches -/

/-- The operation makes whole writes only. -/
def Op.Whole (b : Backend) (clock : Nat → Timestamp) (o : Op) (w : Work) : Prop :=
  match o with
  | .appendEvent e =>
    (dispatchEvent (clock w.ticks) e).Along Txn.interpret (fun o _ => o.Whole) b w.txn
  | .nextGeneratedSeq => mintGeneratedSeq.Along Txn.interpret (fun o _ => o.Whole) b w.txn
  | _ => True

instance (b : Backend) (clock : Nat → Timestamp) (o : Op) (w : Work) :
    Decidable (o.Whole b clock w) := by
  cases o <;> dsimp only [Op.Whole] <;> infer_instance

namespace Stored

/-- A dispatch over either store, after the same operations. -/
structure Work.Mirrors (w' : Work) (w : Spica.Work) : Prop where
  txn : w'.txn.Mirrors w.txn
  out : w'.out = w.out
  ticks : w'.ticks = w.ticks
  minted : w'.minted = w.minted
  evals : w'.evals = w.evals
  machines : w'.machines = w.machines

namespace Handler

variable {c : Ctx} {w : Spica.Work} {w' : Work}

theorem onTxn_mirrors (onFault : StorageError → Abort) (m : Txn α)
    (whole : m.Along Spica.Txn.interpret (fun o _ => o.Whole) c.toBackend w.txn)
    (mirrors : w'.Mirrors w) :
    (onTxn onFault m c w').1 = (Spica.Handler.onTxn onFault m c w).1 ∧
      (onTxn onFault m c w').2.Mirrors (Spica.Handler.onTxn onFault m c w).2 := by
  obtain ⟨same, after⟩ := Txn.run_mirrors m whole mirrors.txn
  refine ⟨?_, { mirrors with txn := after }⟩
  show Except.mapError _ _ = Except.mapError _ _
  rw [same]

theorem tick_mirrors (mirrors : w'.Mirrors w) :
    (tick c w').1 = (Spica.Handler.tick c w).1 ∧
      (tick c w').2.Mirrors (Spica.Handler.tick c w).2 := by
  refine ⟨?_, { mirrors with ticks := ?_ }⟩
  · show Except.ok (c.clock w'.ticks) = Except.ok (c.clock w.ticks)
    rw [mirrors.ticks]
  · show w'.ticks + 1 = w.ticks + 1
    rw [mirrors.ticks]

theorem pushNow_mirrors (payload : EntryPayload) (mirrors : w'.Mirrors w) :
    (pushNow payload c w').1 = (Spica.Handler.pushNow payload c w).1 ∧
      (pushNow payload c w').2.Mirrors (Spica.Handler.pushNow payload c w).2 := by
  refine ⟨rfl, { mirrors with out := ?_, ticks := ?_ }⟩
  · show w'.out ++ [⟨some c.cause, c.clock w'.ticks, payload⟩] =
      w.out ++ [⟨some c.cause, c.clock w.ticks, payload⟩]
    rw [mirrors.ticks, mirrors.out]
  · show w'.ticks + 1 = w.ticks + 1
    rw [mirrors.ticks]

/-- What an emitted event does, in one step. -/
theorem appendEvent_run (e : Event) (c : Ctx) (w : Work) :
    appendEvent e c w =
      match (dispatchEvent (c.clock w.ticks) e).run Txn.interpret c.toBackend w.txn with
      | (.error (.panicked msg), txn) =>
        (.error (.panicked msg), { w with ticks := w.ticks + 1, txn := txn })
      | (.error (.storage _), txn) | (.ok (), txn) =>
        (.ok (), { w with
          ticks := w.ticks + 1
          txn := txn
          out := w.out ++ [⟨some c.cause, c.clock w.ticks, .event e⟩] }) := by
  show Eff.bind tick (fun ts => Eff.bind (project ts e) fun _ => push ts (.event e)) c w = _
  simp only [Eff.bind, tick, project]
  rcases (dispatchEvent (c.clock w.ticks) e).run Txn.interpret c.toBackend w.txn
    with ⟨(_ | _) | _, txn⟩ <;> rfl

theorem appendEvent_mirrors (e : Event)
    (whole : (dispatchEvent (c.clock w.ticks) e).Along Spica.Txn.interpret (fun o _ => o.Whole)
      c.toBackend w.txn) (mirrors : w'.Mirrors w) :
    (appendEvent e c w').1 = (Spica.Handler.appendEvent e c w).1 ∧
      (appendEvent e c w').2.Mirrors (Spica.Handler.appendEvent e c w).2 := by
  rw [appendEvent_run, Spica.Handler.appendEvent_run, mirrors.ticks]
  obtain ⟨same, after⟩ := Txn.run_mirrors _ whole mirrors.txn
  rcases first : (dispatchEvent (c.clock w.ticks) e).run Spica.Txn.interpret c.toBackend w.txn
    with ⟨r, t⟩
  rcases second : (dispatchEvent (c.clock w.ticks) e).run Txn.interpret c.toBackend w'.txn
    with ⟨r', t'⟩
  rw [first, second] at same after
  cases same
  have told : w'.out ++ [⟨some c.cause, c.clock w.ticks, .event e⟩] =
      w.out ++ [⟨some c.cause, c.clock w.ticks, .event e⟩] := by rw [mirrors.out]
  rcases r with (_ | _) | _
  · exact ⟨rfl, { mirrors with txn := after, ticks := rfl, out := told }⟩
  · exact ⟨rfl, { mirrors with txn := after, ticks := rfl }⟩
  · exact ⟨rfl, { mirrors with txn := after, ticks := rfl, out := told }⟩

theorem interpret_mirrors (o : Op) (mirrors : w'.Mirrors w)
    (whole : o.Whole c.toBackend c.clock w) :
    (interpret o c w').1 = (Spica.Handler.interpret o c w).1 ∧
      (interpret o c w').2.Mirrors (Spica.Handler.interpret o c w).2 := by
  cases o with
  | ask q onFault => exact onTxn_mirrors onFault _ ⟨trivial, fun _ _ _ => trivial⟩ mirrors
  | peek q => exact onTxn_mirrors storageFault _ ⟨trivial, fun _ _ _ => trivial⟩ mirrors
  | appendEvent e => exact appendEvent_mirrors e whole mirrors
  | appendCommand cmd => exact pushNow_mirrors _ mirrors
  | reject r => exact pushNow_mirrors _ mirrors
  | nextGeneratedSeq => exact onTxn_mirrors storageFault _ whole mirrors
  | mint =>
    refine ⟨?_, { mirrors with minted := ?_ }⟩
    · show Except.ok (c.ids w'.minted) = Except.ok (c.ids w.minted)
      rw [mirrors.minted]
    · show w'.minted + 1 = w.minted + 1
      rw [mirrors.minted]
  | now => exact tick_mirrors mirrors
  | env => exact ⟨rfl, mirrors⟩
  | evalJsonata expr states vars =>
    refine ⟨?_, { mirrors with evals := ?_ }⟩
    · show Except.ok (c.jsonata w'.evals expr states vars) =
        Except.ok (c.jsonata w.evals expr states vars)
      rw [mirrors.evals]
    · show w'.evals + 1 = w.evals + 1
      rw [mirrors.evals]
  | cached version =>
    refine ⟨?_, mirrors⟩
    show Except.ok (w'.machines.lookup version) = Except.ok (w.machines.lookup version)
    rw [mirrors.machines]
  | cache version machine =>
    refine ⟨rfl, { mirrors with machines := ?_ }⟩
    show w'.machines.insert version machine = w.machines.insert version machine
    rw [mirrors.machines]

end Handler

end Stored

end Spica
