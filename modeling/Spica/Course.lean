import Spica.Ownership
import Spica.Emission

/-! # Lawful courses of events

Entries whose events are folded one after the other, each on a projection on which it may be
folded. What one such event keeps, a whole log of them keeps: the projection stays sound, rows
only move forward, and rows whose life is over stay as they are.
-/

namespace Spica

/-- A task's report finds its owner live. -/
def Event.Punctual (p : Projection) : Event → Prop
  | .taskCompleted _ t _ | .taskFailed t _ => ∀ row a, p.getTask t.objectRef = some row →
      p.getActivity row.metadata.owner = some a → a.status.isTerminal = false
  | _ => True

/-- Folding the entries from `p` leads to `q`, the counter aside, and every event among them is
    legal where it is folded. Where `punctual` holds, reports of tasks find their owners live. -/
inductive Course (env : Env) (punctual : Prop) : Projection → List Entry → Projection → Prop
  | nil {p q} (same : p.content = q.content) : Course env punctual p [] q
  | quiet {p q e es} (noEvent : e.event? = none) (rest : Course env punctual p es q) :
      Course env punctual p (e :: es) q
  | event {p q e es ev} (isEvent : e.event? = some ev) (folds : ev.Folds p)
      (legal : ev.Legal env p) (inTime : punctual → ev.Punctual p)
      (rest : Course env punctual (ev.apply e.timestamp p) es q) : Course env punctual p (e :: es) q

variable {env : Env} {punctual : Prop} {p p' q q' r : Projection} {e : Entry} {es fs : List Entry}
  {ev : Event} {ts : Timestamp}

theorem Event.legal_content (same : p.content = p'.content) :
    ev.Legal env p ↔ ev.Legal env p' := by
  obtain ⟨n, rfl⟩ := Projection.content_eq_iff.mp same
  cases ev <;> exact Iff.rfl

theorem Event.punctual_content (same : p.content = p'.content) :
    ev.Punctual p ↔ ev.Punctual p' := by
  obtain ⟨n, rfl⟩ := Projection.content_eq_iff.mp same
  cases ev <;> exact Iff.rfl

theorem Projection.Sound.content (sound : p.Sound env) (same : p.content = p'.content) :
    p'.Sound env := by
  obtain ⟨n, rfl⟩ := Projection.content_eq_iff.mp same
  exact ⟨sound.owned, sound.threads, sound.activities, sound.versions⟩

/-! ## Courses as replays -/

namespace Course

theorem mirrors (course : Course env punctual p es q) : Mirrors p es q := by
  induction course with
  | nil same => exact ⟨_, .nil, same⟩
  | quiet noEvent _ ih =>
    obtain ⟨q', replays, same⟩ := ih
    exact ⟨q', .skip noEvent replays, same⟩
  | event isEvent folds _ _ _ ih =>
    obtain ⟨q', replays, same⟩ := ih
    exact ⟨q', .event isEvent folds replays, same⟩

/-- A course can be taken from and to projections with the same content. -/
theorem content (course : Course env punctual p es q) (left : p.content = p'.content)
    (right : q.content = q'.content) : Course env punctual p' es q' := by
  induction course generalizing p' with
  | nil same => exact .nil (left.symm.trans (same.trans right))
  | quiet noEvent _ ih => exact .quiet noEvent (ih left right)
  | event isEvent folds legal inTime _ ih =>
    exact .event isEvent ((Event.folds_content left).mp folds) ((Event.legal_content left).mp legal)
      (fun on => (Event.punctual_content left).mp (inTime on)) (ih (Event.apply_content left) right)

theorem append (first : Course env punctual p es q) (rest : Course env punctual q fs r) :
    Course env punctual p (es ++ fs) r := by
  induction first with
  | nil same => exact rest.content same.symm rfl
  | quiet noEvent _ ih => exact .quiet noEvent (ih rest)
  | event isEvent folds legal inTime _ ih => exact .event isEvent folds legal inTime (ih rest)

theorem ofQuiet (noEvents : ∀ e ∈ es, e.event? = none) (same : p.content = q.content) :
    Course env punctual p es q := by
  induction es with
  | nil => exact .nil same
  | cons e es ih =>
    exact .quiet (noEvents e (by simp)) (ih fun e member => noEvents e (by simp [member]))

/-- A course goes through every stretch of its entries. -/
theorem split (course : Course env punctual p (es ++ fs) r) :
    ∃ q, Course env punctual p es q ∧ Course env punctual q fs r := by
  induction es generalizing p with
  | nil => exact ⟨p, .nil rfl, course⟩
  | cons e es ih =>
    cases course with
    | quiet noEvent rest =>
      obtain ⟨q, first, rest⟩ := ih rest
      exact ⟨q, .quiet noEvent first, rest⟩
    | event isEvent folds legal inTime rest =>
      obtain ⟨q, first, rest⟩ := ih rest
      exact ⟨q, .event isEvent folds legal inTime first, rest⟩

/-- Where it leads is where the replay leads. -/
theorem rest (course : Course env punctual p (es ++ fs) r) (reached : Mirrors p es q) :
    Course env punctual q fs r := by
  obtain ⟨q₁, first, rest⟩ := course.split
  obtain ⟨q₂, replays, same⟩ := first.mirrors
  obtain ⟨q₃, replays', same'⟩ := reached
  rw [replays.unique replays'] at same
  exact rest.content (same.symm.trans same') rfl

theorem sound (course : Course env punctual p es q) (sound : p.Sound env) : q.Sound env := by
  induction course with
  | nil same => exact sound.content same
  | quiet _ _ ih => exact ih sound
  | @event _ _ e _ _ _ _ legal _ _ ih => exact ih (legal.sound sound e.timestamp)

end Course

/-! ## Rows move forward -/

namespace Projection

/-- One change of the objects: no row disappears, every row that changes makes one move of its
    lifecycle, and every new row is at the start of its own. -/
structure Forward (p q : Projection) : Prop where
  executions : p.executions.Evolves Execution.Moves (fun _ e => e.status = .running) q.executions
  threads : p.threads.Evolves Thread.Moves (fun _ t => t.status = .running) q.threads
  activities : p.activities.Evolves Activity.Moves (fun _ a => a.status = .running) q.activities
  tasks : p.tasks.Evolves Task.Moves (fun _ t => t.status = .pending) q.tasks

theorem Evolves.forward (evolves : p.Evolves env q) : p.Forward q where
  executions := evolves.executions
  threads := evolves.threads.mono (fun _ _ moves => moves) fun _ _ starts => starts.1
  activities := evolves.activities.mono (fun _ _ moves => moves) fun _ _ starts => starts.1
  tasks := evolves.tasks

theorem Evolves.content (same : p.content = q.content) : p.Evolves env q := by
  obtain ⟨n, rfl⟩ := content_eq_iff.mp same
  exact { Evolves.refl env p with }

theorem Forward.content (env : Env) (same : p.content = q.content) : p.Forward q :=
  (Evolves.content same : p.Evolves env q).forward

/-- What every move of a row keeps, any number of changes keep; a status at the end of a life is
    kept too. -/
theorem forward_row {ν σ : Type} (table : Projection → Table ObjectName ν)
    {moves same : ν → ν → Prop} {starts} (status : ν → σ) (ended : σ → Bool)
    (changes : ∀ p q : Projection, p.Forward q → (table p).Evolves moves starts (table q))
    (refl : ∀ v, same v v) (trans : ∀ u v w, same u v → moves v w → same u w)
    (settled : ∀ v w, moves v w → ended (status v) = true → status w = status v)
    (path : Relation.ReflTransGen Forward p q) {n v} (found : (table p).lookup n = some v) :
    ∃ v', (table q).lookup n = some v' ∧ same v v' ∧
      (ended (status v) = true → status v' = status v) := by
  induction path with
  | refl => exact ⟨v, found, refl v, fun _ => rfl⟩
  | tail _ step ih =>
    obtain ⟨v', found', kept, stays⟩ := ih
    obtain ⟨v'', found'', moved⟩ := (changes _ _ step).row found'
    refine ⟨v'', found'', trans _ _ _ kept moved, fun done => ?_⟩
    have here := stays done
    rw [← here] at done
    rw [settled _ _ moved done, here]

/-- Rows whose life is over are as they were. -/
structure Frozen (p q : Projection) : Prop where
  executions : ∀ n e, p.executions.lookup n = some e → e.status.isTerminal = true →
    q.executions.lookup n = some e
  threads : ∀ n t, p.threads.lookup n = some t → t.status.isTerminal = true →
    q.threads.lookup n = some t
  activities : ∀ n a, p.activities.lookup n = some a → a.status.isTerminal = true →
    q.activities.lookup n = some a
  tasks : ∀ n t, p.tasks.lookup n = some t → t.status.isTerminal = true →
    q.tasks.lookup n = some t

theorem Frozen.trans (first : p.Frozen q) (second : q.Frozen r) : p.Frozen r where
  executions n e found ended := second.executions n e (first.executions n e found ended) ended
  threads n t found ended := second.threads n t (first.threads n t found ended) ended
  activities n a found ended := second.activities n a (first.activities n a found ended) ended
  tasks n t found ended := second.tasks n t (first.tasks n t found ended) ended

theorem Frozen.content (same : p.content = q.content) : p.Frozen q := by
  obtain ⟨n, rfl⟩ := content_eq_iff.mp same
  exact ⟨fun _ _ found _ => found, fun _ _ found _ => found, fun _ _ found _ => found,
    fun _ _ found _ => found⟩

/-! An activity's row may also change within a phase, which is a matter of the event. -/

section activities

variable {n : ObjectName} {a : Activity}

/-- Putting a row in place of a live one leaves the others. -/
theorem put_live (found : p.activities.lookup n = some a) (ended : a.status.isTerminal = true)
    {row} (live : ∀ was, p.activities.lookup row.metadata.name = some was →
      was.status.isTerminal = false) : (p.putActivity row).activities.lookup n = some a := by
  unfold putActivity
  rw [AList.lookup_insert_ne]
  · exact found
  · rintro rfl
    have := live a found
    rw [ended] at this
    cases this

theorem on_live (found : p.activities.lookup n = some a) (ended : a.status.isTerminal = true)
    {r f} (live : ∀ row, p.getActivity r = some row → row.status.isTerminal = false)
    (name : ∀ row, p.getActivity r = some row → (f row).metadata.name = r.name) :
    (p.onActivity r f).activities.lookup n = some a := by
  unfold onActivity
  split
  · next row there =>
      refine put_live found ended fun was same => live was ?_
      rw [name row there] at same
      exact same
  · exact found

/-- A live owner takes note of a change elsewhere. -/
theorem report_live (owned : p.Owned) (found : p.activities.lookup n = some a)
    (ended : a.status.isTerminal = true) (untouched : q.activities = p.activities) {r f}
    (live : ∀ row, p.getActivity r = some row → row.status.isTerminal = false)
    (name : ∀ row, (f row).metadata.name = row.metadata.name) :
    (q.onActivity r f).activities.lookup n = some a := by
  have same : q.getActivity r = p.getActivity r := congrArg (·.lookup r.name) untouched
  refine on_live (untouched ▸ found) ended (fun row there => live row (same ▸ there)) ?_
  intro row there
  rw [same] at there
  exact (name row).trans (owned.activity_name there)

theorem settle_live (found : p.activities.lookup n = some a) (ended : a.status.isTerminal = true)
    {act} (live : ∀ row, p.getActivity act.objectRef = some row → row.status.isTerminal = false) :
    (p.settleActivity act).activities.lookup n = some a := by
  unfold settleActivity
  split
  · exact put_live found ended live
  · exact found

theorem createThread_live (owned : p.Owned) (found : p.activities.lookup n = some a)
    (ended : a.status.isTerminal = true) {t} (owner : p.LiveOwner t.metadata.owner) :
    (p.createThread ts t).activities.lookup n = some a := by
  obtain ⟨scopes, k, equal⟩ := createThread_eq (p := p) ts t
  rw [equal]
  unfold recordFanOut
  split
  · exact found
  · next r named =>
      rw [named] at owner
      obtain ⟨act, there, -, running, -⟩ := owner
      split
      · next act' there' =>
          have there' : p.getActivity r = some act' := there'
          split
          · refine put_live found ended fun was same => ?_
            have same : p.activities.lookup act'.metadata.name = some was := same
            have there : p.activities.lookup r.name = some act := there
            rw [owned.activity_name there', there] at same
            cases same
            rw [running]
            rfl
          · exact found
      · exact found

end activities

end Projection

open Projection in
theorem Event.Legal.activity_stays (owned : p.Owned) (legal : ev.Legal env p)
    (inTime : ev.Punctual p) (ts : Timestamp) {n a} (found : p.activities.lookup n = some a)
    (ended : a.status.isTerminal = true) : (ev.apply ts p).activities.lookup n = some a := by
  cases ev with
  | flowCreated _ f =>
    unfold Event.apply fileFlow
    dsimp only
    split <;> exact found
  | flowVersionCreated _ v =>
    unfold Event.apply createFlowVersion fileFlow
    dsimp only
    split
    · exact found
    · split <;> exact found
  | executionCreated | variablesAssigned | stateTransitioned | taskActivated => exact found
  | executionCompleting | executionCompleted | executionTerminating | executionTerminated =>
    unfold Event.apply onExecution
    dsimp only
    split <;> exact found
  | threadCreated t => exact createThread_live owned found ended legal.2.2
  | threadCompleting | threadTerminating =>
    unfold Event.apply onThread
    dsimp only
    split <;> exact found
  | threadCompleted | threadTerminated =>
    unfold Event.apply settleThread
    dsimp only
    split <;> exact found
  | stateActivating act =>
    refine put_live found ended fun was same => ?_
    have fresh : p.activities.lookup act.metadata.name = none := legal.1
    rw [fresh] at same
    cases same
  | stateActivated act | stateCompleting act =>
    obtain ⟨row, here, -, running, -⟩ := legal
    refine on_live found ended (fun row' there => ?_) fun _ _ => rfl
    rw [here] at there
    cases there
    rw [running]
    rfl
  | stateTerminating act =>
    obtain ⟨row, r, here, -, phase, -⟩ := legal
    refine on_live found ended (fun row' there => ?_) fun _ _ => rfl
    rw [here] at there
    cases there
    rcases phase with phase | phase <;> rw [phase] <;> rfl
  | stateCompleted act =>
    obtain ⟨row, here, -, phase, -⟩ := legal
    refine settle_live found ended fun row' there => ?_
    rw [here] at there
    cases there
    rcases phase with phase | phase <;> rw [phase] <;> rfl
  | stateTerminated act =>
    obtain ⟨row, r, here, -, phase, -⟩ := legal
    refine settle_live found ended fun row' there => ?_
    rw [here] at there
    cases there
    rw [phase]
    rfl
  | tasksClaimed _ granted =>
    obtain ⟨tasks, -, equal⟩ := owned.claimTasks ts granted
    rw [Event.apply, equal]
    exact found
  | taskCompleted _ t output =>
    unfold Event.apply completeTask
    dsimp only
    split
    · next row here =>
        show ((p.putTask _).onActivity _ _).activities.lookup n = some a
        refine report_live owned found ended ?_ (fun a there => inTime row a here there) ?_
        · rfl
        · exact fun _ => rfl
    · exact found
  | taskFailed t _ =>
    unfold Event.apply failTask
    dsimp only
    split
    · next row here =>
        split
        · refine report_live owned found ended ?_ (fun a there => inTime row a here there) ?_
          · rfl
          · exact fun _ => rfl
        · exact found
    · exact found
  | taskCancelled t =>
    unfold Event.apply cancelTask
    dsimp only
    split <;> exact found

open Projection in
/-- A legal event in time leaves alone what is over. -/
theorem Event.Legal.frozen (owned : p.Owned) (legal : ev.Legal env p) (inTime : ev.Punctual p)
    (ts : Timestamp) : p.Frozen (ev.apply ts p) := by
  have forward := (legal.evolves owned ts).forward
  exact {
    executions := fun _ _ found ended => forward.executions.stays found fun _ moves => moves.ended ended
    threads := fun _ _ found ended => forward.threads.stays found fun _ moves => moves.ended ended
    activities := fun _ _ found ended => legal.activity_stays owned inTime ts found ended
    tasks := fun _ _ found ended => forward.tasks.stays found fun _ moves => moves.ended ended }

namespace Course

/-- What every change keeps, a whole course keeps. -/
theorem keeps {I : Projection → Prop} (course : Course env punctual p es q) (sound : p.Sound env)
    (kept : ∀ p q : Projection, p.Evolves env q → I p → I q) (start : I p) : I q := by
  induction course with
  | nil same => exact kept _ _ (.content same) start
  | quiet _ _ ih => exact ih sound start
  | @event _ _ e _ _ _ _ legal _ _ ih =>
    exact ih (legal.sound sound e.timestamp)
      (kept _ _ (legal.evolves sound.owned e.timestamp) start)

theorem forward (course : Course env punctual p es q) (sound : p.Sound env) :
    Relation.ReflTransGen Projection.Forward p q := by
  induction course with
  | nil same => exact .single (.content env same)
  | quiet _ _ ih => exact ih sound
  | @event _ _ e _ _ _ _ legal _ _ ih =>
    exact .head (legal.evolves sound.owned e.timestamp).forward (ih (legal.sound sound e.timestamp))

theorem frozen (course : Course env punctual p es q) (sound : p.Sound env) (on : punctual) :
    p.Frozen q := by
  induction course with
  | nil same => exact .content same
  | quiet _ _ ih => exact ih sound
  | @event _ _ e _ _ _ _ legal inTime _ ih =>
    exact (legal.frozen sound.owned (inTime on) e.timestamp).trans (ih (legal.sound sound e.timestamp))

end Course

end Spica
