import Spica.TaskLog

/-! # Leases are exclusive

The life of a task as its row shows it along the log: it is activated once, granted while it is
free or its lease is over, re-queued by failures that are retried, and settled once. A grant is
thus not followed by another one before it ends, unless the task is re-queued in between.
-/

namespace Spica

open Log Projection

variable {req : RequestId} {tasks : List Task} {u : Task} {cause' : Option Nat} {ts' : Timestamp}

/-! ## The life of a task -/

/-- What an event does to the row of a task it carries the value of. -/
inductive RowMoves : Event → Task → Option Task → Option Task → Prop
  | activated {v} : RowMoves (.taskActivated v) v none (some v)
  | claimed {req tasks v row due} (claimable : row.isClaimableAt v.metadata.updatedAt = true)
      (running : v.status = .running) (held : v.workerId ≠ none)
      (lease : v.leaseExpiresAt = some due) (ahead : v.metadata.updatedAt.millis ≤ due.millis) :
      RowMoves (.tasksClaimed req tasks) v (some row) (some v)
  | completed {req v row row' output} (running : row.status = .running)
      (ended : row'.status = .completed) :
      RowMoves (.taskCompleted req v output) v (some row) (some row')
  | failed {v row e} (live : row.status.isTerminal = false)
      (next : v.status = .pending ∨ v.status = .failed) :
      RowMoves (.taskFailed v e) v (some row) (some v)
  | cancelled {v row} (live : row.status.isTerminal = false) (ended : v.status = .cancelled) :
      RowMoves (.taskCancelled v) v (some row) (some v)

/-- The event settles the task for good. -/
def Event.settles : Event → Bool
  | .taskCompleted _ _ _ | .taskCancelled _ => true
  | .taskFailed t _ => t.status = .failed
  | _ => false

section life

variable {env : Env} {log : List Entry} {i j k n : Nat} {cause : Option Nat} {ts : Timestamp}
  {ev : Event} {c : Command} {p q : Projection} {v row : Task} {m : ObjectName} {due : Timestamp}

theorem Timestamp.le_checkedAdd {at_ : Timestamp} {seconds}
    (sum : at_.checkedAdd seconds = some due) : at_.millis ≤ due.millis := by
  unfold Timestamp.checkedAdd at sum
  split at sum
  · split at sum
    · cases sum
      exact Nat.le_add_right _ _
    · cases sum
  · cases sum

theorem ToldAt.moves (told : ToldAt env log n k ts ev c p)
    (fresh : ∀ t, ev = .taskActivated t → p.tasks.lookup t.metadata.name = none)
    (member : v ∈ ev.tasks) :
    RowMoves ev v (p.tasks.lookup v.metadata.name)
      ((ev.apply ts p).tasks.lookup v.metadata.name) := by
  have stores (whole : ev.completesTask = false) := told.told.stores told.filed told.inTime member whole
  have completes := told.told
  have filed := told.filed
  cases told.told with
  | activated =>
    cases List.mem_singleton.mp member
    rw [fresh _ rfl, stores rfl]
    exact .activated
  | @claimed c at_ due tasks lease granted =>
    obtain ⟨rows, -⟩ := granted_rows filed granted
    rw [stores rfl]
    obtain ⟨row, there, rfl⟩ := List.mem_map.mp member
    obtain ⟨found, claimable⟩ := rows row there
    have found : p.tasks.lookup (row.claim c.workerId due at_).metadata.name = some row := found
    rw [found]
    exact .claimed claimable rfl (by simp [Task.claim]) rfl (Timestamp.le_checkedAdd lease)
  | completed found closes =>
    cases List.mem_singleton.mp member
    obtain ⟨row, worker, was, running, -, -, ended, stored⟩ := completes.completes ts filed
    show RowMoves _ _ _ ((p.completeTask ts v _).tasks.lookup _)
    rw [was, stored]
    exact .completed running ended
  | failed found fails =>
    cases List.mem_singleton.mp member
    obtain ⟨live, same, -, -, next⟩ := Task.handleFailure_eq fails
    have was : p.tasks.lookup v.metadata.name = some _ := filed.taskAgain found same.kin
    rw [was, stores rfl]
    exact .failed live (next.imp_right And.left)
  | cancelled found closes =>
    cases List.mem_singleton.mp member
    obtain ⟨live, same, value⟩ := Task.markCancelled_eq closes
    have was : p.tasks.lookup v.metadata.name = some _ := filed.taskAgain found same.kin
    rw [was, stores rfl]
    exact .cancelled live (by rw [value])

/-- A task that is over moves no more. -/
theorem RowMoves.live {before after} (moves : RowMoves ev v before after)
    (was : before = some row) : row.status.isTerminal = false := by
  cases moves with
  | activated => cases was
  | claimed claimable =>
    cases was
    unfold Task.isClaimableAt at claimable
    cases status : row.status <;> simp [status, TaskStatus.isTerminal] at claimable ⊢
  | completed running =>
    cases was
    rw [running]
    rfl
  | failed live | cancelled live =>
    cases was
    exact live

/-- A grant is decided for a row that is claimable, and becomes the row. -/
theorem RowMoves.grants {before after} (moves : RowMoves (.tasksClaimed req tasks) v before after) :
    ∃ row, before = some row ∧ row.isClaimableAt v.metadata.updatedAt = true ∧ after = some v ∧
      v.status = .running ∧ v.workerId ≠ none ∧ v.leaseExpiresAt ≠ none := by
  cases moves with
  | claimed claimable running held lease =>
    exact ⟨_, rfl, claimable, rfl, running, held, by simp [lease]⟩

theorem RowMoves.settles {before after} (moves : RowMoves ev v before after)
    (settles : ev.settles = true) : ∃ row, after = some row ∧ row.status.isTerminal = true := by
  cases moves with
  | activated | claimed => cases settles
  | completed _ ended => exact ⟨_, rfl, by rw [ended]; rfl⟩
  | failed =>
    have ended : v.status = .failed := by simpa [Event.settles] using settles
    exact ⟨_, rfl, by rw [ended]; rfl⟩
  | cancelled _ ended => exact ⟨_, rfl, by rw [ended]; rfl⟩

/-! ## Along the log -/

/-- The log of a run: it folds, and its events about tasks are told from the rows. -/
structure TaskHistory (env : Env) (log : List Entry) : Prop where
  whole : ∃ q, Mirrors .empty log q
  told : ToldLog env log
  fresh : FreshLog log

namespace TaskHistory

theorem folds (history : TaskHistory env log) (n : Nat) : ∃ p, FoldsTo log n p := by
  obtain ⟨q, r, replays, -⟩ := history.whole
  rw [← List.take_append_drop n log] at replays
  obtain ⟨p, first, -⟩ := replays.split
  exact ⟨p, p, first, rfl⟩

/-- An event moves the row of every task it carries. -/
theorem moves (history : TaskHistory env log)
    (entry : entryAt log (n + 1) = some ⟨cause, ts, .event ev⟩) (member : v ∈ ev.tasks)
    (before : FoldsTo log n p) (after : FoldsTo log (n + 1) q) :
    RowMoves ev v (p.tasks.lookup v.metadata.name) (q.tasks.lookup v.metadata.name) := by
  obtain ⟨k, c, r, -, told⟩ := history.told _ _ _ _ entry (ev.isTask_of_mem member)
  have moved := told.moves (fun t same => history.fresh _ _ _ t r (same ▸ entry) told.before) member
  obtain ⟨_, rfl⟩ := content_eq_iff.mp (Mirrors.unique told.before before)
  obtain ⟨_, rfl⟩ := content_eq_iff.mp (Mirrors.unique told.after after)
  exact moved

/-- From one position to the next, the row of a task stays or moves by its event. -/
theorem step (history : TaskHistory env log) (before : FoldsTo log n p)
    (after : FoldsTo log (n + 1) q) (m : ObjectName) :
    q.tasks.lookup m = p.tasks.lookup m ∨ ∃ cause ts ev v,
      entryAt log (n + 1) = some ⟨cause, ts, .event ev⟩ ∧ v ∈ ev.tasks ∧ v.metadata.name = m ∧
        RowMoves ev v (p.tasks.lookup m) (q.tasks.lookup m) := by
  have same {r : Projection} (folds : FoldsTo log (n + 1) r) : q.tasks = r.tasks := by
    obtain ⟨_, rfl⟩ := content_eq_iff.mp (Mirrors.unique folds after)
    rfl
  cases entry : entryAt log (n + 1) with
  | none =>
    have quiet : QuietBetween log n (n + 1) := by
      intro k e above upto there
      obtain rfl : k = n + 1 := by omega
      rw [entry] at there
      cases there
    exact .inl (by rw [same (before.quiet (Nat.le_succ n) quiet)])
  | some e =>
    cases isEvent : e.event? with
    | none =>
      have quiet : QuietBetween log n (n + 1) := by
        intro k e' above upto there
        obtain rfl : k = n + 1 := by omega
        cases entry.symm.trans there
        exact isEvent
      exact .inl (by rw [same (before.quiet (Nat.le_succ n) quiet)])
    | some ev =>
      obtain ⟨cause, ts, payload⟩ := e
      obtain rfl : payload = .event ev := by
        cases payload <;> cases isEvent
        rfl
      by_cases named : ∃ v ∈ ev.tasks, v.metadata.name = m
      · obtain ⟨v, member, rfl⟩ := named
        exact .inr ⟨cause, ts, ev, v, rfl, member, rfl, history.moves entry member before after⟩
      · obtain ⟨_, r, replays, -⟩ := history.whole
        have folds := before.event entry isEvent
          (FoldsTo.folds_next ⟨r, replays⟩ before entry isEvent)
        refine .inl ?_
        rw [same folds]
        exact ev.spares_task (Mirrors.filed before) fun v member same => named ⟨v, member, same⟩

/-- The task is re-queued at the position. -/
def Requeued (log : List Entry) (k : Nat) (m : ObjectName) : Prop :=
  ∃ cause ts t e, entryAt log k = some ⟨cause, ts, .event (.taskFailed t e)⟩ ∧ t.status = .pending ∧
    t.metadata.name = m

/-- The row is over, or leased at least until the given time. -/
def Guarded (due : Timestamp) (row : Option Task) : Prop :=
  ∃ t, row = some t ∧ (t.status.isTerminal = true ∨ t.status = .running ∧
    ∃ until_, t.leaseExpiresAt = some until_ ∧ due.millis ≤ until_.millis)

/-- A guarded row stays guarded, unless the task is re-queued. -/
theorem RowMoves.guarded {before after} (moves : RowMoves ev v before after)
    (guarded : Guarded due before) :
    Guarded due after ∨ ∃ e, ev = .taskFailed v e ∧ v.status = .pending := by
  obtain ⟨row, rfl, terminal | ⟨running, until_, lease, later⟩⟩ := guarded
  · rw [moves.live rfl] at terminal
    cases terminal
  cases moves with
  | @claimed _ _ _ _ due' claimable running' _ lease' ahead =>
    -- the old lease is over when the new one is granted
    simp only [Task.isClaimableAt, running, lease, Option.any_some, decide_eq_true_eq] at claimable
    exact .inl ⟨v, rfl, .inr ⟨running', due', lease', by omega⟩⟩
  | completed _ ended => exact .inl ⟨_, rfl, .inl (by rw [ended]; rfl)⟩
  | failed _ next =>
    rcases next with pending | ended
    · exact .inr ⟨_, rfl, pending⟩
    · exact .inl ⟨_, rfl, .inl (by rw [ended]; rfl)⟩
  | cancelled _ ended => exact .inl ⟨_, rfl, .inl (by rw [ended]; rfl)⟩

/-- A grant guards its task until the task is re-queued. -/
theorem guarded (history : TaskHistory env log)
    (entry : entryAt log i = some ⟨cause, ts, .event (.tasksClaimed req tasks)⟩)
    (member : v ∈ tasks) (lease : v.leaseExpiresAt = some due) (order : i ≤ j)
    (fold : FoldsTo log j p) :
    Guarded due (p.tasks.lookup v.metadata.name) ∨
      ∃ k, i < k ∧ k ≤ j ∧ Requeued log k v.metadata.name := by
  induction j, order using Nat.le_induction generalizing p with
  | base =>
    obtain ⟨n, rfl⟩ : ∃ n, i = n + 1 := ⟨i - 1, by have := (entryAt_eq_some entry).1; omega⟩
    obtain ⟨before, folded⟩ := history.folds n
    obtain ⟨row, -, -, granted, running, -⟩ := (history.moves entry member folded fold).grants
    exact .inl ⟨v, granted, .inr ⟨running, due, lease, le_rfl⟩⟩
  | succ j order ih =>
    obtain ⟨before, folded⟩ := history.folds j
    rcases ih folded with guarded | ⟨k, above, upto, requeued⟩
    · rcases history.step folded fold v.metadata.name with same | ⟨_, _, ev, u, here, _, named, moved⟩
      · exact .inl (same ▸ guarded)
      · rcases RowMoves.guarded moved guarded with still | ⟨e, rfl, pending⟩
        · exact .inl still
        · exact .inr ⟨j + 1, by omega, le_rfl, _, _, u, e, here, pending, named⟩
    · exact .inr ⟨k, above, by omega, requeued⟩

/-- A task that is over stays over. -/
theorem ended (history : TaskHistory env log) (order : i ≤ j) (first : FoldsTo log i p)
    (fold : FoldsTo log j q) (there : ∃ row, p.tasks.lookup m = some row ∧
      row.status.isTerminal = true) :
    ∃ row, q.tasks.lookup m = some row ∧ row.status.isTerminal = true := by
  induction j, order using Nat.le_induction generalizing q with
  | base =>
    obtain ⟨_, rfl⟩ := content_eq_iff.mp (Mirrors.unique first fold)
    exact there
  | succ j order ih =>
    obtain ⟨before, folded⟩ := history.folds j
    obtain ⟨row, found, terminal⟩ := ih folded
    rcases history.step folded fold m with same | ⟨_, _, ev, u, _, _, _, moved⟩
    · exact ⟨row, same.trans found, terminal⟩
    · rw [moved.live found] at terminal
      cases terminal

/-- Nothing is said of a task after the event that settles it. -/
theorem settled_last {ev'} (history : TaskHistory env log)
    (entry : entryAt log i = some ⟨cause, ts, .event ev⟩) (member : v ∈ ev.tasks)
    (settles : ev.settles = true) (entry' : entryAt log j = some ⟨cause', ts', .event ev'⟩)
    (member' : u ∈ ev'.tasks) (same : u.metadata.name = v.metadata.name) : j ≤ i := by
  by_contra later
  obtain ⟨n, rfl⟩ : ∃ n, i = n + 1 := ⟨i - 1, by have := (entryAt_eq_some entry).1; omega⟩
  obtain ⟨l, rfl⟩ : ∃ l, j = l + 1 := ⟨j - 1, by omega⟩
  obtain ⟨p₀, fold₀⟩ := history.folds n
  obtain ⟨p₁, fold₁⟩ := history.folds (n + 1)
  obtain ⟨q₀, fold₀'⟩ := history.folds l
  obtain ⟨q₁, fold₁'⟩ := history.folds (l + 1)
  have first := (history.moves entry member fold₀ fold₁).settles settles
  obtain ⟨row, found, terminal⟩ := history.ended (by omega) fold₁ fold₀' first
  have moved := history.moves entry' member' fold₀' fold₁'
  rw [moved.live (same ▸ found)] at terminal
  cases terminal

/-- A grant ends before the next one starts, unless the task is re-queued in between. -/
theorem exclusive {req' tasks'} (history : TaskHistory env log) (order : i < j)
    (entry : entryAt log i = some ⟨cause, ts, .event (.tasksClaimed req tasks)⟩)
    (member : v ∈ tasks)
    (entry' : entryAt log j = some ⟨cause', ts', .event (.tasksClaimed req' tasks')⟩)
    (member' : u ∈ tasks') (same : u.metadata.name = v.metadata.name)
    (lease : v.leaseExpiresAt = some due) :
    due.millis ≤ u.metadata.updatedAt.millis ∨
      ∃ k, i < k ∧ k < j ∧ Requeued log k v.metadata.name := by
  obtain ⟨l, rfl⟩ : ∃ l, j = l + 1 := ⟨j - 1, by omega⟩
  obtain ⟨p, fold⟩ := history.folds l
  obtain ⟨q, fold'⟩ := history.folds (l + 1)
  rcases history.guarded entry member lease (by omega) fold with guarded | ⟨k, above, upto, requeued⟩
  · have moved := history.moves entry' member' fold fold'
    obtain ⟨row, was, claimable, -⟩ := moved.grants
    rw [← same, was] at guarded
    obtain ⟨_, ⟨⟩, terminal | ⟨running, until_, until', later⟩⟩ := guarded
    · rw [moved.live was] at terminal
      cases terminal
    · simp only [Task.isClaimableAt, running, until', Option.any_some, decide_eq_true_eq] at claimable
      exact .inl (by omega)
  · exact .inr ⟨k, above, by omega, requeued⟩

end TaskHistory

end life

/-! ## In every run -/

namespace World

open TaskHistory Scenario

/-- Leases are exclusive, and what is granted is what is folded. -/
structure LeasesExclusive (w : World) : Prop where
  granted : ∀ {n cause ts req tasks t p}, entryAt w.log n =
      some ⟨cause, ts, .event (.tasksClaimed req tasks)⟩ → t ∈ tasks → FoldsTo w.log n p →
    p.getTask t.objectRef = some t ∧ t.status = .running ∧ t.workerId ≠ none ∧
      t.leaseExpiresAt ≠ none
  /-- in storage, until a later event is committed -/
  stored : ∀ {n cause ts req tasks t}, entryAt w.log n =
      some ⟨cause, ts, .event (.tasksClaimed req tasks)⟩ → t ∈ tasks →
    n ≤ w.storage.lastProcessedPosition → QuietBetween w.log n w.storage.lastProcessedPosition →
    w.storage.rows.getTask t.objectRef = some t
  exclusive : ∀ {i j cause cause' ts ts' req req' tasks tasks' t u due}, i < j →
    entryAt w.log i = some ⟨cause, ts, .event (.tasksClaimed req tasks)⟩ → t ∈ tasks →
    entryAt w.log j = some ⟨cause', ts', .event (.tasksClaimed req' tasks')⟩ → u ∈ tasks' →
    u.metadata.name = t.metadata.name → t.leaseExpiresAt = some due →
    due.millis ≤ u.metadata.updatedAt.millis ∨
      ∃ k, i < k ∧ k < j ∧ Requeued w.log k t.metadata.name
  completed : ∀ {n cause ts req t output},
    entryAt w.log n = some ⟨cause, ts, .event (.taskCompleted req t output)⟩ →
    ∃ k cause' at_ c, cause = some k ∧
      entryAt w.log k = some ⟨cause', at_, .command (.completeTask c)⟩ ∧
      ∀ p, FoldsTo w.log (n - 1) p → ∃ row, p.getTask t.objectRef = some row ∧
        row.status = .running ∧ row.workerId = some c.workerId
  settled : ∀ {i j cause cause' ts ts' ev ev' t u},
    entryAt w.log i = some ⟨cause, ts, .event ev⟩ → t ∈ ev.tasks → ev.settles = true →
    entryAt w.log j = some ⟨cause', ts', .event ev'⟩ → u ∈ ev'.tasks → ev'.settles = true →
    u.metadata.name = t.metadata.name → i = j

variable {env : Env} {w : World}

theorem Timely.history (run : Run.Reach (World.step env) (Timely env) init w) :
    TaskHistory env w.log := by
  obtain ⟨l, turns, log, -⟩ := (Timely.chronicled run).current
  rw [← log]
  refine ⟨⟨_, (turns.advances (TimedAnswer.advancing env)).mirrors⟩, ?_, turns.manned.fresh⟩
  rw [log]
  exact Timely.told run

theorem completed_by_holder {n k ts t output c p q}
    (told : ToldAt env w.log n k ts (.taskCompleted req t output) c p)
    (folds : FoldsTo w.log (n - 1) q) : ∃ c' : CompleteTask, c = .completeTask c' ∧
      ∃ row, q.getTask t.objectRef = some row ∧ row.status = .running ∧
        row.workerId = some c'.workerId := by
  obtain ⟨_, rfl⟩ := content_eq_iff.mp (Mirrors.unique told.before folds)
  have filed := told.filed
  cases told.told with
  | @completed c row _ at_ found closes =>
    obtain ⟨running, held, same, -⟩ := Task.markCompleted_eq closes
    exact ⟨c, rfl, row, filed.taskAgain found same.kin, running, held⟩

/-- As long as no storage failure is swallowed, leases are exclusive. -/
theorem leases_exclusive (run : Run.Reach (World.step env) (Timely env) init w) :
    w.LeasesExclusive := by
  have history := Timely.history run
  constructor
  · intro n cause ts req tasks t p entry member folds
    obtain ⟨l, rfl⟩ : ∃ l, n = l + 1 := ⟨n - 1, by have := (entryAt_eq_some entry).1; omega⟩
    obtain ⟨before, folded⟩ := history.folds l
    obtain ⟨row, -, -, granted, running, held, leased⟩ :=
      (history.moves entry member folded folds).grants
    exact ⟨granted, running, held, leased⟩
  · intro n cause ts req tasks t entry member order quiet
    exact (Timely.took run entry member order quiet).whole.mpr rfl
  · intro i j _ _ _ _ _ _ _ _ t u due order entry member entry' member' same lease
    exact history.exclusive order entry member entry' member' same lease
  · intro n cause ts req t output entry
    obtain ⟨k, c, p, caused, told⟩ := history.told n cause ts _ entry rfl
    obtain ⟨cause', at_, asked⟩ := told.asked
    obtain ⟨c', rfl, -⟩ := completed_by_holder told told.before
    refine ⟨k, cause', at_, c', caused, asked, fun q folds => ?_⟩
    obtain ⟨_, ⟨⟩, row⟩ := completed_by_holder told folds
    exact row
  · intro i j _ _ _ _ _ _ t u entry member settles entry' member' settles' same
    have upper := history.settled_last entry member settles entry' member' same
    have lower := history.settled_last entry' member' settles' entry member same.symm
    omega

theorem leases_exclusive_report :
    (after true catching oneReport).LeasesExclusive ∧
      (entryAt (after true catching oneReport).log 20).any (fun e => e.event?.any Event.isTask) := by
  refine ⟨leases_exclusive (reach_after fun w a member => ?_), by decide +kernel⟩
  exact Timely.of_still (oneReport_still a member) w

/-! The task is granted, and the write of its row fails while the grant is folded. The grant is
committed all the same. -/

/-- The third storage call of every attempt fails: in a claim, the write of the first row. -/
def thirdCallFails : Decision :=
  { frozen with attempts := fun _ => { attempt with
      fault := fun n => if n = 2 then some (.backend "unavailable") else none
      clock := fun _ => ⟨0⟩ } }

def lostGrant : List Action :=
  appends [createFlow, createExecution exec] ++ starts 4 ++ drives frozen 26 ++ appends [claim] ++
    drives thirdCallFails 1

theorem lostGrant_clocked : ∀ a ∈ lostGrant, Clocked ⟨0⟩ a := by
  have calm : Still (appends [createFlow, createExecution exec] ++ starts 4 ++ drives frozen 26 ++
      appends [claim]) :=
    (((appends_still _).append (starts_still _)).append (frozen_still _)).append (appends_still _)
  intro a member
  rcases List.mem_append.mp member with calmly | last
  · exact (calm a calmly).2
  · simp only [drives, List.replicate_one, List.flatten_cons, List.flatten_nil, List.append_nil,
      List.mem_cons, List.not_mem_nil, or_false] at last
    rcases last with rfl | rfl | rfl
    · exact ⟨fun _ _ => rfl, rfl, rfl⟩
    · trivial
    · trivial

def grantsFree (row : Option Task) : Event → Bool
  | .tasksClaimed _ tasks => tasks.any fun t => t.status == .running &&
      row.any fun row => row.objectRef == t.objectRef && row.status == .pending && row.workerId.isNone
  | _ => false

theorem grant_not_folded :
    Run.Reach (World.step (host true catching)) (fun _ a => Clocked ⟨0⟩ a) init
        (after true catching lostGrant) ∧
      (after true catching lostGrant).storage.lastProcessedPosition = 21 ∧
      (entryAt (after true catching lostGrant).log 20).any (fun e => e.event?.any
        (grantsFree ((after true catching lostGrant).storage.rows.getTask firstTask))) := by
  refine ⟨reach_after fun _ => lostGrant_clocked, ?_, ?_⟩
  all_goals decide +kernel

end World

end Spica
