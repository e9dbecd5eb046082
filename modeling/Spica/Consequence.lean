import Spica.Lineage
import Spica.Outcome.Values

/-! # What a command can lead to

As long as an object is held by its owner, the commands that were sent to it lead to commands within
its own subtree only: what is above it is told of it when it has parted. An activity that is spent,
neither running nor completing, stays so in any build, and nothing asks for its termination but a
sweep of the thread that holds it.
-/

namespace Spica

open Projection

variable {parent : RawObjectRef} {c' : Command} {n : ObjectName} {b row : Activity}
    {t : TerminateState}

section consequence

variable {env : Env} {M : Machines} {p q : Projection} {c : Command} {k a : ObjectKind × ObjectName}
  {ds : List Deed} {es : List Entry} {cause : Nat} {e : Event} {ts : Timestamp}
  {m : Kin.Member RawObjectRef} {cs : List Command} {act : Activity} {d : State} {ending : Ending}

/-! ## Parting -/

/-- Some owner still holds the object. -/
def Projection.Held (p : Projection) (k : ObjectKind × ObjectName) : Prop :=
  ∃ parent child, (parent, child) ∈ p.children ∧ child.key = k

/-- Without the edge to its owner an object is not held. -/
theorem Projection.Family.not_held (family : p.Family) (found : p.kin k = some m)
    (owner : m.owner = some parent)
    (fewer : ∀ x y, (x, y) ∈ q.children → (x, y) ∈ p.children ∧ ¬(x = parent ∧ y = m.id)) :
    ¬q.Held k := by
  rintro ⟨x, y, edge, rfl⟩
  obtain ⟨old, other⟩ := fewer x y edge
  obtain ⟨n, there, id, above⟩ := family.edges x y old
  cases found.symm.trans there
  cases owner.symm.trans above
  exact other ⟨rfl, id.symm⟩

theorem Projection.onActivity_edges (p : Projection) (r : ObjectRef .activity)
    (f : Activity → Activity) : (p.onActivity r f).children = p.children := by
  unfold onActivity
  split <;> rfl

theorem Task.filed_kin {v : Task} (found : p.kin v.kin.id.key = some v.kin) :
    ∃ row, p.getTask v.objectRef = some row ∧ row.metadata.owner.raw = v.metadata.owner.raw := by
  obtain ⟨row, there, same⟩ := Option.map_eq_some_iff.mp found
  exact ⟨row, there, Option.some.inj (congrArg Kin.Member.owner same)⟩

/-- An event that takes its object away leaves no edge to it. -/
theorem Event.parted (family : p.Family) (found : p.kin k = some m) (about : e.About m)
    (parts : e.parts = true) : ¬(e.apply ts p).Held k := by
  have filed : m.id.key = k := family.sound.filed found
  cases about with
  | moved | assigned => cases parts
  | value carries =>
    cases e with
    | stateCompleted b | stateTerminated b =>
      cases carries
      rw [← filed] at found
      obtain ⟨row, there, same⟩ := Option.map_eq_some_iff.mp found
      have owner : row.metadata.owner.raw = b.metadata.owner.raw :=
        Option.some.inj (congrArg Kin.Member.owner same)
      refine filed ▸ family.not_held found rfl fun x y edge => ?_
      have there : p.getActivity b.objectRef = some row := there
      simp only [Event.apply, settleActivity_some there, owner] at edge
      exact mem_removeChild.mp edge
    | threadCompleted t | threadTerminated t =>
      cases carries
      rw [← filed] at found
      obtain ⟨row, there, same⟩ := Option.map_eq_some_iff.mp found
      have owner : row.metadata.owner.raw = t.metadata.owner.raw :=
        Option.some.inj (congrArg Kin.Member.owner same)
      refine filed ▸ family.not_held found rfl fun x y edge => ?_
      simp only [Event.apply, settleThread_some (r := t.objectRef) there, owner] at edge
      exact mem_removeChild.mp edge
    | taskCompleted _ t output =>
      cases carries
      rw [← filed] at found
      obtain ⟨row, there, owner⟩ := Task.filed_kin found
      refine filed ▸ family.not_held found rfl fun x y edge => ?_
      simp only [Event.apply, completeTask, there, owner] at edge
      obtain ⟨edge, other⟩ := mem_removeChild.mp edge
      rw [onActivity_edges] at edge
      exact ⟨edge, other⟩
    | taskCancelled t =>
      cases carries
      rw [← filed] at found
      obtain ⟨row, there, owner⟩ := Task.filed_kin found
      refine filed ▸ family.not_held found rfl fun x y edge => ?_
      simp only [Event.apply, cancelTask, there, owner] at edge
      exact mem_removeChild.mp edge
    | taskFailed t =>
      cases carries
      rw [← filed] at found
      obtain ⟨row, there, owner⟩ := Task.filed_kin found
      have settled : t.status ≠ .pending := by simpa [Event.parts] using parts
      refine filed ▸ family.not_held found rfl fun x y edge => ?_
      simp only [Event.apply, failTask, there, if_neg settled, owner] at edge
      exact mem_removeChild.mp edge
    | _ => cases parts

/-- Nobody takes hold of an object that is there already. -/
theorem Writes.held (writes : Writes cause p ds es q) (family : p.Family)
    (fit : DeedsFit p.kin p.nextGeneratedSeq ds) (found : p.kin k = some m) (held : q.Held k) :
    p.Held k := by
  induction writes generalizing m with
  | nil => exact held
  | take _ ih => exact ih family.take fit found held
  | @event p q ds es e ts _ _ ih =>
    obtain ⟨fits, kin, rest⟩ := family.fit_event ts fit
    obtain ⟨x, y, edge, rfl⟩ := ih (family.event fits) rest (kin ▸ fits.grows _ _ found) held
    rcases e.edge_apply family.filed edge with old | ⟨k', m', birth, rfl, -⟩
    · exact ⟨x, y, old, rfl⟩
    · rw [e.birth_filed birth, fits.fresh k' m' birth] at found
      cases found
  | command _ _ ih | reject _ _ ih => exact ih family fit found held

/-- Deeds about an object that take it away leave it without an owner that holds it. -/
theorem Writes.parted (writes : Writes cause p ds es q) (family : p.Family)
    (found : p.kin k = some m) (about : ∀ e, .event e ∈ ds → e.About m)
    (parts : ∃ e, .event e ∈ ds ∧ e.parts = true) : ¬q.Held k := by
  induction writes with
  | nil =>
    obtain ⟨e, there, -⟩ := parts
    cases there
  | take _ ih =>
    obtain ⟨e, there, parts⟩ := parts
    exact ih family.take found (fun e there => about e (List.mem_cons_of_mem _ there))
      ⟨e, by simpa using there, parts⟩
  | @event p q ds es e ts _ writes ih =>
    have later (e : Event) (there : .event e ∈ ds) : e.About m := about e (List.mem_cons_of_mem _ there)
    obtain ⟨birth, replaces, -⟩ := (about e List.mem_cons_self).fits family found
    have fits : e.Fits p.kin p.nextGeneratedSeq := e.fits_of_none birth replaces
    have found' : (e.apply ts p).kin k = some m := by
      rw [e.kin_apply family.filed replaces]
      exact fits.grows _ _ found
    obtain ⟨e', there, parts⟩ := parts
    rcases List.mem_cons.mp there with first | there
    · cases first
      intro held
      exact Event.parted family found (about _ List.mem_cons_self) parts
        (writes.held (family.event fits) (deeds_about (family.event fits) found' later _).1 found'
          held)
    · exact ih (family.event fits) found' later ⟨e', there, parts⟩
  | command _ _ ih | reject _ _ ih =>
    obtain ⟨e, there, parts⟩ := parts
    exact ih family found (fun e there => about e (List.mem_cons_of_mem _ there))
      ⟨e, by simpa using there, parts⟩

/-! ## Within a subtree -/

/-- As long as the object `a` is held, the command is sent to something under it. -/
def Command.Within (p : Projection) (a : ObjectKind × ObjectName) (c : Command) : Prop :=
  ∀ k, c.target = some k → p.Held a → Kin.Under RawObjectRef.key p.kin a k

theorem Command.Within.content (same : p.content = q.content) (within : c.Within p a) :
    c.Within q a := by
  obtain ⟨n, rfl⟩ := content_eq_iff.mp same
  exact within

/-- It stays so while others are answered. -/
theorem Command.Within.mono (within : c.Within p a) (writes : Writes cause p ds es q)
    (family : p.Family) (fit : DeedsFit p.kin p.nextGeneratedSeq ds) (found : p.kin a = some m) :
    c.Within q a :=
  fun k target held =>
    (writes.family family fit).2.under (within k target (writes.held family fit found held))

/-- What a command within a subtree leaves behind is within it. -/
theorem Outcome.within (outcome : Outcome env M p q c ds) (writes : Writes cause p ds es q)
    (family : p.Family) (fit : DeedsFit p.kin p.nextGeneratedSeq ds) (found : p.kin a = some m)
    (within : c.Within p a) (there : .command c' ∈ ds) : c'.Within q a := by
  have grows := (writes.family family fit).2
  intro j target' held
  cases target : c.target with
  | none =>
    have nothing := outcome.silent target
    rw [← mem_deedCommands, nothing] at there
    cases there
  | some k =>
    have under : Kin.Under RawObjectRef.key q.kin a k :=
      grows.under (within k target (writes.held family fit found held))
    have reaches : Reaches q.kin k ds (Kin.Under RawObjectRef.key q.kin a) := by
      refine ⟨under, fun j owns => under.tail owns, fun j owns parts => ?_⟩
      refine Kin.Under.owner under ?_ owns
      -- the object itself is still held, so this is not its parting
      rintro rfl
      obtain ⟨e, there, isPart⟩ := parts
      have old : c.bears = false := by
        have told := outcome.event_menu there
        cases c <;> first | rfl | (cases e <;> first | (cases told; done) | cases isPart)
      obtain ⟨n, there', about⟩ := outcome.about target old
      exact writes.parted family there' about ⟨e, there, isPart⟩ held
    obtain ⟨j', same, reached⟩ := outcome.sent family fit writes target reaches there
    cases target'.symm.trans same
    exact reached

/-! ## Spent activities -/

/-- Neither running nor completing: no command ends the activity any more. -/
def Status.isSpent : Status → Bool
  | .running | .completing => false
  | _ => true

/-- The activity under the name is there, and spent. -/
def Projection.Spent (p : Projection) (n : ObjectName) : Prop :=
  ∃ act, p.activities.lookup n = some act ∧ act.status.isSpent = true

theorem Projection.Spent.content (same : p.content = q.content) (spent : p.Spent n) :
    q.Spent n := by
  obtain ⟨n, rfl⟩ := content_eq_iff.mp same
  exact spent

theorem Closes.spent (closes : Closes env act q ds) (there : .event e ∈ ds)
    (carries : e.activity? = some b) (spent : act.status.isSpent = true) :
    b.status.isSpent = true := by
  cases closes with
  | intro asserted =>
    obtain rfl := event_only there
    cases carries
    unfold Asserted at asserted
    split at asserted
    · obtain ⟨at_, ok⟩ := asserted
      unfold Activity.markTerminated at ok
      split at ok <;> cases ok
      rfl
    · rw [asserted]
      exact spent

theorem Terminates.spent (terminates : Terminates env d act p q ds) (there : .event e ∈ ds)
    (carries : e.activity? = some b) (spent : act.status.isSpent = true) :
    b.status.isSpent = true := by
  unfold Terminates at terminates
  cases d with
  | task s =>
    obtain ⟨cs, -, ⟨-, closes⟩ | ⟨-, rfl⟩⟩ := terminates
    · exact closes.spent there carries spent
    · simp at there
  | parallel | map =>
    rcases terminates with ⟨-, closes⟩ | ⟨-, cs, -, rfl⟩
    · exact closes.spent there carries spent
    · simp at there
  | _ => exact Closes.spent terminates there carries spent

/-- The value of an activity that is there comes in an answer to a command sent to it. -/
theorem Outcome.value_target (outcome : Outcome env M p q c ds) (family : p.Family)
    (found : p.activities.lookup n = some row) (there : .event e ∈ ds)
    (carries : e.activity? = some b) (named : b.metadata.name = n) :
    c.target = some (.activity, n) := by
  rcases outcome.value_of family there carries with ⟨row', target, -⟩ | ⟨act, born, same, -⟩
  · rw [← named]
    exact target
  · -- a newborn has another name
    have unused := outcome.newborn_unused family born
    rw [same, named, found] at unused
    cases unused

/-- What an answer says of a spent activity is that it is spent. -/
theorem Outcome.spent_value (outcome : Outcome env M p q c ds) (family : p.Family)
    (found : p.activities.lookup n = some row) (spent : row.status.isSpent = true)
    (there : .event e ∈ ds) (carries : e.activity? = some b) (named : b.metadata.name = n) :
    b.status.isSpent = true := by
  have target := outcome.value_target family found there carries named
  have self {r : ObjectRef .activity} {act : Activity} (here : p.getActivity r = some act)
      (target : some r.raw.key = some (.activity, n)) : act = row := by
    cases target
    exact Option.some.inj (Eq.trans here.symm found)
  have unlive {act : Activity} (same : act = row)
      (live : act.status = .running ∨ act.status = .completing) : False := by
    subst same
    rcases live with is | is <;> rw [is] at spent <;> cases spent
  have told := outcome.event_menu there
  cases outcome with
  | stateCompleted here _ _ _ opens =>
    exact (unlive (self here target) (.inl (Activity.markCompleting_ok opens).1)).elim
  | stateCaught here live => exact (unlive (self here target) live).elim
  | catchFailed here live => exact (unlive (self here target) live).elim
  | stateTerminated here live => exact (unlive (self here target) live).elim
  | activityConcluded kind here phase =>
    rw [← RawObjectRef.typed_raw kind] at target
    exact (unlive (self here target) (.inr phase)).elim
  | activityClosedTerminated kind here _ _ _ _ _ terminates =>
    rw [← RawObjectRef.typed_raw kind] at target
    cases self here target
    exact terminates.spent there carries spent
  | activitySwept | threadSweptAgain | executionSweptAgain => simp at there
  | threadClosedCompleted kind | executionClosedCompleted kind | threadClosedTerminated kind
  | executionClosedTerminated kind =>
    have kind' := congrArg Prod.fst (Option.some.inj target)
    cases kind.symm.trans kind'
  | _ => cases e <;> first | (cases told; done) | (cases target; done) | cases carries

theorem Outcome.keeps_spent (outcome : Outcome env M p q c ds) (writes : Writes cause p ds es q)
    (family : p.Family) (spent : p.Spent n) : q.Spent n := by
  obtain ⟨row, found, spent⟩ := spent
  exact writes.keeps_status (P := fun status => status.isSpent = true) family.filed
    (fun e b there carries named => outcome.spent_value family found spent there carries named)
    found spent

/-! ## Who asks for a termination -/

/-- The command asks for the termination of the activity under the name. -/
def Command.terminates (n : ObjectName) : Command → Bool
  | .terminateState t => t.activity.name = n
  | _ => false

/-- The reports that come from outside: no answer asks for one. -/
def Command.isReport : Command → Bool
  | .failTask _ | .triggerDeadline _ _ => true
  | _ => false

theorem Command.isReport_of_mayAsk (asks : c.mayAsk c') : c'.isReport = false := by
  cases c' with
  | failTask | triggerDeadline =>
    cases c <;> first | cases asks | (rename_i r _; cases r <;> cases asks)
  | _ => rfl

theorem Projection.Spent.not_live {r} (spent : p.Spent n) (found : p.getActivity r = some act)
    (named : r.name = n) (live : act.status = .running ∨ act.status = .completing) : False := by
  obtain ⟨row, there, spent⟩ := spent
  subst named
  cases Eq.trans found.symm there
  rcases live with is | is <;> rw [is] at spent <;> cases spent

/-- An activity that is told of a child asks for its own termination while it runs. -/
theorem ActivityTold.asks {activity thread child}
    (told : ActivityTold env M q activity act thread d child cs) (there : .terminateState t ∈ cs) :
    act.status = .running ∧ t.activity = act.objectRef := by
  have reaction := told.reaction
  cases status : act.status with
  | running =>
    rw [status] at reaction
    refine ⟨rfl, ?_⟩
    cases d with
    | task s =>
      obtain rfl := reaction
      simp at there
    | parallel s =>
      obtain rfl := reaction
      unfold Projection.parallelReaction at there
      split at there
      · split at there
        · cases List.mem_singleton.mp there
          rfl
        · split at there
          · cases there
          · split at there <;> cases List.mem_singleton.mp there
            rfl
      · cases there
    | map s =>
      have reaction : q.mapReaction env s activity act child = some cs := reaction
      unfold Projection.mapReaction at reaction
      split at reaction
      · dsimp only at reaction
        split at reaction
        · cases reaction
          cases there
        · split at reaction
          · cases reaction
            cases List.mem_singleton.mp there
            rfl
          · split at reaction
            · cases reaction
              cases List.mem_singleton.mp there
            · obtain ⟨remaining, -, rfl⟩ := Option.map_eq_some_iff.mp reaction
              obtain ⟨index, -, same⟩ := List.mem_map.mp there
              cases same
      · cases reaction
        cases there
    | _ => exact reaction.elim
  | completing | terminating =>
    rw [status] at reaction
    obtain rfl := reaction
    simp at there
  | completed | terminated =>
    rw [status] at reaction
    obtain rfl := reaction
    cases there

theorem OwnerTold.asks {owner child} (told : OwnerTold env M q owner child cs)
    (there : .terminateState t ∈ cs) :
    ∃ r act, q.getActivity r = some act ∧ act.status = .running ∧ t.activity = act.objectRef := by
  cases owner with
  | execution r => cases told.execution there
  | activity r =>
    obtain ⟨act, thread, d, told⟩ := told.activity
    exact ⟨r, act, told.found, told.asks there⟩

/-- A completing step asks for the termination of its own activity. -/
theorem Ending.Emits.asks (emits : ending.Emits env act q ds)
    (there : .command (.terminateState t) ∈ ds) : t.activity = act.objectRef := by
  cases emits with
  | fails =>
    cases List.mem_singleton.mp there
    rfl
  | moves | ends => simp at there
  | @succeeds _ _ cs _ told =>
    have tells := threadTold_menu told (fun c there => by
      cases List.mem_singleton.mp there
      rfl) (by simpa using there : .terminateState t ∈ cs)
    cases tells
  | @breaks _ _ _ cs _ _ told =>
    have tells := threadTold_menu told (fun _ => threadTermination_menu)
      (by simpa using there : .terminateState t ∈ cs)
    cases tells

theorem Sweeps.asks {kinds} (sweeps : Sweeps p parent kinds cs) (there : .terminateState t ∈ cs) :
    (parent, t.activity.raw) ∈ p.children := by
  obtain ⟨children, perm, -, rfl⟩ := sweeps
  obtain ⟨child, member, same⟩ := List.mem_map.mp there
  obtain ⟨kind, name, uid⟩ := child
  cases kind <;> cases same
  exact mem_getChildren.mp (perm.mem_iff.mp member)

/-- No answer but a sweep of the thread that holds it asks for the termination of a spent activity,
    unless a report from outside does. -/
theorem Outcome.sweeps_spent (outcome : Outcome env M p q c ds) (writes : Writes cause p ds es q)
    (family : p.Family) (fit : DeedsFit p.kin p.nextGeneratedSeq ds) (spent : p.Spent n)
    (other : c.isReport = false) (there : .command (.terminateState t) ∈ ds)
    (named : t.activity.name = n) :
    ∃ parent, (parent, t.activity.raw) ∈ p.children ∧ c.target = some parent.key := by
  have asks := outcome.menu there
  have spent' := outcome.keeps_spent writes family spent
  have family' := (writes.family family fit).1
  have told' (run : ∃ r act, q.getActivity r = some act ∧ act.status = .running ∧
      t.activity = act.objectRef) : False := by
    obtain ⟨r, act, found, running, self⟩ := run
    have filed : act.metadata.name = r.name := family'.filed.activities _ _ found
    refine spent'.not_live found ?_ (.inl running)
    rw [← filed, ← named, self]
    rfl
  have own {r : ObjectRef .activity} {act : Activity} (found : p.getActivity r = some act)
      (self : t.activity = act.objectRef) : r.name = n := by
    rw [← named, self]
    exact (family.filed.activities _ _ found).symm
  have newborn {act : Activity} (born : .event (.stateActivating act) ∈ ds)
      (self : t.activity.name = act.metadata.name) : False := by
    have unused := outcome.newborn_unused family born
    obtain ⟨row, found, -⟩ := spent
    rw [← self, named] at unused
    cases unused.symm.trans found
  cases outcome with
  | executionCreated | threadSpawned => simp at there
  | @threadSwept c row _ _ cs found _ _ sweeps =>
    have filed : row.objectRef.raw.key = c.thread.raw.key := family.sound.filed (kin_thread found)
    exact ⟨_, sweeps.asks (by simpa using there), congrArg some filed.symm⟩
  | @threadCompleted _ _ _ _ _ _ cs _ _ _ _ _ told =>
    exact (told' (OwnerTold.asks (.inl told) (by simpa using there : _ ∈ cs))).elim
  | @threadTerminated _ _ _ _ _ _ cs _ _ _ _ told =>
    exact (told' (OwnerTold.asks (.inr told) (by simpa using there : _ ∈ cs))).elim
  | @stateRefused _ _ _ _ _ _ act =>
    refine (@newborn act (by simp) ?_).elim
    simp only [List.mem_cons, reduceCtorEq, false_or, Deed.command.injEq,
      Command.terminateState.injEq, List.not_mem_nil, or_false] at there
    rw [there]
    rfl
  | @stateEntered _ _ _ _ _ _ _ act _ activated _ ds _ _ _ _ isNew input isActivated launches =>
    have found := writes.birth family fit (e := .stateActivating act) (by simp) rfl
    obtain ⟨state, rfl⟩ := processInput_keeps input
    have same : activated.objectRef = act.objectRef := by rw [isActivated]; rfl
    have kin : activated.kin = act.kin := by rw [isActivated]; rfl
    -- whatever entering a state asks for is sent to the newborn
    have sent : ∃ j, (Command.terminateState t).target = some j ∧ j = act.objectRef.raw.key := by
      rcases List.mem_append.mp there with launched | later
      · have launched : .command (.terminateState t) ∈ ds := by simpa using launched
        rcases launches.goes (κ := q.kin) (R := (· = act.objectRef.raw.key))
          (by rw [same, kin]; exact found) (by rw [same]) with goes | ⟨asked, rfl, -⟩
        · exact (goes _ launched).target
        · simp at launched
      · exact (afterLaunch_goes (κ := q.kin) (R := (· = act.objectRef.raw.key)) rfl later).target
    obtain ⟨j, target, rfl⟩ := sent
    exact (@newborn act (by simp) (congrArg Prod.snd (Option.some.inj target))).elim
  | stateCompleted found _ _ _ opens _ concludes emits =>
    obtain ⟨running, same, -⟩ := Activity.markCompleting_ok opens
    obtain ⟨states, assign, r, assigns⟩ := concludes.assigns
    rcases List.mem_append.mp (command_mem_event.mp there) with assigned | ended
    · exact absurd assigned assigns.command
    · exact (spent.not_live found (own found ((emits.asks ended).trans same.objectRef))
        (.inl running)).elim
  | stateCaught _ _ _ _ _ _ projects cancels =>
    obtain ⟨r, assigns⟩ := projects.assigns
    obtain ⟨children, -, rfl⟩ := cancels
    simp only [List.mem_append, List.mem_cons, List.mem_map, List.mem_filter, Deed.command.injEq,
      assigns.command, reduceCtorEq, List.not_mem_nil, false_or, or_false,
      exists_eq_right] at there
    obtain ⟨child, ⟨-, kind⟩, same⟩ := there
    simp [cancelOf, of_decide_eq_true kind] at same
  | catchFailed found live _ _ _ _ projects =>
    obtain ⟨r, assigns⟩ := projects.assigns
    simp only [List.mem_append, List.mem_singleton, Deed.command.injEq, assigns.command,
      Command.terminateState.injEq, false_or] at there
    exact (spent.not_live found (own found (by rw [there])) live).elim
  | stateTerminated _ _ _ _ _ _ terminates =>
    have winds := terminates.menu (command_mem_event.mp there)
    cases winds
  | taskFailed | activityTimedOut => cases other
  | @activitySwept _ _ _ cs _ _ _ _ sweeps =>
    obtain ⟨child, -, kind, same⟩ := sweeps.menu (by simpa using there : _ ∈ cs)
    have winds : (cancelOf child).winds := swept_winds (by simpa using kind)
    rw [← same] at winds
    cases winds
  | @threadSweptAgain r row _ cs kind found phase _ sweeps =>
    have filed : row.objectRef.raw.key = r.key := by
      rw [← RawObjectRef.typed_raw kind]
      exact family.sound.filed (kin_thread found)
    refine ⟨_, sweeps.asks (by simpa using there), ?_⟩
    rw [filed]
    rcases phase with ⟨rfl, -⟩ | ⟨rfl, -⟩ <;> rfl
  | @executionSweptAgain _ _ _ cs _ _ _ _ sweeps =>
    obtain ⟨child, -, kind, same⟩ := sweeps.menu (by simpa using there : _ ∈ cs)
    simp [cancelOf, List.mem_singleton.mp kind] at same
  | activityConcluded _ found phase _ _ _ _ concludes emits =>
    obtain ⟨states, assign, r, assigns⟩ := concludes.assigns
    rcases List.mem_append.mp there with assigned | ended
    · exact absurd assigned assigns.command
    · exact (spent.not_live found (own found (emits.asks ended)) (.inr phase)).elim
  | @threadClosedCompleted _ _ _ _ cs _ _ _ _ _ told =>
    have there : .terminateState t ∈ cs := by simpa using there
    rcases told with ⟨-, told⟩ | ⟨-, rfl⟩
    · exact (told' (OwnerTold.asks (.inl told) there)).elim
    · cases there
  | @threadClosedTerminated _ _ _ _ _ cs _ _ _ _ _ told =>
    have there : .terminateState t ∈ cs := by simpa using there
    rcases told with ⟨-, told⟩ | ⟨-, rfl⟩
    · exact (told' (OwnerTold.asks (.inr told) there)).elim
    · cases there
  | activityClosedTerminated _ _ _ _ _ _ _ terminates =>
    have winds := terminates.menu there
    cases winds
  | executionClosedCompleted | executionClosedTerminated => simp at there
  | _ => cases asks

/-- What a command within the subtree of a spent activity leaves behind does not ask for its
    termination. -/
theorem Outcome.spares_spent (outcome : Outcome env M p q c ds) (writes : Writes cause p ds es q)
    (family : p.Family) (fit : DeedsFit p.kin p.nextGeneratedSeq ds) (spent : p.Spent n)
    (other : c.isReport = false) (within : c.Within p (.activity, n)) (there : .command c' ∈ ds) :
    c'.terminates n = false := by
  cases c' with
  | terminateState t =>
    by_contra terminates
    have named : t.activity.name = n := by simpa [Command.terminates] using terminates
    obtain ⟨parent, edge, target⟩ :=
      outcome.sweeps_spent writes family fit spent other there named
    have filed : t.activity.raw.key = (.activity, n) := by rw [← named]; rfl
    -- the thread that holds the activity is not under it
    obtain ⟨m, found, -, owner⟩ := family.edges _ _ edge
    rw [filed] at found
    exact family.sound.not_under ⟨m, parent, found, owner, rfl⟩
      (within _ target ⟨parent, _, edge, filed⟩)
  | _ => rfl

/-- A termination that is accepted spends the activity and is not asked for again, unless the
    projection of a catcher fails. -/
theorem Outcome.terminated (outcome : Outcome env M p q (.terminateState t) ds)
    (writes : Writes cause p ds es q) (family : p.Family) :
    q.Spent t.activity.name ∧ (∀ c', .command c' ∈ ds → c'.terminates t.activity.name = false) ∨
      ∃ act thread s error e catcher as, p.getActivity t.activity = some act ∧
        p.getThread act.metadata.owner = some thread ∧
        p.Binds M thread act.statePath (.task s) ∧ t.reason = .failed error ∧
        (s.catch_.getD []).find? (fun c => error.matchesErrorNames c.errorEquals) = some catcher ∧
        Projects env act.metadata.owner (catchStates act error)
          (p.getVariables act.metadata.owner) catcher.assign catcher.output
          (act.rawOutput.getD act.rawInput) (.error e) as ∧
        ds = as ++ [.command (.terminateState ⟨act.objectRef, .failed e⟩)] := by
  cases outcome with
  | @stateCaught _ act _ _ _ catcher as output cs _ caught found _ _ _ _ _ projects cancels isCaught =>
    obtain ⟨r, assigns⟩ := projects.assigns
    have filed : act.metadata.name = t.activity.name := family.filed.activities _ _ found
    have last : Deed.event (.stateCompleted caught) ∈ as ++ cs.map .command ++
        [.event (.stateCompleted caught),
          .event (.stateTransitioned act.objectRef (act.statePath.sibling catcher.next)),
          .command (.activateState ⟨act.execution, act.metadata.owner,
            act.statePath.sibling catcher.next, output⟩)] := by simp
    refine .inl ⟨writes.takes_status (P := fun status => status.isSpent = true) family.filed
      (fun e b there carries _ => ?_) found last rfl (by rw [isCaught]; exact filed),
      fun c' there => ?_⟩
    · simp only [List.mem_append, event_mem_commands, event_mem_cons, event_mem_command,
        List.not_mem_nil, or_false] at there
      rcases there with assigned | rfl | rfl
      · rw [assigns.no_activity assigned] at carries
        cases carries
      · cases carries
        rw [isCaught]
        rfl
      · cases carries
    · obtain ⟨children, -, rfl⟩ := cancels
      simp only [List.mem_append, List.mem_cons, List.mem_map, List.mem_filter,
        Deed.command.injEq, assigns.command, reduceCtorEq, List.not_mem_nil, false_or, or_false,
        exists_eq_right] at there
      rcases there with ⟨child, ⟨-, kind⟩, rfl⟩ | rfl
      · simp [cancelOf, of_decide_eq_true kind, Command.terminates]
      · rfl
  | catchFailed found _ owner defines reason matched projects =>
    exact .inr ⟨_, _, _, _, _, _, _, found, owner, defines, reason, matched, projects, rfl⟩
  | @stateTerminated _ act terminating _ _ _ ds found _ _ _ _ opens terminates =>
    obtain ⟨-, same, status⟩ := Activity.markTerminating_ok opens
    have filed : terminating.metadata.name = t.activity.name :=
      (congrArg (·.id.name) same.kin).trans (family.filed.activities _ _ found)
    have spent : terminating.status.isSpent = true := by rw [status]; rfl
    refine .inl ⟨writes.takes_status (P := fun status => status.isSpent = true) family.filed
      (fun e b there carries _ => ?_) found List.mem_cons_self rfl filed, fun c' there => ?_⟩
    · rcases event_mem_cons.mp there with rfl | there
      · cases carries
        exact spent
      · exact terminates.spent there carries spent
    · have winds := terminates.menu (command_mem_event.mp there)
      cases c' <;> first | rfl | cases winds
  | activitySwept _ _ phase => (rcases phase with ⟨⟨⟩, -⟩ | ⟨⟨⟩, -⟩)
  | threadSweptAgain _ _ phase => (rcases phase with ⟨⟨⟩, -⟩ | ⟨⟨⟩, -⟩)

end consequence

end Spica
