import Spica.Reading

/-! # What a dispatch can do

The forward reading of the handlers: which values a dispatch without faults can return and which
drafts it can leave behind. What it leaves behind is told as a list of deeds, in order: suffixes
taken, events and commands emitted. Clock readings are not kept.
-/

namespace Spica

variable {r : ObjectRef .thread} {e : Event} {c : Command} {version : ObjectRef .flowVersion}
    {ts : Timestamp} {cs : List Command}

/-! ## The vocabulary -/

section vocabulary

open Handler

variable {env : Env} {cause : Nat} {s t : Draft} {α β : Type} {b : β}

@[simp] theorem getExecution_then {r f} :
    (getExecution r >>= f).Runs (does env cause) s b t ↔
      (f (s.rows.getExecution r)).Runs (does env cause) s b t := Prog.runs_known fun _ _ => .rfl

@[simp] theorem getThread_then {f} :
    (getThread r >>= f).Runs (does env cause) s b t ↔
      (f (s.rows.getThread r)).Runs (does env cause) s b t := Prog.runs_known fun _ _ => .rfl

@[simp] theorem getVariables_then {f} :
    (getVariables r >>= f).Runs (does env cause) s b t ↔
      (f (s.rows.getVariables r)).Runs (does env cause) s b t := Prog.runs_known fun _ _ => .rfl

@[simp] theorem getActivity_then {r f} :
    (getActivity r >>= f).Runs (does env cause) s b t ↔
      (f (s.rows.getActivity r)).Runs (does env cause) s b t := Prog.runs_known fun _ _ => .rfl

@[simp] theorem getTask_then {r f} :
    (getTask r >>= f).Runs (does env cause) s b t ↔
      (f (s.rows.getTask r)).Runs (does env cause) s b t := Prog.runs_known fun _ _ => .rfl

@[simp] theorem getChildren_then {r f} :
    (getChildren r >>= f).Runs (does env cause) s b t ↔
      ∃ cs, cs.Perm (s.rows.getChildren r) ∧ (f cs).Runs (does env cause) s b t :=
  Prog.runs_some fun _ _ => .rfl

@[simp] theorem activatableTasks_then {resource at_ limit f} :
    (activatableTasks resource at_ limit >>= f).Runs (does env cause) s b t ↔
      ∃ ts, (∃ all : List Task, all.Perm (s.rows.claimable resource at_) ∧ ts = all.take limit) ∧
        (f ts).Runs (does env cause) s b t := Prog.runs_some fun _ _ => .rfl

theorem peek_known {q v} (answer : ∀ a, q.Answers s.rows a ↔ a = v)
    (r : Except StorageError q.Ret) (u : Draft) :
    does env cause (.peek q) s r u ↔ r = .ok v ∧ u = s := by
  simp only [does, answer, exists_eq_left]

@[simp] theorem peekExecution_then {r f} :
    (peekExecution r >>= f).Runs (does env cause) s b t ↔
      (f (.ok (s.rows.getExecution r))).Runs (does env cause) s b t :=
  Prog.runs_known (peek_known fun _ => .rfl)

@[simp] theorem peekThread_then {f} :
    (peekThread r >>= f).Runs (does env cause) s b t ↔
      (f (.ok (s.rows.getThread r))).Runs (does env cause) s b t :=
  Prog.runs_known (peek_known fun _ => .rfl)

@[simp] theorem peekVariables_then {f} :
    (peekVariables r >>= f).Runs (does env cause) s b t ↔
      (f (.ok (s.rows.getVariables r))).Runs (does env cause) s b t :=
  Prog.runs_known (peek_known fun _ => .rfl)

@[simp] theorem peekActivity_then {r f} :
    (peekActivity r >>= f).Runs (does env cause) s b t ↔
      (f (.ok (s.rows.getActivity r))).Runs (does env cause) s b t :=
  Prog.runs_known (peek_known fun _ => .rfl)

@[simp] theorem peekFlowByName_then {name f} :
    (peekFlowByName name >>= f).Runs (does env cause) s b t ↔
      (f (.ok (s.rows.getFlowByName name))).Runs (does env cause) s b t :=
  Prog.runs_known (peek_known fun _ => .rfl)

@[simp] theorem peekChildren_then {r f} :
    (peekChildren r >>= f).Runs (does env cause) s b t ↔
      ∃ cs, cs.Perm (s.rows.getChildren r) ∧ (f (.ok cs)).Runs (does env cause) s b t := by
  refine (Prog.runs_some fun _ _ => .rfl).trans ⟨?_, ?_⟩
  · rintro ⟨_, ⟨cs, perm, rfl⟩, rest⟩
    exact ⟨cs, perm, rest⟩
  · rintro ⟨cs, perm, rest⟩
    exact ⟨_, ⟨cs, perm, rfl⟩, rest⟩

@[simp] theorem appendEvent_gives {u} :
    (appendEvent e).Runs (does env cause) s u t ↔ ∃ ts, e.Folds s.rows ∧ t = s.fold cause ts e :=
  Prog.runs_perform

@[simp] theorem appendCommand_gives {u} :
    (appendCommand c).Runs (does env cause) s u t ↔ ∃ ts, t = s.emit cause ts (.command c) :=
  Prog.runs_perform

@[simp] theorem emitReject_gives {r u} :
    (emitReject r).Runs (does env cause) s u t ↔ ∃ ts, t = s.emit cause ts (.reject r) :=
  Prog.runs_perform

@[simp] theorem appendEvent_then {f} :
    (appendEvent e >>= f).Runs (does env cause) s b t ↔
      ∃ ts, e.Folds s.rows ∧ (f ()).Runs (does env cause) (s.fold cause ts e) b t := by
  rw [Prog.runs_bind]
  simp only [appendEvent_gives]
  constructor
  · rintro ⟨_, _, ⟨ts, folds, rfl⟩, rest⟩
    exact ⟨ts, folds, rest⟩
  · rintro ⟨ts, folds, rest⟩
    exact ⟨(), _, ⟨ts, folds, rfl⟩, rest⟩

@[simp] theorem appendCommand_then {f} :
    (appendCommand c >>= f).Runs (does env cause) s b t ↔
      ∃ ts, (f ()).Runs (does env cause) (s.emit cause ts (.command c)) b t := by
  rw [Prog.runs_bind]
  simp only [appendCommand_gives]
  constructor
  · rintro ⟨_, _, ⟨ts, rfl⟩, rest⟩
    exact ⟨ts, rest⟩
  · rintro ⟨ts, rest⟩
    exact ⟨(), _, ⟨ts, rfl⟩, rest⟩

@[simp] theorem nextGeneratedSeq_then {f} :
    (nextGeneratedSeq >>= f).Runs (does env cause) s b t ↔
      (f s.rows.nextGeneratedSeq).Runs (does env cause) s.take b t :=
  Prog.runs_known fun _ _ => .rfl

@[simp] theorem mint_then {f} :
    (mint >>= f).Runs (does env cause) s b t ↔ ∃ uid, (f uid).Runs (does env cause) s b t :=
  Prog.runs_any fun _ _ => .rfl

@[simp] theorem now_then {f} :
    (now >>= f).Runs (does env cause) s b t ↔ ∃ at_, (f at_).Runs (does env cause) s b t :=
  Prog.runs_any fun _ _ => .rfl

@[simp] theorem platform_then {f} :
    (platform >>= f).Runs (does env cause) s b t ↔ (f env).Runs (does env cause) s b t :=
  Prog.runs_known fun _ _ => .rfl

theorem cached_then {f} :
    ((Prog.perform (Op.cached version) : Handler (Option StateMachine)) >>= f).Runs
      (does env cause) s b t ↔ (f (s.machines.lookup version)).Runs (does env cause) s b t :=
  Prog.runs_known fun _ _ => .rfl

theorem askFlowVersion_then {onFault f} :
    ((Prog.perform (Op.ask (.flowVersion version) onFault) : Handler (Option FlowVersion)) >>= f).Runs
      (does env cause) s b t ↔ (f (s.rows.getFlowVersion version)).Runs (does env cause) s b t :=
  Prog.runs_known fun _ _ => .rfl

theorem cache_then {machine f} :
    ((Prog.perform (Op.cache version machine) : Handler Unit) >>= f).Runs (does env cause) s b t ↔
      (f ()).Runs (does env cause) (s.remember version machine) b t :=
  Prog.runs_known fun _ _ => ⟨fun did => ⟨rfl, did⟩, And.right⟩

@[simp] theorem rejected_gives {type reason} :
    (rejected type reason : Handler β).Runs (does env cause) s b t ↔ False := .rfl

/-- A `debug_assert!` makes its update where assertions are compiled in, and nowhere else. -/
def Asserted (env : Env) (old : α) (update : Timestamp → Except String α) (new : α) : Prop :=
  if env.debug then ∃ at_, update at_ = .ok new else new = old

theorem debugAssert_then {old update msg} {f : α → Handler β} :
    (debugAssert old (do pure (update (← now))) msg >>= f).Runs (does env cause) s b t ↔
      ∃ new, Asserted env old update new ∧ (f new).Runs (does env cause) s b t := by
  rw [Prog.runs_bind]
  by_cases debug : env.debug = true
  · simp only [debugAssert, Asserted, debug, if_true, platform_then]
    constructor
    · rintro ⟨new, m, asserted, rest⟩
      obtain ⟨r, m', updated, kept⟩ := Prog.runs_bind.mp asserted
      obtain ⟨at_, rfl, rfl⟩ := now_then.mp updated
      cases made : update at_ with
      | error e =>
        rw [made] at kept
        exact kept.elim
      | ok value =>
        rw [made] at kept
        obtain ⟨rfl, rfl⟩ := kept
        exact ⟨new, ⟨at_, made⟩, rest⟩
    · rintro ⟨new, ⟨at_, made⟩, rest⟩
      refine ⟨new, s, Prog.runs_bind.mpr ⟨_, s, now_then.mpr ⟨at_, rfl, rfl⟩, ?_⟩, rest⟩
      rw [made]
      exact ⟨rfl, rfl⟩
  · simp only [debugAssert, Asserted, debug, platform_then]
    constructor
    · rintro ⟨_, _, ⟨rfl, rfl⟩, rest⟩
      exact ⟨_, rfl, rest⟩
    · rintro ⟨_, rfl, rest⟩
      exact ⟨_, _, ⟨rfl, rfl⟩, rest⟩

end vocabulary

/-! ## Programs that only read -/

/-- The values a program that only reads can return. -/
def Yields {α : Type} (env : Env) (m : Handler α) (a : α) : Prop :=
  ∃ cause s t, m.Runs (Handler.does env cause) s a t

/-- After a program that only reads, the draft is as before. -/
theorem Reads.then {α β : Type} {m} (reads : Reads m) {env cause s t} {f : α → Handler β} {b}
    (gives : (m >>= f).Runs (Handler.does env cause) s b t) :
    ∃ a, Yields env m a ∧ (f a).Runs (Handler.does env cause) s b t := by
  obtain ⟨a, u, first, rest⟩ := Prog.runs_bind.mp gives
  obtain rfl := reads.same first
  exact ⟨a, ⟨cause, u, u, first⟩, rest⟩

/-! ## Deeds -/

/-- One thing a dispatch does to its draft. -/
inductive Deed where
  | take
  | event (e : Event)
  | command (c : Command)
  | reject (r : Reject)

/-- From one projection to another by the given deeds, with the entries they emit. -/
inductive Writes (cause : Nat) : Projection → List Deed → List Entry → Projection → Prop
  | nil {p} : Writes cause p [] [] p
  | take {p q ds es}
      (rest : Writes cause (p.putNextGeneratedSeq (p.nextGeneratedSeq + 1)) ds es q) :
      Writes cause p (.take :: ds) es q
  | event {p q ds es e} (ts : Timestamp) (folds : e.Folds p)
      (rest : Writes cause (e.apply ts p) ds es q) :
      Writes cause p (.event e :: ds) (⟨some cause, ts, .event e⟩ :: es) q
  | command {p q ds es c} (ts : Timestamp) (rest : Writes cause p ds es q) :
      Writes cause p (.command c :: ds) (⟨some cause, ts, .command c⟩ :: es) q
  | reject {p q ds es r} (ts : Timestamp) (rest : Writes cause p ds es q) :
      Writes cause p (.reject r :: ds) (⟨some cause, ts, .reject r⟩ :: es) q

theorem Writes.append {cause p q r ds ds' es es'} (first : Writes cause p ds es q)
    (second : Writes cause q ds' es' r) : Writes cause p (ds ++ ds') (es ++ es') r := by
  induction first with
  | nil => exact second
  | take _ ih => exact .take (ih second)
  | event ts folds _ ih => exact .event ts folds (ih second)
  | command ts _ ih => exact .command ts (ih second)
  | reject ts _ ih => exact .reject ts (ih second)

/-- The deeds lead from one draft to the other. -/
def Draft.Writes (s : Draft) (cause : Nat) (ds : List Deed) (t : Draft) : Prop :=
  ∃ es, t.out = s.out ++ es ∧ Spica.Writes cause s.rows ds es t.rows

namespace Draft

variable {s t u : Draft} {cause : Nat} {ds ds' : List Deed}

theorem Writes.refl : s.Writes cause [] s := ⟨[], (List.append_nil _).symm, .nil⟩

theorem Writes.append (first : s.Writes cause ds t) (second : t.Writes cause ds' u) :
    s.Writes cause (ds ++ ds') u := by
  obtain ⟨es, out, first⟩ := first
  obtain ⟨es', out', second⟩ := second
  exact ⟨es ++ es', by rw [out', out, List.append_assoc], first.append second⟩

theorem Writes.event (folds : e.Folds s.rows) (rest : (s.fold cause ts e).Writes cause ds t) :
    s.Writes cause (.event e :: ds) t := by
  obtain ⟨es, out, rest⟩ := rest
  exact ⟨⟨some cause, ts, .event e⟩ :: es, by rw [out]; simp [fold, emit], .event ts folds rest⟩

theorem Writes.command (rest : (s.emit cause ts (.command c)).Writes cause ds t) :
    s.Writes cause (.command c :: ds) t := by
  obtain ⟨es, out, rest⟩ := rest
  exact ⟨⟨some cause, ts, .command c⟩ :: es, by rw [out]; simp [emit], .command ts rest⟩

theorem Writes.reject {r} (rest : (s.emit cause ts (.reject r)).Writes cause ds t) :
    s.Writes cause (.reject r :: ds) t := by
  obtain ⟨es, out, rest⟩ := rest
  exact ⟨⟨some cause, ts, .reject r⟩ :: es, by rw [out]; simp [emit], .reject ts rest⟩

theorem Writes.take (rest : s.take.Writes cause ds t) : s.Writes cause (.take :: ds) t := by
  obtain ⟨es, out, rest⟩ := rest
  exact ⟨es, out, .take rest⟩

/-- Commands are emitted, and nothing else happens. -/
structure Sends (s : Draft) (cause : Nat) (cs : List Command) (t : Draft) : Prop where
  writes : s.Writes cause (cs.map .command) t
  same : t.rows = s.rows

theorem Sends.refl : s.Sends cause [] s := ⟨.refl, rfl⟩

theorem Sends.command (rest : (s.emit cause ts (.command c)).Sends cause cs t) :
    s.Sends cause (c :: cs) t :=
  ⟨.command rest.writes, rest.same⟩

/-- What the machine cache holds makes no difference. -/
theorem Sends.uncached {machines} (sends : Sends { s with machines := machines } cause cs t) :
    s.Sends cause cs t :=
  ⟨sends.writes, sends.same⟩

theorem Sends.one : s.Sends cause [c] (s.emit cause ts (.command c)) := .command .refl

end Draft

/-- One command per element. -/
theorem each_command {β : Type} {env cause f} (bs : List β) {s t}
    (gives : (Prog.each (fun b => appendCommand (f b)) bs).Runs (Handler.does env cause) s () t) :
    s.Sends cause (bs.map f) t := by
  induction bs generalizing s with
  | nil =>
    obtain ⟨-, rfl⟩ := gives
    exact .refl
  | cons b bs ih =>
    rw [Prog.each_cons, appendCommand_then] at gives
    obtain ⟨ts, rest⟩ := gives
    exact .command (ih rest)

end Spica
