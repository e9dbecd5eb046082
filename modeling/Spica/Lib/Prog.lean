import Spica.Lib.Eff

/-! # Programs over a signature of operations

`Prog Op Ret ε α` is a program that performs operations from `Op`, each answered by a value of
its own return type, and ends with an `α` or an error. A program is data, so a fact about every
program of a signature is proved once, by induction, from a fact about each operation:
`run_moves` lifts a step relation to whole runs, `run_congr` and `run_agree` compare two runs of
one program, `Uses` and `Built` say what a program is made of, and `Runs` reads it forward over an
abstract state.
-/

/-- A program over the operations `Op`. -/
inductive Prog (Op : Type) (Ret : Op → Type) (ε α : Type) : Type where
  | ret (a : α)
  | fail (e : ε)
  | op (o : Op) (k : Ret o → Prog Op Ret ε α)

namespace Prog

variable {Op : Type} {Ret : Op → Type} {ε ρ σ τ α β : Type}

/-- Continue with the value a program ends in. -/
protected def bind : Prog Op Ret ε α → (α → Prog Op Ret ε β) → Prog Op Ret ε β
  | .ret a, f => f a
  | .fail e, _ => .fail e
  | .op o k, f => .op o fun r => (k r).bind f

instance : Monad (Prog Op Ret ε) where
  pure := .ret
  bind := Prog.bind

/-- Perform one operation. -/
def perform (o : Op) : Prog Op Ret ε (Ret o) := .op o .ret

/-- Handle an error a program ends in; the handler may pass it on. -/
def handle : Prog Op Ret ε α → (ε → Prog Op Ret ε α) → Prog Op Ret ε α
  | .ret a, _ => .ret a
  | .fail e, f => f e
  | .op o k, f => .op o fun r => (k r).handle f

/-- One program per element, in order. -/
def each (f : β → Prog Op Ret ε Unit) : List β → Prog Op Ret ε Unit
  | [] => pure ()
  | b :: bs => do f b; each f bs

/-- One program per element, in order, collecting the results. -/
def collect (f : β → Prog Op Ret ε α) : List β → Prog Op Ret ε (List α)
  | [] => pure []
  | b :: bs => do
    let a ← f b
    let as ← collect f bs
    pure (a :: as)

/-- Interpret every operation. -/
def run (h : (o : Op) → Eff ρ ε σ (Ret o)) : Prog Op Ret ε α → Eff ρ ε σ α
  | .ret a => pure a
  | .fail e => Eff.fail e
  | .op o k => h o >>= fun r => (k r).run h

/-! ## Equations -/

@[simp] theorem pure_bind (a : α) (f : α → Prog Op Ret ε β) : (pure a >>= f) = f a := rfl

theorem bind_pure (p : Prog Op Ret ε α) : (p >>= pure) = p := by
  induction p with
  | ret | fail => rfl
  | op o k ih => exact congrArg (Prog.op o) (funext ih)

theorem bind_assoc {γ : Type} (p : Prog Op Ret ε α) (f : α → Prog Op Ret ε β)
    (g : β → Prog Op Ret ε γ) : p >>= f >>= g = p >>= fun a => f a >>= g := by
  induction p with
  | ret | fail => rfl
  | op o k ih => exact congrArg (Prog.op o) (funext ih)

@[simp] theorem each_nil (f : β → Prog Op Ret ε Unit) : each f [] = pure () := rfl

@[simp] theorem each_cons (f : β → Prog Op Ret ε Unit) (b : β) (bs : List β) :
    each f (b :: bs) = (do f b; each f bs) := rfl

variable {h : (o : Op) → Eff ρ ε σ (Ret o)}

@[simp] theorem run_pure (a : α) : (pure a : Prog Op Ret ε α).run h = pure a := rfl

@[simp] theorem run_fail (e : ε) : (.fail e : Prog Op Ret ε α).run h = Eff.fail e := rfl

@[simp] theorem run_perform (o : Op) : (perform o : Prog Op Ret ε (Ret o)).run h = h o := by
  funext r s
  show Eff.bind (h o) (fun a => pure a) r s = h o r s
  unfold Eff.bind
  rcases h o r s with ⟨_ | _, _⟩ <;> rfl

theorem run_bind (p : Prog Op Ret ε α) (f : α → Prog Op Ret ε β) :
    (p >>= f).run h = p.run h >>= fun a => (f a).run h := by
  induction p with
  | ret | fail => rfl
  | op o k ih =>
    have unfolded : ((Prog.op o k) >>= f).run h = h o >>= fun r => (k r >>= f).run h := rfl
    rw [unfolded]
    simp only [ih]
    exact (Eff.bind_assoc _ _ _).symm

/-! ## Whole runs from single operations -/

/-- A run that returns moves the state along `R`, when each returning operation does. -/
theorem run_moves {R : σ → σ → Prop} {r} (refl : ∀ s, R s s)
    (trans : ∀ s t u, R s t → R t u → R s u) (ops : ∀ o s a t, h o r s = (.ok a, t) → R s t)
    (p : Prog Op Ret ε α) {s t a} (run : p.run h r s = (.ok a, t)) : R s t := by
  induction p generalizing s with
  | ret b =>
    cases run
    exact refl _
  | fail e => cases run
  | op o k ih =>
    obtain ⟨b, m, first, rest⟩ := Eff.bind_ok_iff.mp run
    exact trans _ _ _ (ops o s b m first) (ih b rest)

/-! ## The operations of a program -/

/-- Every operation in the program satisfies `P`, whatever the operations before it answer. -/
def Uses (P : Op → Prop) : Prog Op Ret ε α → Prop
  | .ret _ => True
  | .fail _ => True
  | .op o k => P o ∧ ∀ r, (k r).Uses P

namespace Uses

variable {P : Op → Prop}

theorem mono {Q} {p : Prog Op Ret ε α} (uses : p.Uses P) (weaker : ∀ o, P o → Q o) : p.Uses Q := by
  induction p with
  | ret | fail => trivial
  | op o k ih => exact ⟨weaker o uses.1, fun r => ih r (uses.2 r)⟩

theorem perform {o} (good : P o) : (perform o : Prog Op Ret ε (Ret o)).Uses P :=
  ⟨good, fun _ => trivial⟩

protected theorem bind {p : Prog Op Ret ε α} {f : α → Prog Op Ret ε β} (first : p.Uses P)
    (rest : ∀ a, (f a).Uses P) : (p >>= f).Uses P := by
  induction p with
  | ret a => exact rest a
  | fail => trivial
  | op o k ih => exact ⟨first.1, fun r => ih r (first.2 r)⟩

theorem handle {p : Prog Op Ret ε α} {f} (first : p.Uses P) (recover : ∀ e, (f e).Uses P) :
    (p.handle f).Uses P := by
  induction p with
  | ret => trivial
  | fail e => exact recover e
  | op o k ih => exact ⟨first.1, fun r => ih r (first.2 r)⟩

end Uses

/-- A run that returns moves the state along `R`, when each returning operation the program uses
    does. -/
theorem run_uses {P} {R : σ → σ → Prop} {r} (refl : ∀ s, R s s)
    (trans : ∀ s t u, R s t → R t u → R s u) (ops : ∀ o s a t, P o → h o r s = (.ok a, t) → R s t)
    {p : Prog Op Ret ε α} (uses : p.Uses P) {s t a} (run : p.run h r s = (.ok a, t)) : R s t := by
  induction p generalizing s with
  | ret b =>
    cases run
    exact refl _
  | fail e => cases run
  | op o k ih =>
    obtain ⟨b, m, first, rest⟩ := Eff.bind_ok_iff.mp run
    exact trans _ _ _ (ops o s b m uses.1 first) (ih b (uses.2 b) rest)

/-- The program is put together from operations that satisfy `P` and programs that satisfy `S`. -/
inductive Built (P : Op → Prop) (S : (β : Type) → Prog Op Ret ε β → Prop) :
    Prog Op Ret ε α → Prop where
  | ret (a : α) : Built P S (.ret a)
  | fail (e : ε) : Built P S (.fail e)
  | op {o k} (good : P o) (rest : ∀ r, Built P S (k r)) : Built P S (.op o k)
  | part {β : Type} {m f} (given : S β m) (rest : ∀ b, Built P S (f b)) : Built P S (m >>= f)

namespace Built

variable {P : Op → Prop} {S : (β : Type) → Prog Op Ret ε β → Prop}

theorem of_uses {p : Prog Op Ret ε α} (uses : p.Uses P) : p.Built P S := by
  induction p with
  | ret a => exact .ret a
  | fail e => exact .fail e
  | op o k ih => exact .op uses.1 fun r => ih r (uses.2 r)

theorem of_part {p} (given : S α p) : p.Built P S := by
  rw [← bind_pure p]
  exact .part given .ret

protected theorem bind {p : Prog Op Ret ε α} {f : α → Prog Op Ret ε β} (first : p.Built P S)
    (rest : ∀ a, (f a).Built P S) : (p >>= f).Built P S := by
  induction first with
  | ret a => exact rest a
  | fail e => exact .fail e
  | op good _ ih => exact .op good ih
  | part given _ ih =>
    rw [bind_assoc]
    exact .part given ih

theorem each {f} (bs : List β) (one : ∀ b, (f b).Built P S) : (each f bs).Built P S := by
  induction bs with
  | nil => exact .ret ()
  | cons b bs ih => exact (one b).bind fun _ => ih

theorem collect {f : β → Prog Op Ret ε α} (bs : List β) (one : ∀ b, (f b).Built P S) :
    (collect f bs).Built P S := by
  induction bs with
  | nil => exact .ret []
  | cons b bs ih => exact (one b).bind fun a => ih.bind fun as => .ret (a :: as)

theorem mono {Q} {p : Prog Op Ret ε α} (built : p.Built P S) (weaker : ∀ o, P o → Q o) :
    p.Built Q S := by
  induction built with
  | ret a => exact .ret a
  | fail e => exact .fail e
  | op good _ ih => exact .op (weaker _ good) ih
  | part given _ ih => exact .part given ih

/-- All the operations, when those of the given programs are known. -/
theorem uses {p : Prog Op Ret ε α} (built : p.Built P S)
    (parts : ∀ β (m : Prog Op Ret ε β), S β m → m.Uses P) : p.Uses P := by
  induction built with
  | ret | fail => trivial
  | op good _ ih => exact ⟨good, ih⟩
  | part given _ ih => exact (parts _ _ given).bind ih

end Built

/-! ## Two interpretations of one program -/

/-- Each operation a run performs satisfies `P` in the state where it is performed. -/
def Along (h : (o : Op) → Eff ρ ε σ (Ret o)) (P : Op → σ → Prop) (r : ρ) :
    Prog Op Ret ε α → σ → Prop
  | .ret _, _ => True
  | .fail _, _ => True
  | .op o k, s => P o s ∧ ∀ a t, h o r s = (.ok a, t) → (k a).Along h P r t

instance decidableAlong {P : Op → σ → Prop} {r : ρ} [∀ o s, Decidable (P o s)] :
    (p : Prog Op Ret ε α) → (s : σ) → Decidable (p.Along h P r s)
  | .ret _, _ => .isTrue trivial
  | .fail _, _ => .isTrue trivial
  | .op o k, s =>
    match ran : h o r s with
    | (.ok a, t) =>
      have : Decidable ((k a).Along h P r t) := decidableAlong (k a) t
      decidable_of_iff (P o s ∧ (k a).Along h P r t) (by simp [Along, ran])
    | (.error _, _) => decidable_of_iff (P o s) (by simp [Along, ran])

theorem along_of_forall {P r} (all : ∀ o s, P o s) (p : Prog Op Ret ε α) (s : σ) :
    p.Along h P r s := by
  induction p generalizing s with
  | ret | fail => trivial
  | op o k ih => exact ⟨all o s, fun a t _ => ih a t⟩

theorem Along.bind {P r p} {f : α → Prog Op Ret ε β} {s} (along : (p >>= f).Along h P r s) :
    ∀ a t, p.run h r s = (.ok a, t) → (f a).Along h P r t := by
  induction p generalizing s with
  | ret b =>
    rintro a t ⟨⟩
    exact along
  | fail e => rintro a t ⟨⟩
  | op o k ih =>
    intro a t run
    obtain ⟨b, m, first, rest⟩ := Eff.bind_ok_iff.mp run
    exact ih b (along.2 b m first) a t rest

/-- Where a run ends, whether it returns or fails: what follows from an invariant of everything the
    program is built from, and survives the operation that fails. -/
theorem Built.ends {P S A} {I J : σ → Prop} {r} {p : Prog Op Ret ε α} (built : p.Built P S)
    (weaker : ∀ s, I s → J s) (ops : ∀ o s a t, P o → A o s → I s → h o r s = (.ok a, t) → I t)
    (fails : ∀ o s e t, I s → h o r s = (.error e, t) → J t)
    (parts : ∀ β (m : Prog Op Ret ε β) s a t, S β m → I s → m.run h r s = (.ok a, t) → I t)
    (partFails : ∀ β (m : Prog Op Ret ε β) s e t, S β m → I s → m.run h r s = (.error e, t) → J t)
    {s} (inv : I s) (along : p.Along h A r s) : J (p.run h r s).2 := by
  induction built generalizing s with
  | ret | fail => exact weaker s inv
  | @op o k good _ ih =>
    obtain ⟨here, later⟩ := along
    show J ((h o >>= fun b => (k b).run h) r s).2
    rcases first : h o r s with ⟨e | b, m⟩
    · rw [Eff.bind_of_error first]
      exact fails o s e m inv first
    · rw [Eff.bind_of_ok first]
      exact ih b (ops o s b m good here inv first) (later b m first)
  | @part β m f given _ ih =>
    rw [run_bind]
    rcases first : m.run h r s with ⟨e | b, t⟩
    · rw [Eff.bind_of_error first]
      exact partFails β m s e t given inv first
    · rw [Eff.bind_of_ok first]
      exact ih b (parts β m s b t given inv first) (along.bind b t first)

/-- Two environments that every operation of a run answers alike give the same run. -/
theorem run_congr {P r r'} (ops : ∀ o s, P o s → h o r s = h o r' s) (p : Prog Op Ret ε α) {s}
    (along : p.Along h P r s) : p.run h r s = p.run h r' s := by
  induction p generalizing s with
  | ret | fail => rfl
  | op o k ih =>
    obtain ⟨here, later⟩ := along
    show (h o >>= fun a => (k a).run h) r s = (h o >>= fun a => (k a).run h) r' s
    have same := ops o s here
    rcases first : h o r s with ⟨e | a, t⟩
    · rw [Eff.bind_of_error first, Eff.bind_of_error (same ▸ first)]
    · rw [Eff.bind_of_ok first, Eff.bind_of_ok (same ▸ first)]
      exact ih a (later a t first)

/-- If the second environment answers every returning operation of a run as the first does, a
    returning run returns the same in both. -/
theorem run_agree {P r r'} (ops : ∀ o s a t, P o s → h o r s = (.ok a, t) → h o r' s = (.ok a, t))
    (p : Prog Op Ret ε α) {s t a} (along : p.Along h P r s) (run : p.run h r s = (.ok a, t)) :
    p.run h r' s = (.ok a, t) := by
  induction p generalizing s with
  | ret => exact run
  | fail => cases run
  | op o k ih =>
    obtain ⟨here, later⟩ := along
    obtain ⟨b, m, first, rest⟩ := Eff.bind_ok_iff.mp run
    exact Eff.bind_ok_iff.mpr ⟨b, m, ops o s b m here first, ih b (later b m first) rest⟩

/-- If a change of state commutes with every operation, it does with every run. -/
theorem run_map {f : σ → σ} {r r'} (ops : ∀ o s, h o r' (f s) = ((h o r s).1, f (h o r s).2))
    (p : Prog Op Ret ε α) (s : σ) : p.run h r' (f s) = ((p.run h r s).1, f (p.run h r s).2) := by
  induction p generalizing s with
  | ret | fail => rfl
  | op o k ih =>
    show (h o >>= fun a => (k a).run h) r' (f s) =
      (((h o >>= fun a => (k a).run h) r s).1, f ((h o >>= fun a => (k a).run h) r s).2)
    have same := ops o s
    rcases first : h o r s with ⟨e | a, t⟩ <;> rw [first] at same
    · rw [Eff.bind_of_error first, Eff.bind_of_error same]
    · rw [Eff.bind_of_ok first, Eff.bind_of_ok same]
      exact ih a t

/-- If every operation of a run answers alike in two interpretations and keeps their states
    related, the two runs do. -/
theorem run_simulates {ρ' σ' : Type} {h'} {R : σ → σ' → Prop} {P r} {r' : ρ'}
    (ops : ∀ o s s', R s s' → P o s →
      (h' o r' s').1 = (h o r s).1 ∧ R (h o r s).2 (h' o r' s').2) (p : Prog Op Ret ε α) {s s'}
    (along : p.Along h P r s) (related : R s s') :
    (p.run h' r' s').1 = (p.run h r s).1 ∧ R (p.run h r s).2 (p.run h' r' s').2 := by
  induction p generalizing s s' with
  | ret | fail => exact ⟨rfl, related⟩
  | op o k ih =>
    obtain ⟨here, later⟩ := along
    show ((h' o >>= fun a => (k a).run h') r' s').1 = ((h o >>= fun a => (k a).run h) r s).1 ∧
      R ((h o >>= fun a => (k a).run h) r s).2 ((h' o >>= fun a => (k a).run h') r' s').2
    obtain ⟨same, after⟩ := ops o s s' related here
    rcases first : h o r s with ⟨e | a, t⟩ <;> rcases second : h' o r' s' with ⟨e' | a', t'⟩ <;>
      rw [first, second] at same after <;> cases same
    · rw [Eff.bind_of_error first, Eff.bind_of_error second]
      exact ⟨rfl, after⟩
    · rw [Eff.bind_of_ok first, Eff.bind_of_ok second]
      exact ih a (later a t first) after

/-- Every operation a run performs passes a check. -/
def steers (h : (o : Op) → Eff ρ ε σ (Ret o)) (check : Op → Bool) (r : ρ) :
    Prog Op Ret ε α → σ → Bool
  | .ret _, _ => true
  | .fail _, _ => true
  | .op o k, s => check o && match h o r s with
      | (.ok a, t) => (k a).steers h check r t
      | (.error _, _) => true

/-- What every operation that passes the check keeps, such a run keeps. -/
theorem run_steered {γ : Type} {f : σ → γ} {check r}
    (ops : ∀ o s, check o = true → f (h o r s).2 = f s) (p : Prog Op Ret ε α) {s}
    (steered : p.steers h check r s = true) : f (p.run h r s).2 = f s := by
  induction p generalizing s with
  | ret | fail => rfl
  | op o k ih =>
    simp only [steers, Bool.and_eq_true] at steered
    obtain ⟨passed, later⟩ := steered
    have kept := ops o s passed
    show f ((h o >>= fun a => (k a).run h) r s).2 = f s
    rcases first : h o r s with ⟨e | a, t⟩ <;> rw [first] at kept later
    · rw [Eff.bind_of_error first]
      exact kept
    · rw [Eff.bind_of_ok first]
      exact (ih a later).trans kept

/-! ## Runs as a relation

The forward reading of a program: which values and states it can end in, given what each operation
can do. A specification holds of every run. -/

/-- The runs of a program over an abstract state. A failing program has none. -/
def Runs (does : (o : Op) → τ → Ret o → τ → Prop) : Prog Op Ret ε α → τ → α → τ → Prop
  | .ret a, s, b, t => b = a ∧ t = s
  | .fail _, _, _, _ => False
  | .op o k, s, b, t => ∃ r m, does o s r m ∧ (k r).Runs does m b t

variable {does : (o : Op) → τ → Ret o → τ → Prop} {s t : τ}

@[simp] theorem runs_pure {a b} :
    (pure a : Prog Op Ret ε α).Runs does s b t ↔ b = a ∧ t = s := .rfl

@[simp] theorem runs_perform {o r} :
    (perform o : Prog Op Ret ε (Ret o)).Runs does s r t ↔ does o s r t := by
  constructor
  · rintro ⟨r', m, did, rfl, rfl⟩
    exact did
  · intro did
    exact ⟨r, t, did, rfl, rfl⟩

theorem runs_bind {p} {f : α → Prog Op Ret ε β} {b} :
    (p >>= f).Runs does s b t ↔ ∃ a m, p.Runs does s a m ∧ (f a).Runs does m b t := by
  induction p generalizing s with
  | ret a =>
    constructor
    · intro run
      exact ⟨a, s, ⟨rfl, rfl⟩, run⟩
    · rintro ⟨_, _, ⟨rfl, rfl⟩, run⟩
      exact run
  | fail e =>
    constructor
    · rintro ⟨⟩
    · rintro ⟨_, _, ⟨⟩, _⟩
  | op o k ih =>
    constructor
    · rintro ⟨r, m, did, rest⟩
      obtain ⟨a, m', first, second⟩ := ih r |>.mp rest
      exact ⟨a, m', ⟨r, m, did, first⟩, second⟩
    · rintro ⟨a, m', ⟨r, m, did, first⟩, second⟩
      exact ⟨r, m, did, (ih r).mpr ⟨a, m', first, second⟩⟩

section operations

variable {o : Op} {f : Ret o → Prog Op Ret ε β} {b : β} {m : τ}

/-- After an operation with one possible result. -/
theorem runs_known {v} (known : ∀ r u, does o s r u ↔ r = v ∧ u = m) :
    (perform o >>= f).Runs does s b t ↔ (f v).Runs does m b t := by
  constructor
  · rintro ⟨r, u, did, rest⟩
    obtain ⟨rfl, rfl⟩ := (known r u).mp did
    exact rest
  · intro rest
    exact ⟨v, m, (known v m).mpr ⟨rfl, rfl⟩, rest⟩

/-- A read that fails where there is nothing has found something. -/
theorem runs_found {v p} {f : Option α → Prog Op Ret ε β}
    (read : (p >>= f).Runs does s b t ↔ (f v).Runs does s b t) (runs : (p >>= f).Runs does s b t)
    (fails : ¬(f none).Runs does s b t) : ∃ a, v = some a ∧ (f (some a)).Runs does s b t := by
  cases v with
  | none => exact (fails (read.mp runs)).elim
  | some a => exact ⟨a, rfl, read.mp runs⟩

/-- After an operation whose result satisfies a condition. -/
theorem runs_some {P : Ret o → Prop} (known : ∀ r u, does o s r u ↔ P r ∧ u = m) :
    (perform o >>= f).Runs does s b t ↔ ∃ r, P r ∧ (f r).Runs does m b t := by
  constructor
  · rintro ⟨r, u, did, rest⟩
    obtain ⟨holds, rfl⟩ := (known r u).mp did
    exact ⟨r, holds, rest⟩
  · rintro ⟨r, holds, rest⟩
    exact ⟨r, m, (known r m).mpr ⟨holds, rfl⟩, rest⟩

/-- After an operation with any result. -/
theorem runs_any (known : ∀ r u, does o s r u ↔ u = m) :
    (perform o >>= f).Runs does s b t ↔ ∃ r, (f r).Runs does m b t := by
  constructor
  · rintro ⟨r, u, did, rest⟩
    obtain rfl := (known r u).mp did
    exact ⟨r, rest⟩
  · rintro ⟨r, rest⟩
    exact ⟨r, m, (known r m).mpr rfl, rest⟩

end operations

/-- A returning run is one of the runs, if each returning operation, under an invariant, does what
    it can do over an abstraction of the state. -/
theorem runs_sound {r} (view : σ → τ) {I : σ → Prop}
    (ops : ∀ o s a t, I s → h o r s = (.ok a, t) → does o (view s) a (view t) ∧ I t)
    (p : Prog Op Ret ε α) {s t a} (inv : I s) (run : p.run h r s = (.ok a, t)) :
    p.Runs does (view s) a (view t) ∧ I t := by
  induction p generalizing s with
  | ret b =>
    cases run
    exact ⟨⟨rfl, rfl⟩, inv⟩
  | fail e => cases run
  | op o k ih =>
    obtain ⟨b, m, first, rest⟩ := Eff.bind_ok_iff.mp run
    obtain ⟨did, inv⟩ := ops o s b m inv first
    obtain ⟨later, inv⟩ := ih b inv rest
    exact ⟨⟨b, view m, did, later⟩, inv⟩

/-- The runs over one state are runs over another, if each operation is. -/
theorem Runs.map {τ' : Type} {does'} (view : τ → τ')
    (ops : ∀ o s r t, does o s r t → does' o (view s) r (view t)) {p : Prog Op Ret ε α} {a}
    (run : p.Runs does s a t) : p.Runs does' (view s) a (view t) := by
  induction p generalizing s with
  | ret b =>
    obtain ⟨rfl, rfl⟩ := run
    exact ⟨rfl, rfl⟩
  | fail e => cases run
  | op o k ih =>
    obtain ⟨r, m, did, rest⟩ := run
    exact ⟨r, view m, ops o s r m did, ih r rest⟩

/-- What every operation a program uses keeps, its runs keep. -/
theorem Uses.runs {P} {R : τ → τ → Prop} (refl : ∀ s, R s s)
    (trans : ∀ s t u, R s t → R t u → R s u) (ops : ∀ o s a t, P o → does o s a t → R s t)
    {p : Prog Op Ret ε α} (uses : p.Uses P) {s t a} (run : p.Runs does s a t) : R s t := by
  induction p generalizing s with
  | ret b =>
    obtain ⟨-, rfl⟩ := run
    exact refl _
  | fail e => cases run
  | op o k ih =>
    obtain ⟨b, m, did, rest⟩ := run
    exact trans _ _ _ (ops o s b m uses.1 did) (ih b (uses.2 b) rest)

end Prog
