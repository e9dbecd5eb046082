import Spica.Asl

/-! # Chains of containers

A state lies in the table of the machine, or in the table of a branch or of an item processor of a
container that itself lies in some table. A chain names the containers on the way and the state
last. Its path is built by the operations the handlers use, and the walk of the document leads back
along the chain, whatever the states are called.
-/

namespace Spica

/-- One container on the way, with the child the chain goes on in. -/
inductive Descent where
  | branch (name : String) (index : Fin u64Size)
  | itemProcessor (name : String)
  deriving DecidableEq

structure Chain where
  descents : List Descent
  leaf : String
  deriving DecidableEq

namespace Descent

/-- From the path of a table to the path of the table inside the container. -/
def extend (p : StatePath) : Descent → StatePath
  | .branch name index => (p.state name).branch index
  | .itemProcessor name => (p.state name).itemProcessor

/-- The table inside the container. -/
def table (states : StateTable) : Descent → Option StateTable
  | .branch name index =>
    match states.lookup name with
    | some (.parallel p) => p.branches[index.val]?.map Branch.states
    | _ => none
  | .itemProcessor name =>
    match states.lookup name with
    | some (.map m) => m.itemProcessor.map ItemProcessor.states
    | _ => none

/-- What the descent adds to a path. -/
def tokens : Descent → List String
  | .branch name index =>
    [name, StatePath.branchesKey, toString index.val, StatePath.statesKey]
  | .itemProcessor name => [name, StatePath.itemProcessorKey, StatePath.statesKey]

theorem extend_tokens (p : StatePath) (d : Descent) : (d.extend p).tokens = p.tokens ++ d.tokens := by
  cases d <;> simp [extend, tokens, StatePath.state, StatePath.branch, StatePath.itemProcessor]

end Descent

namespace Chain

/-- `root`, then `state` with `branch` or `item_processor` for each container, then `state`. -/
def path (c : Chain) : StatePath := (c.descents.foldl Descent.extend .root).state c.leaf

/-- The table the chain ends in. -/
def table (m : StateMachine) (c : Chain) : Option StateTable :=
  c.descents.foldlM Descent.table m.states

/-- The state at the end of the chain. -/
def Reaches (m : StateMachine) (c : Chain) (s : State) : Prop :=
  ∃ states, c.table m = some states ∧ states.lookup c.leaf = some s

end Chain

/-! ## The walk along a chain -/

theorem foldl_extend_tokens (p : StatePath) (ds : List Descent) :
    (ds.foldl Descent.extend p).tokens = p.tokens ++ ds.flatMap Descent.tokens := by
  induction ds generalizing p with
  | nil => simp
  | cons d ds ih => simp [ih, Descent.extend_tokens]

theorem Chain.path_tokens (c : Chain) :
    c.path.tokens = StatePath.statesKey :: (c.descents.flatMap Descent.tokens ++ [c.leaf]) := by
  simp [path, StatePath.state, foldl_extend_tokens, StatePath.root]

namespace StateMachine

variable {states inner : StateTable} {m : StateMachine} {c : Chain}

/-- A descent is one turn of the walk's loop. -/
theorem walkStates_descent {d : Descent} (opens : d.table states = some inner) (rest : List String) :
    walkStates states (StatePath.statesKey :: (d.tokens ++ rest)) =
      walkStates inner (StatePath.statesKey :: rest) := by
  cases d with
  | branch name index =>
    simp only [Descent.table] at opens
    split at opens
    next p found =>
      obtain ⟨b, there, rfl⟩ := Option.map_eq_some_iff.mp opens
      simp only [Descent.tokens, List.cons_append, List.nil_append]
      rw [walkStates]
      have parsed : parseUsize index.val.repr = some index.val := parseUsize_toString index.isLt
      simp [found, parsed, there]
    next => cases opens
  | itemProcessor name =>
    simp only [Descent.table] at opens
    split at opens
    next map found =>
      obtain ⟨processor, there, rfl⟩ := Option.map_eq_some_iff.mp opens
      simp only [Descent.tokens, List.cons_append, List.nil_append]
      rw [walkStates]
      simp [found, there]
    next => cases opens

/-- Where a container is missing the walk fails. -/
theorem walkStates_blocked {d : Descent} (blocked : d.table states = none) (rest : List String) :
    ∃ e, walkStates states (StatePath.statesKey :: (d.tokens ++ rest)) = .error e := by
  cases d with
  | branch name index =>
    simp only [Descent.tokens, List.cons_append, List.nil_append]
    rw [walkStates]
    cases found : states.lookup name with
    | none => simp
    | some s =>
      cases s with
      | parallel p =>
        have missing : p.branches[index.val]? = none := by
          simpa [Descent.table, found] using blocked
        have parsed : parseUsize index.val.repr = some index.val :=
          parseUsize_toString index.isLt
        simp [parsed, missing]
      | map map => simp [StatePath.branchesKey, StatePath.itemProcessorKey]
      | pass | wait | succeed | fail | task | choice => simp
  | itemProcessor name =>
    simp only [Descent.tokens, List.cons_append, List.nil_append]
    rw [walkStates]
    cases found : states.lookup name with
    | none => simp
    | some s =>
      cases s with
      | parallel p => simp [StatePath.branchesKey, StatePath.itemProcessorKey]
      | map map =>
        have missing : map.itemProcessor = none := by
          simpa [Descent.table, found] using blocked
        simp [missing]
      | pass | wait | succeed | fail | task | choice => simp

/-- The walk over the path of a table ends on the table, and fails if there is none. -/
theorem walkStates_chain (ds : List Descent) :
    (ds.foldlM Descent.table states = some inner ↔
      walkStates states (StatePath.statesKey :: ds.flatMap Descent.tokens) = .ok inner) := by
  induction ds generalizing states with
  | nil => simp [walkStates]
  | cons d ds ih =>
    rw [List.foldlM_cons, List.flatMap_cons]
    cases opens : d.table states with
    | none =>
      obtain ⟨e, fails⟩ := walkStates_blocked opens (ds.flatMap Descent.tokens)
      simp [fails]
    | some next =>
      rw [walkStates_descent opens]
      exact ih

/-- A path leads to the table of its chain, where the leaf is looked up. -/
theorem stateAt_path {table} (reached : c.table m = some table) :
    m.stateAt c.path = (table.lookup c.leaf).elim (.error (.notFound c.leaf)) .ok := by
  have walked := (walkStates_chain c.descents).mp reached
  unfold stateAt StatePath.stateName
  rw [c.path_tokens, ← List.cons_append, List.dropLast_concat, List.getLast?_concat, walked]
  cases here : table.lookup c.leaf <;> simp [here]

theorem stateAt_path_none (unreached : c.table m = none) : ∃ e, m.stateAt c.path = .error e := by
  unfold stateAt
  rw [c.path_tokens, ← List.cons_append, List.dropLast_concat]
  cases walked : walkStates m.states (StatePath.statesKey :: c.descents.flatMap Descent.tokens) with
  | error e => exact ⟨e, rfl⟩
  | ok table =>
    have reached : c.table m = some table := (walkStates_chain c.descents).mpr walked
    rw [unreached] at reached
    cases reached

theorem stateAt_path_iff {s} : m.stateAt c.path = .ok s ↔ c.Reaches m s := by
  unfold Chain.Reaches
  cases reached : c.table m with
  | none =>
    obtain ⟨e, fails⟩ := stateAt_path_none reached
    simp [fails]
  | some table =>
    rw [stateAt_path reached]
    cases here : table.lookup c.leaf <;> simp [here]

end StateMachine

namespace Chain

/-- The descents and the leaf are read off the tokens: what follows a state's name tells whether it
    is the leaf, and if not which kind of container it is. -/
theorem flatMap_tokens_inj {ds ds' : List Descent} {n n'}
    (same : ds.flatMap Descent.tokens ++ [n] = ds'.flatMap Descent.tokens ++ [n']) :
    ds = ds' ∧ n = n' := by
  induction ds generalizing ds' with
  | nil =>
    cases ds' with
    | nil => simpa using same
    | cons d' ds' => cases d' <;> simp [Descent.tokens] at same
  | cons d ds ih =>
    cases ds' with
    | nil => cases d <;> simp [Descent.tokens] at same
    | cons d' ds' =>
      cases d with
      | branch name index =>
        cases d' with
        | branch name' index' =>
          simp only [Descent.tokens, List.flatMap_cons, List.cons_append, List.nil_append,
            List.cons.injEq, true_and] at same
          obtain ⟨rfl, digits, rest⟩ := same
          have parsed := parseUsize_toString index.isLt
          rw [digits, parseUsize_toString index'.isLt] at parsed
          obtain rfl : index = index' := Fin.ext (Option.some.inj parsed).symm
          obtain ⟨rfl, rfl⟩ := ih rest
          exact ⟨rfl, rfl⟩
        | itemProcessor name' =>
          simp [Descent.tokens, StatePath.branchesKey, StatePath.itemProcessorKey] at same
      | itemProcessor name =>
        cases d' with
        | branch name' index' =>
          simp [Descent.tokens, StatePath.branchesKey, StatePath.itemProcessorKey] at same
        | itemProcessor name' =>
          simp only [Descent.tokens, List.flatMap_cons, List.cons_append, List.nil_append,
            List.cons.injEq, true_and] at same
          obtain ⟨rfl, rest⟩ := same
          obtain ⟨rfl, rfl⟩ := ih rest
          exact ⟨rfl, rfl⟩

theorem path_injective : Function.Injective path := by
  intro c c' same
  have tokens := congrArg StatePath.tokens same
  rw [c.path_tokens, c'.path_tokens, List.cons.injEq] at tokens
  obtain ⟨descents, leaf⟩ := flatMap_tokens_inj tokens.2
  cases c
  cases c'
  cases descents
  cases leaf
  rfl

/-- A sibling has the containers of the state it is a sibling of. -/
theorem sibling_path (c : Chain) (n : String) :
    c.path.sibling n = ({ c with leaf := n } : Chain).path := by
  have sibling : (c.path.sibling n).tokens = c.path.tokens.dropLast ++ [n] := rfl
  rw [c.path_tokens, ← List.cons_append, List.dropLast_concat] at sibling
  have other := Chain.path_tokens { c with leaf := n }
  cases built : c.path.sibling n
  cases built' : ({ c with leaf := n } : Chain).path
  rw [built] at sibling
  rw [built'] at other
  rw [StatePath.mk.injEq]
  exact sibling.trans other.symm

end Chain

/-- The path of a chain resolves to the state at its end and to no other, no two chains share a
    path, and a sibling is looked up in the same table. -/
theorem paths_address_states (m : StateMachine) :
    (∀ c s, m.stateAt c.path = .ok s ↔ Chain.Reaches m c s) ∧
      (∀ c c' : Chain, c ≠ c' → c.path ≠ c'.path) ∧
      ∀ c table n, Chain.table m c = some table →
        m.stateAt (c.path.sibling n) = (table.lookup n).elim (.error (.notFound n)) .ok := by
  refine ⟨fun c s => StateMachine.stateAt_path_iff, fun c c' other same => ?_,
    fun c table n reached => ?_⟩
  · exact other (Chain.path_injective same)
  · rw [c.sibling_path n]
    exact StateMachine.stateAt_path (c := { c with leaf := n }) reached

/-! A machine whose states are called like the keys of the document. -/

def innermost : State := .succeed ⟨none⟩

def mirrored : StateMachine :=
  ⟨"States", none, [("States", .map ⟨none, none, none, some true, some ⟨"Branches",
    [("Branches", .parallel ⟨none, none, none, some true,
      [⟨"0", [("0", .succeed ⟨none⟩)]⟩, ⟨"a/b~", [("a/b~", innermost)]⟩], none⟩)]⟩, none, none⟩)]⟩

def mirroredChain : Chain :=
  ⟨[.itemProcessor "States", .branch "Branches" ⟨1, by decide⟩], "a/b~"⟩

theorem paths_address_states_mirrored :
    Chain.Reaches mirrored mirroredChain innermost ∧
      mirrored.stateAt mirroredChain.path = .ok innermost ∧
      mirroredChain.path.tokens = ["States", "States", "ItemProcessor", "States", "Branches",
        "Branches", "1", "States", "a/b~"] ∧
      mirrored.stateAt (mirroredChain.path.sibling "0") = .error (.notFound "0") := by
  have reaches : Chain.Reaches mirrored mirroredChain innermost := ⟨_, rfl, rfl⟩
  obtain ⟨resolves, -, siblings⟩ := paths_address_states mirrored
  refine ⟨reaches, (resolves _ _).mpr reaches, by decide, ?_⟩
  exact siblings mirroredChain [("a/b~", innermost)] "0" rfl

end Spica
