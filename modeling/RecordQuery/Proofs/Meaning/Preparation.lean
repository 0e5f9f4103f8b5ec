import Mathlib.Tactic.Choose
import RecordQuery.Proofs.Meaning.Dependable
import RecordQuery.Proofs.Meaning.Parts
/-! What preparing an expression leaves: each part has been prepared on its own branch, and the expression is
dependable on what can be remembered from then on. -/

namespace RecordQuery

open EvalM

/-- What a node goes on remembering when all that it has kept of evaluations is forgotten. -/
def NodeState.forget : NodeState → NodeState
  | call resolution _ => call resolution none
  | bounds _ _ | patterns _ => fresh
  | other => other

namespace Memory

mutual
/-- The memory in which no node keeps anything of an evaluation. -/
def forget : Memory → Memory
  | node state branches => node state.forget (forgetBranches branches)
termination_by structural memory => memory

def forgetBranches : List (Branch × Memory) → List (Branch × Memory)
  | [] => []
  | (branch, part) :: rest => (branch, part.forget) :: forgetBranches rest
termination_by structural branches => branches
end

@[simp] theorem state_forget (memory : Memory) : memory.forget.state = memory.state.forget := by
  cases memory
  rfl

theorem lookup_forgetBranches (branch : Branch) (branches : List (Branch × Memory)) :
    (forgetBranches branches).lookup branch = (branches.lookup branch).map forget := by
  induction branches with
  | nil => rfl
  | cons head rest ih =>
    obtain ⟨other, part⟩ := head
    rw [forgetBranches, List.lookup_cons, List.lookup_cons]
    split
    · rfl
    · exact ih

@[simp] theorem child_forget (memory : Memory) (branch : Branch) :
    memory.forget.child branch = (memory.child branch).forget := by
  obtain ⟨state, branches⟩ := memory
  change ((forgetBranches branches).lookup branch).getD empty = ((branches.lookup branch).getD empty).forget
  rw [lookup_forgetBranches]
  cases branches.lookup branch <;> rfl

/-- What is valid stays so when evaluations are forgotten. -/
theorem Within.forget {own : NodeState → Prop} {below : Branch → Memory → Prop} {memory : Memory}
    (within : memory.Within own below) (state : ∀ state, own state → own state.forget)
    (parts : ∀ branch part, below branch part → below branch part.forget) : memory.forget.Within own below := by
  refine ⟨?_, fun branch => ?_⟩
  · rw [state_forget]
    exact state _ within.1
  · rw [child_forget]
    exact parts _ _ (within.2 branch)

end Memory

/-- The functions of a handler that a trait allows for keep it, and those that do not depend on their context answer
arguments that have one outcome with one outcome. -/
structure Handler.Lawful (trait : Trait) (handler : Handler) : Prop where
  shows {index : Nat} {definition : FunctionDef} (listed : handler.functions[index]? = some definition)
    (called : trait.calls definition.name) (valid : Memory → Prop) : handler.Conducts (trait.conduct valid) index
  steady {index : Nat} {definition : FunctionDef} (listed : handler.functions[index]? = some definition)
    (called : trait.calls definition.name) (settled : definition.contextDependent = false) (valid : Memory → Prop) :
    handler.Conducts (Conduct.steady valid) index

theorem standard_lawful (trait : Trait) : ∀ handler ∈ FunctionRegistry.default.standard, handler.Lawful trait := by
  refine fun handler member => ⟨fun {index _} listed called valid => ?_, fun listed called settled valid =>
    standard_steady member listed (trait.not_accessor called) settled valid⟩
  have other := trait.not_accessor called
  simp only [FunctionRegistry.default, List.mem_cons, List.not_mem_nil, or_false] at member
  rcases member with rfl | rfl | rfl | rfl
  · obtain ⟨variant, -, rfl⟩ := Aggregate.variant_of_listed listed
    exact trait.aggregates valid called index
  · exact TextFunction.handler_conducts _ index
  · exact NumericFunction.handler_conducts _ index
  · exact ConversionFunction.handler_conducts _ (ConversionFunction.ne_accessor listed other)

/-- All functions around are lawful. -/
def Environment.Lawful (trait : Trait) (environment : Environment) : Prop :=
  ∀ handler ∈ environment.functions.handlers, handler.Lawful trait

theorem Environment.lawful_of_own {trait : Trait} {environment : Environment}
    (own : ∀ handler ∈ environment.functions.own, handler.Lawful trait)
    (standard : environment.functions.standard = FunctionRegistry.default.standard) : environment.Lawful trait := by
  intro handler member
  rcases List.mem_append.mp member with brought | given
  · exact own handler brought
  · exact standard_lawful trait handler (standard ▸ given)

namespace Meaning

/-! What preparing an operand remembers. -/

theorem resolvePath_none {root : DataType} {registry : TypeRegistry} {begun prepared : World}
    (ran : resolvePath none root registry begun = .ok () prepared) :
    prepared.memory.state = .operand begun.memory.state.name? none := by
  cases ran
  rfl

theorem resolvePath_some {path : AccessorPath} {root : DataType} {registry : TypeRegistry} {begun prepared : World}
    (ran : resolvePath (some path) root registry begun = .ok () prepared) :
    ∃ accessor, Accessor.resolve path root registry = .ok accessor ∧
      prepared.memory.state = .operand begun.memory.state.name? (some accessor) := by
  unfold resolvePath at ran
  cases resolved : Accessor.resolve path root registry with
  | error error =>
    simp only [resolved] at ran
    cases ran
  | ok accessor =>
    simp only [resolved] at ran
    cases ran
    exact ⟨accessor, rfl, rfl⟩

/-- Preparing a bind variable resolves its path, once the variable has a name. -/
theorem bind_prepare {name : Option String} {path : Option AccessorPath} {setting : Setting} {start prepared : World}
    (ran : (bind name path).prepare setting start = .ok () prepared) :
    ∃ begun, resolvePath path (if storedName name begun.memory.state == "_currobj" then setting.rowType else .any)
      setting.environment.types begun = .ok () prepared := by
  unfold bind at ran
  dsimp only at ran
  cases name with
  | none =>
    obtain ⟨_, begun, -, ran⟩ := ok_of_bind ran
    exact ⟨begun, ran⟩
  | some name =>
    dsimp only at ran
    split at ran
    · cases ran
    · exact ⟨start, ran⟩

/-- Preparing a call resolves its function, once the arguments have been prepared. -/
theorem call_prepare {name : String} {arguments : List Meaning} {setting : Setting} {start prepared : World}
    (ran : (call name arguments).prepare setting start = .ok () prepared) :
    ∃ next resolution, forEach arguments (·.prepare setting) start = .ok () next ∧
      setting.environment.functions.resolve name (arguments.map (·.expectedType setting next)) = some resolution ∧
      prepared.memory = next.memory.withState (.call resolution none) := by
  obtain ⟨_, next, began, ran⟩ := ok_of_bind ran
  rw [get_bind] at ran
  cases resolved : setting.environment.functions.resolve name (arguments.map (·.expectedType setting next)) with
  | none =>
    rw [resolved] at ran
    cases ran
  | some resolution =>
    rw [resolved] at ran
    cases ran
    exact ⟨next, resolution, began, resolved, rfl⟩

/-- Preparing a constructor finds it in the factory for the name, once its parts have been prepared. -/
theorem construct_prepare {typeName : String} {arguments : List Meaning} {setters : List (Meaning × String)}
    {setting : Setting} {start prepared : World}
    (ran : (construct typeName arguments setters).prepare setting start = .ok () prepared) :
    ∃ next factory constructor, forEach (arguments ++ setters.map (·.1)) (·.prepare setting) start = .ok () next ∧
      setting.environment.types.factory? typeName = some factory ∧
      prepared.memory = next.memory.withState (.construction factory constructor) := by
  obtain ⟨_, next, began, ran⟩ := ok_of_bind ran
  cases known : setting.environment.types.factory? typeName with
  | none =>
    rw [known] at ran
    cases ran
  | some factory =>
    rw [known] at ran
    dsimp only at ran
    rw [get_bind] at ran
    cases chosen : chooseSignature
        (factory.signatures.mapIdx fun index signature => (index, signature.map ParamType.type))
        (arguments.map (·.expectedType setting next)) with
    | none =>
      rw [chosen] at ran
      cases ran
    | some choice =>
      rw [chosen] at ran
      cases ran
      exact ⟨next, factory, choice.1, began, rfl, rfl⟩

/-- If the action succeeds, each part has been prepared on its branch, against an allowed setting, and nothing else has
been changed in the memory. -/
def Prepares (allowed : Setting → Prop) (parts : List (Branch × Meaning)) (action : EvalM Unit) : Prop :=
  ∀ start prepared, action start = .ok () prepared →
    prepared.memory.state = start.memory.state ∧
      (∀ branch, branch ∉ parts.map (·.1) → prepared.memory.child branch = start.memory.child branch) ∧
      ∀ part ∈ parts, ∃ setting begun left, allowed setting ∧
        part.2.prepare setting begun = .ok () left ∧ prepared.memory.child part.1 = left.memory

section Prepares

variable {allowed : Setting → Prop} {parts others : List (Branch × Meaning)} {action : EvalM Unit}

theorem prepares_ofExcept (outcome : Except Error Unit) : Prepares allowed [] (EvalM.ofExcept outcome) := by
  intro start prepared ran
  cases outcome <;> cases ran
  exact ⟨rfl, fun _ _ => rfl, by simp⟩

theorem Prepares.inside (prepares : Prepares allowed parts action) (place : String) :
    Prepares allowed parts (action.inside place) := by
  intro start prepared ran
  unfold EvalM.inside at ran
  split at ran
  · next found =>
    cases ran
    exact prepares start prepared found
  · cases ran

theorem prepares_down (meaning : Meaning) (branch : Branch) {setting : Setting} (fits : allowed setting) :
    Prepares allowed [(branch, meaning)] ((meaning.down branch).prepare setting) := by
  intro start prepared ran
  obtain ⟨left, own, rfl⟩ := on_ok ran
  refine ⟨rfl, fun other absent => ?_, List.forall_mem_singleton.mpr ⟨setting, _, left, fits, own, ?_⟩⟩
  · rw [Memory.child_setChild, if_neg (by simpa using absent)]
  · rw [Memory.child_setChild, if_pos rfl]

theorem Prepares.bind {next : EvalM Unit} (first : Prepares allowed parts action)
    (second : Prepares allowed others next) (apart : ((parts ++ others).map (·.1)).Nodup) :
    Prepares allowed (parts ++ others) (action >>= fun _ => next) := by
  intro start prepared ran
  obtain ⟨_, middle, began, ended⟩ := ok_of_bind ran
  obtain ⟨state, untouched, each⟩ := first start middle began
  obtain ⟨state', untouched', each'⟩ := second middle prepared ended
  refine ⟨state'.trans state, fun branch absent => ?_, List.forall_mem_append.mpr ⟨fun part member => ?_, each'⟩⟩
  · rw [List.map_append, List.mem_append, not_or] at absent
    rw [untouched' branch absent.2, untouched branch absent.1]
  · obtain ⟨setting, begun, left, fits, ran, found⟩ := each part member
    refine ⟨setting, begun, left, fits, ran, ?_⟩
    rw [List.map_append] at apart
    rw [untouched' part.1 fun later => List.disjoint_of_nodup_append apart (List.mem_map_of_mem member) later, found]

/-- Preparing parts on branches of their own, in turn. -/
theorem prepares_forM {α : Type} {items : List α} {part : α → Branch × Meaning} {run : α → EvalM Unit}
    (apart : (items.map fun item => (part item).1).Nodup)
    (each : ∀ item ∈ items, Prepares allowed [part item] (run item)) :
    Prepares allowed (items.map part) (items.forM run) := by
  induction items with
  | nil => exact prepares_ofExcept (.ok ())
  | cons item rest ih =>
    obtain ⟨own, others⟩ := List.forall_mem_cons.mp each
    rw [List.forM_eq_forM, List.forM_cons, List.map_cons, ← List.singleton_append]
    exact own.bind (ih (List.nodup_cons.mp apart).2 others) (by simpa [Function.comp_def] using apart)

theorem prepares_forEach {setting : Setting} (fits : allowed setting) (apart : (parts.map (·.1)).Nodup) :
    Prepares allowed parts (forEach (branched parts) (·.prepare setting)) := by
  have all : Prepares allowed (parts.map id) _ :=
    prepares_forM apart fun part _ => prepares_down part.2 part.1 fits
  rw [List.map_id] at all
  rwa [forEach, branched, List.forM_eq_forM, List.forM_map]

end Prepares

/-- The expression is dependable on what can be remembered from now on. -/
def Ready (trait : Trait) (environment : Environment) (meaning : Meaning) (memory : Memory) : Prop :=
  ∃ valid : Memory → Prop, valid memory ∧ (∀ memory, valid memory → valid memory.forget) ∧
    meaning.Dependable trait environment valid

/-- The bind variables that the expression reads, by what it remembers, are such as the trait allows for. -/
def ReadsAllowed (trait : Trait) (meaning : Meaning) (memory : Memory) : Prop :=
  ∀ name, (.bind, name) ∈ meaning.variables memory → trait.reads name

/-- However it is prepared, the expression is ready then, if it reads what is allowed. -/
def Readies (trait : Trait) (environment : Environment) (meaning : Meaning) : Prop :=
  ∀ ⦃setting start prepared⦄, setting.environment = environment →
    meaning.prepare setting start = .ok () prepared → meaning.ReadsAllowed trait prepared.memory →
      meaning.Ready trait environment prepared.memory

variable {trait : Trait} {environment : Environment}

/-- What is valid below a node whose parts are prepared. -/
structure PartsReady (trait : Trait) (environment : Environment) (parts : List (Branch × Meaning))
    (memory : Memory) (below : Branch → Memory → Prop) : Prop where
  holds (branch : Branch) : below branch (memory.child branch)
  forget (branch : Branch) (part : Memory) : below branch part → below branch part.forget
  dependable : ∀ part ∈ parts, part.2.Dependable trait environment (below part.1)
  free {branch : Branch} (absent : branch ∉ parts.map (·.1)) (memory : Memory) : below branch memory

theorem partsReady_of_ready (parts : List (Branch × Meaning)) {memory : Memory} (apart : (parts.map (·.1)).Nodup)
    (each : ∀ part ∈ parts, part.2.Ready trait environment (memory.child part.1)) :
    ∃ below, PartsReady trait environment parts memory below := by
  have ready (branch : Branch) : ∃ valid : Memory → Prop, valid (memory.child branch) ∧
      (∀ memory, valid memory → valid memory.forget) ∧
      (∀ part ∈ parts, part.1 = branch → part.2.Dependable trait environment valid) ∧
      (branch ∉ parts.map (·.1) → ∀ memory, valid memory) := by
    by_cases present : ∃ part ∈ parts, part.1 = branch
    · obtain ⟨part, member, rfl⟩ := present
      obtain ⟨valid, holds, forget, dependable⟩ := each part member
      refine ⟨valid, holds, forget, fun other member' twin => ?_, fun absent => ?_⟩
      · have same := List.inj_on_of_nodup_map apart member' member twin
        exact same ▸ dependable
      · exact absurd (List.mem_map_of_mem member) absent
    · exact ⟨fun _ => True, trivial, fun _ _ => trivial, fun part member same => absurd ⟨part, member, same⟩ present,
        fun _ _ => trivial⟩
  choose below holds forget dependable free using ready
  exact ⟨below, holds, forget, fun part member => dependable part.1 part member rfl, free _⟩

/-- What an expression reads is what its parts read. -/
theorem ReadsAllowed.parts {meaning : Meaning} {parts : List (Branch × Meaning)} {memory : Memory}
    (reads : meaning.ReadsAllowed trait memory)
    (listed : meaning.variables memory = (branched parts).flatMap (·.variables memory)) :
    ∀ part ∈ parts, part.2.ReadsAllowed trait (memory.child part.1) := by
  intro part member name read
  exact reads name (listed ▸ List.mem_flatMap.mpr ⟨_, List.mem_map_of_mem member, read⟩)

theorem partsReady_of_prepare (parts : List (Branch × Meaning)) {setting : Setting} {start prepared : World}
    (apart : (parts.map (·.1)).Nodup) (same : setting.environment = environment)
    (readies : ∀ part ∈ parts, part.2.Readies trait environment)
    (reads : ∀ part ∈ parts, part.2.ReadsAllowed trait (prepared.memory.child part.1))
    (ran : forEach (branched parts) (·.prepare setting) start = .ok () prepared) :
    ∃ below, PartsReady trait environment parts prepared.memory below := by
  have prepares : Prepares (·.environment = environment) parts _ := prepares_forEach same apart
  obtain ⟨-, -, each⟩ := prepares start prepared ran
  refine partsReady_of_ready parts apart fun part member => ?_
  obtain ⟨setting, begun, left, same, ran, found⟩ := each part member
  exact found ▸ readies part member same ran (found ▸ reads part member)

variable {parts : List (Branch × Meaning)} {memory : Memory} {below : Branch → Memory → Prop}

/-- The parts are dependable on their branches, whatever the node remembers. -/
theorem PartsReady.down (ready : PartsReady trait environment parts memory below) (own : NodeState → Prop) :
    ∀ part ∈ branched parts, part.Dependable trait environment (Memory.Within own below) := by
  intro part member
  obtain ⟨part, inside, rfl⟩ := List.mem_map.mp member
  exact (ready.dependable part inside).down

theorem PartsReady.within (ready : PartsReady trait environment parts memory below) {own : NodeState → Prop}
    (state : own memory.state) : memory.Within own below :=
  ⟨state, ready.holds⟩

theorem PartsReady.withState (ready : PartsReady trait environment parts memory below) (state : NodeState) :
    PartsReady trait environment parts (memory.withState state) below :=
  ⟨ready.holds, ready.forget, ready.dependable, ready.free⟩

/-- An expression that does with its parts what compound expressions do. -/
theorem compound_readies (parts : List (Branch × Meaning)) {text : String} {type : Setting → World → DataType}
    {evaluate : Environment → Frame → EvalM Value} (apart : (parts.map (·.1)).Nodup)
    (readies : ∀ part ∈ parts, part.2.Readies trait environment)
    (conducts : ∀ conduct : Conduct, (∀ part ∈ branched parts, conduct.Of (part.evaluate environment)) →
      conduct.Of (evaluate environment)) :
    (compound text type (branched parts) evaluate).Readies trait environment := by
  intro setting start prepared same ran reads
  obtain ⟨below, ready⟩ := partsReady_of_prepare parts apart same readies (reads.parts rfl) ran
  refine ⟨Memory.Within (fun _ => True) below, ready.within trivial,
    fun memory within => within.forget (fun _ _ => trivial) ready.forget, ?_⟩
  exact dependable_of_parts (branched parts) (ready.down _) (fun _ => rfl) fun conduct _ each => conducts conduct each

end Meaning

end RecordQuery
