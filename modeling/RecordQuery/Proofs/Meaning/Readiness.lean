import RecordQuery.Proofs.Meaning.Preparation
/-! Every kind of expression is ready, when it is prepared, to be evaluated any number of times. -/

namespace RecordQuery

open EvalM

namespace Meaning

variable {trait : Trait} {environment : Environment}

/-! Expressions without parts. -/

theorem constant_readies (value : Value) : (constant value).Readies trait environment :=
  compound_readies [] .nil (by simp) fun conduct _ => conduct.pure value

/-- A variable without a path keeps its name. -/
theorem readies_of_plain {meaning : Meaning}
    (prepares : ∀ setting start after, meaning.prepare setting start = .ok () after →
      ∃ name, after.memory.state = .operand name none)
    (dependable : ∀ name memory, memory.state = .operand name none → meaning.ReadsAllowed trait memory →
      meaning.Dependable trait environment fun memory => memory.state = .operand name none) :
    meaning.Readies trait environment := by
  intro setting start prepared _ ran reads
  obtain ⟨name, state⟩ := prepares setting start prepared ran
  exact ⟨_, state, fun memory holds => by rw [Memory.state_forget, holds]; rfl, dependable name _ state reads⟩

theorem bind_readies (name : Option String) : (bind name none).Readies trait environment := by
  refine readies_of_plain (fun setting start after ran => ?_) fun known memory state reads => ?_
  · obtain ⟨begun, ran⟩ := bind_prepare ran
    exact ⟨_, resolvePath_none ran⟩
  · have read := reads _ (List.mem_singleton_self _)
    rw [storedName, state] at read
    exact bind_dependable read fun memory holds => by rw [holds]; exact ⟨rfl, rfl⟩

theorem save_readies (name : String) : (save name none).Readies trait environment :=
  readies_of_plain (fun _ _ _ ran => by cases ran; exact ⟨_, rfl⟩) fun known _ _ _ =>
    save_dependable fun memory holds => by rw [holds]; rfl

/-! Operators. -/

variable {left right operand : Meaning}

private theorem pair_readies {text : String} {type : Setting → World → DataType}
    {evaluate : Environment → Frame → EvalM Value} (first : left.Readies trait environment)
    (second : right.Readies trait environment)
    (conducts : ∀ conduct : Conduct, conduct.Of ((left.down .left).evaluate environment) →
      conduct.Of ((right.down .right).evaluate environment) → conduct.Of (evaluate environment)) :
    (compound text type [left.down .left, right.down .right] evaluate).Readies trait environment :=
  compound_readies [(.left, left), (.right, right)] (by simp) (by simp [first, second])
    fun conduct each => conducts conduct (each _ (by simp [branched])) (each _ (by simp [branched]))

private theorem single_readies {text : String} {type : Setting → World → DataType}
    {evaluate : Environment → Frame → EvalM Value} (first : operand.Readies trait environment)
    (conducts : ∀ conduct : Conduct, conduct.Of ((operand.down .subject).evaluate environment) →
      conduct.Of (evaluate environment)) :
    (compound text type [operand.down .subject] evaluate).Readies trait environment :=
  compound_readies [(.subject, operand)] (by simp) (by simp [first])
    fun conduct each => conducts conduct (each _ (by simp [branched]))

theorem arithmetic_readies (op : ArithmeticOp) (first : left.Readies trait environment)
    (second : right.Readies trait environment) :
    (arithmetic op (left.down .left) (right.down .right)).Readies trait environment :=
  pair_readies first second fun conduct => arithmetic_conducts conduct op

theorem compare_readies (op : CompareOp) (ignoreCase : Bool) (first : left.Readies trait environment)
    (second : right.Readies trait environment) :
    (compare op ignoreCase (left.down .left) (right.down .right)).Readies trait environment :=
  pair_readies first second fun conduct => compare_conducts conduct op ignoreCase

theorem logical_readies (op : LogicalOp) (first : left.Readies trait environment)
    (second : right.Readies trait environment) :
    (logical op (left.down .left) (right.down .right)).Readies trait environment :=
  pair_readies first second fun conduct => logical_conducts conduct op

theorem negate_readies (first : operand.Readies trait environment) :
    (negate (operand.down .subject)).Readies trait environment :=
  single_readies first fun conduct => negate_conducts conduct

theorem not_readies (first : operand.Readies trait environment) :
    (not (operand.down .subject)).Readies trait environment :=
  single_readies first fun conduct => not_conducts conduct

theorem isNull_readies (negated : Bool) (first : operand.Readies trait environment) :
    (isNull negated (operand.down .subject)).Readies trait environment :=
  single_readies first fun conduct => isNull_conducts conduct negated

/-! Predicates that remember what is fixed. -/

/-- Preparing parts anew leaves nothing kept. -/
theorem prepareAnew_ready (parts : List (Branch × Meaning)) {setting : Setting} {start prepared : World}
    (apart : (parts.map (·.1)).Nodup) (same : setting.environment = environment)
    (readies : ∀ part ∈ parts, part.2.Readies trait environment)
    (reads : ∀ part ∈ parts, part.2.ReadsAllowed trait (prepared.memory.child part.1))
    (ran : prepareAnew (branched parts) setting start = .ok () prepared) :
    prepared.memory.state = .fresh ∧ ∃ below, PartsReady trait environment parts prepared.memory below := by
  obtain ⟨_, next, began, written⟩ := ok_of_bind ran
  cases written
  have reads' : ∀ part ∈ parts, part.2.ReadsAllowed trait (next.memory.child part.1) := reads
  obtain ⟨below, ready⟩ := partsReady_of_prepare parts apart same readies reads' began
  exact ⟨rfl, below, ready.withState .fresh⟩

theorem forget_lower? (state : NodeState) : state.forget.lower? = none := by cases state <;> rfl

theorem forget_upper? (state : NodeState) : state.forget.upper? = none := by cases state <;> rfl

theorem forget_pattern? (state : NodeState) (place : Nat) : state.forget.pattern? place = none := by
  cases state <;> rfl

theorem keepsBounds_fresh (low high : Except Error Value) : KeepsBounds low high .fresh := ⟨nofun, nofun⟩

theorem between_readies {subject lower upper : Meaning} (negated : Bool) (first : subject.Readies trait environment)
    (second : lower.Readies trait environment) (third : upper.Readies trait environment) :
    (between negated (subject.down .subject) (lower.down .lower) (upper.down .upper)).Readies trait environment := by
  intro setting start prepared same ran reads
  have parts : ∀ part ∈ [(Branch.subject, subject), (.lower, lower), (.upper, upper)],
      part.2.Readies trait environment := by simp [first, second, third]
  obtain ⟨state, below, ready⟩ := prepareAnew_ready _ (by simp) same parts (reads.parts rfl) ran
  obtain ⟨low, givesLow⟩ := (ready.dependable (.lower, lower) (by simp)).gives
  obtain ⟨high, givesHigh⟩ := (ready.dependable (.upper, upper) (by simp)).gives
  have down := ready.down (KeepsBounds low high)
  refine ⟨Memory.Within (KeepsBounds low high) below, ready.within ?_, fun memory within =>
    within.forget (fun state _ => ?_) ready.forget, between_dependable negated (down _ (by simp [branched]))
      (down _ (by simp [branched])) (down _ (by simp [branched])) givesLow.down givesHigh.down⟩
  · rw [state]
    exact keepsBounds_fresh low high
  · exact ⟨by simp [forget_lower?], by simp [forget_upper?]⟩

theorem keepsPatterns_fresh (ignoreCase : Bool) (outcomes : Nat → Except Error Value) :
    KeepsPatterns ignoreCase outcomes .fresh := nofun

theorem keepsPatterns_forget (ignoreCase : Bool) (outcomes : Nat → Except Error Value) (state : NodeState) :
    KeepsPatterns ignoreCase outcomes state.forget := by
  intro place pattern found
  rw [forget_pattern?] at found
  cases found

theorem like_readies {subject pattern : Meaning} (negated ignoreCase : Bool)
    (first : subject.Readies trait environment) (second : pattern.Readies trait environment) :
    (like negated ignoreCase (subject.down .subject) (pattern.down .pattern)).Readies trait environment := by
  intro setting start prepared same ran reads
  have parts : ∀ part ∈ [(Branch.subject, subject), (.pattern, pattern)], part.2.Readies trait environment := by
    simp [first, second]
  obtain ⟨state, below, ready⟩ := prepareAnew_ready _ (by simp) same parts (reads.parts rfl) ran
  obtain ⟨outcome, gives⟩ := (ready.dependable (.pattern, pattern) (by simp)).gives
  have down := ready.down (KeepsPatterns ignoreCase fun _ => outcome)
  refine ⟨Memory.Within (KeepsPatterns ignoreCase fun _ => outcome) below, ready.within ?_, fun memory within =>
    within.forget (fun state _ => keepsPatterns_forget ignoreCase _ state) ready.forget,
    like_dependable negated (down _ (by simp [branched])) (down _ (by simp [branched])) gives.down⟩
  rw [state]
  exact keepsPatterns_fresh ignoreCase _

theorem numbered_readies {parts : List Meaning} (each : ∀ part ∈ parts, part.Readies trait environment)
    (branch : Nat → Branch) : ∀ part ∈ numbered parts branch, part.2.Readies trait environment :=
  fun part member => each part.2 (mem_numbered member)

theorem among_readies {subject : Meaning} {items : List Meaning} (membership : Membership)
    (first : subject.Readies trait environment) (others : ∀ item ∈ items, item.Readies trait environment) :
    (among membership (subject.down .subject) (each items .item)).Readies trait environment := by
  intro setting start prepared same ran reads
  have branches : branched ((.subject, subject) :: numbered items .item) =
      subject.down .subject :: each items .item := by
    rw [← branched_numbered]
    rfl
  have apart : (((.subject, subject) :: numbered items .item).map (·.1)).Nodup := by
    refine List.nodup_cons.mpr ⟨?_, numbered_apart items fun _ _ => Branch.item.inj⟩
    simp [numbered]
  have parts : ∀ part ∈ (.subject, subject) :: numbered items .item, part.2.Readies trait environment :=
    List.forall_mem_cons.mpr ⟨first, numbered_readies others .item⟩
  change prepareAnew (subject.down .subject :: each items .item) setting start = _ at ran
  rw [← branches] at ran
  obtain ⟨state, below, ready⟩ :=
    prepareAnew_ready _ apart same parts (reads.parts (congrArg (List.flatMap _) branches.symm)) ran
  have given (index : Nat) : ∃ outcome, ∀ item, items[index]? = some item →
      item.Gives environment (below (.item index)) outcome := by
    cases found : items[index]? with
    | none => exact ⟨.error (noSuchFunction ""), fun _ absent => by cases absent⟩
    | some item =>
      have member : (Branch.item index, item) ∈ numbered items .item := by
        obtain ⟨inside, rfl⟩ := List.getElem?_eq_some_iff.mp found
        exact List.mem_mapIdx.mpr ⟨index, inside, rfl⟩
      obtain ⟨outcome, gives⟩ := (ready.dependable _ (List.mem_cons_of_mem _ member)).gives
      refine ⟨outcome, ?_⟩
      rintro _ ⟨⟩
      exact gives
  choose outcomes gives using given
  have down := ready.down (KeepsPatterns membership.ignoreCase outcomes)
  rw [branches] at down
  obtain ⟨own, items'⟩ := List.forall_mem_cons.mp down
  refine ⟨Memory.Within (KeepsPatterns membership.ignoreCase outcomes) below, ready.within ?_, fun memory within =>
    within.forget (fun state _ => keepsPatterns_forget _ _ state) ready.forget,
    among_dependable membership own items' fun index item found => ?_⟩
  · rw [state]
    exact keepsPatterns_fresh _ _
  · obtain ⟨inside, rfl⟩ := List.getElem?_eq_some_iff.mp found
    have bound : index < items.length := by simpa [each] using inside
    have placed : (each items .item)[index] = items[index].down (.item index) := List.getElem_mapIdx
    rw [placed]
    exact (gives index _ (List.getElem?_eq_getElem _)).down

/-! Calls and constructors. -/

/-- The function that a call has been resolved to conducts itself so. -/
def Calls (environment : Environment) (resolution : Resolution) (conduct : Conduct) : Prop :=
  ∀ handler, environment.functions.handlers[resolution.place]? = some handler →
    handler.Conducts conduct resolution.index

section Call

variable {name : String} {types : List DataType} {resolution : Resolution} {memory : Memory}
  {below : Branch → Memory → Prop}

/-- To whatever function a call with so many arguments is resolved, that keeps the trait; with fixed arguments it has one
outcome if it does not depend on its context. -/
def CallsAllowed (trait : Trait) (environment : Environment) (name : String) (arity : Nat) : Prop :=
  ∀ ⦃types : List DataType⦄ ⦃resolution⦄, types.length = arity →
    environment.functions.resolve name types = some resolution →
      (∀ valid, Calls environment resolution (trait.conduct valid)) ∧
        (resolution.definition.contextDependent = false → ∀ valid, Calls environment resolution (.steady valid))

theorem callsAllowed_of_lawful (lawful : environment.Lawful trait) (called : trait.calls name) (arity : Nat) :
    CallsAllowed trait environment name arity := by
  intro types resolution _ resolved
  obtain ⟨handler, placed, listed, -, same⟩ := FunctionRegistry.resolve_found resolved
  have called' : trait.calls resolution.definition.name :=
    trait.calls_congr (FunctionRegistry.sameName_symm same) called
  have law := lawful handler (List.mem_of_getElem? placed)
  refine ⟨fun valid found placed' => ?_, fun settled valid found placed' => ?_⟩
  · cases placed.symm.trans placed'
    exact law.shows listed called' valid
  · cases placed.symm.trans placed'
    exact law.steady listed called' settled valid

variable {arguments : List Meaning}

theorem callAnew_conducts {conduct : Conduct} (called : Calls environment resolution conduct)
    (parts : ∀ part ∈ arguments, conduct.Of (part.evaluate environment)) :
    conduct.Of (callAnew name resolution arguments environment) :=
  conduct.inside (invoke_conducts conduct parts _ called) _

/-- What is fixed of a call that has been resolved. -/
theorem callIsFixed_of_resolved (resolved : memory.state.resolution? = some resolution) :
    callIsFixed arguments memory =
      (!resolution.definition.contextDependent && arguments.all (·.isFixed memory)) := by
  rw [callIsFixed, resolved]

theorem KeepsResult.resolved {outcome : Except Error Value} {state : NodeState}
    (keeps : KeepsResult resolution outcome state) : state.resolution? = some resolution := by
  rcases keeps with rfl | ⟨value, -, rfl⟩ <;> rfl

/-- What is remembered by a call that has kept nothing. -/
def Emptied (resolution : Resolution) (below : Branch → Memory → Prop) (memory : Memory) : Prop :=
  memory.Within (· = .call resolution none) below

theorem Emptied.resolved (emptied : Emptied resolution below memory) :
    memory.state.resolution? = some resolution := by
  rw [emptied.1]
  rfl

theorem call_ready_of_loose (forget : ∀ branch part, below branch part → below branch part.forget)
    (emptied : Emptied resolution below memory)
    (loose : ∀ memory, Emptied resolution below memory → callIsFixed arguments memory = false)
    (called : ∀ valid, Calls environment resolution (trait.conduct valid))
    (parts : ∀ part ∈ arguments, part.Dependable trait environment (Emptied resolution below)) :
    (call name arguments).Ready trait environment memory := by
  refine ⟨Emptied resolution below, emptied, fun memory within => within.forget ?_ forget,
    call_dependable_of_loose name (fun memory within => within.1) loose
      (callAnew_conducts (called _) fun part member => (parts part member).shows)⟩
  rintro _ rfl
  rfl

theorem call_ready_of_fixed (forget : ∀ branch part, below branch part → below branch part.forget)
    (emptied : Emptied resolution below memory) (settled : resolution.definition.contextDependent = false)
    (called : ∀ valid, Calls environment resolution (.steady valid))
    (fixed : ∀ part ∈ arguments, part.isFixed memory = true)
    (parts : ∀ own, ∀ part ∈ arguments, part.Dependable trait environment (Memory.Within own below)) :
    (call name arguments).Ready trait environment memory := by
  have steadily (own : NodeState → Prop) (holds : memory.Within own below) :
      (∀ memory, memory.Within own below → arguments.all (·.isFixed memory) = true) ∧
        (Conduct.steady (Memory.Within own below)).Of (callAnew name resolution arguments environment) := by
    rcases all_fixed (parts own) with changing | ⟨all, constant⟩
    · exact absurd (List.all_eq_true.mpr fixed) (by simp [changing memory holds])
    · exact ⟨all, callAnew_conducts (called _) constant⟩
  obtain ⟨-, outcome, steady⟩ := steadily (· = .call resolution none) emptied
  have begun : memory.Within (KeepsResult resolution outcome) below := ⟨.inl emptied.1, emptied.2⟩
  obtain ⟨all, outcome', steady'⟩ := steadily (KeepsResult resolution outcome) begun
  refine ⟨Memory.Within (KeepsResult resolution outcome) below, begun, fun memory within => within.forget ?_ forget,
    call_dependable_of_fixed name (fun memory within => ?_) fun frame => ?_⟩
  · rintro _ (rfl | ⟨value, -, rfl⟩) <;> exact .inl rfl
  · simp [callIsFixed_of_resolved within.1.resolved, settled, all memory within]
  · cases (steady frame).unique (steady' frame) emptied begun
    exact steady' frame

theorem call_readies (allowed : CallsAllowed trait environment name arguments.length)
    (readies : ∀ argument ∈ arguments, argument.Readies trait environment) :
    (call name (each arguments .argument)).Readies trait environment := by
  rintro setting start prepared rfl ran reads
  obtain ⟨next, resolution, began, resolved, left⟩ := call_prepare ran
  rw [left] at reads
  rw [← branched_numbered] at began
  obtain ⟨below, ready⟩ := partsReady_of_prepare (numbered arguments .argument)
    (numbered_apart arguments fun _ _ => Branch.argument.inj) rfl (numbered_readies readies .argument)
    (reads.parts (congrArg (List.flatMap _) (branched_numbered ..).symm)) began
  obtain ⟨shows, steady⟩ := allowed (by simp [each]) resolved
  rw [left]
  have emptied : Emptied resolution below (next.memory.withState (.call resolution none)) := ⟨rfl, ready.holds⟩
  have parts (own : NodeState → Prop) : ∀ part ∈ each arguments .argument,
      part.Dependable trait setting.environment (Memory.Within own below) := by
    rw [← branched_numbered]
    exact ready.down own
  by_cases settled : resolution.definition.contextDependent = false
  · rcases all_fixed (parts (· = .call resolution none)) with changing | ⟨fixed, -⟩
    · refine call_ready_of_loose ready.forget emptied (fun memory within => ?_) shows
        (parts (· = .call resolution none))
      simp [callIsFixed_of_resolved (Emptied.resolved within), changing memory within]
    · exact call_ready_of_fixed ready.forget emptied settled (steady settled)
        (List.all_eq_true.mp (fixed _ emptied)) parts
  · refine call_ready_of_loose ready.forget emptied (fun memory within => ?_) shows
        (parts (· = .call resolution none))
    simp [callIsFixed_of_resolved (Emptied.resolved within), settled]

end Call

theorem construct_readies (typeName : String) {arguments : List Meaning} {setters : List (Meaning × String)}
    (readies : ∀ argument ∈ arguments, argument.Readies trait environment)
    (sets : ∀ setter ∈ setters, setter.1.Readies trait environment) :
    (construct typeName (each arguments .argument)
      (setters.mapIdx fun index (setter, property) => (setter.down (.setter index), property))).Readies trait
      environment := by
  rintro setting start prepared rfl ran reads
  have branches : branched (numbered arguments .argument ++ numbered (setters.map (·.1)) .setter) =
      each arguments .argument ++ (setters.mapIdx fun index (setter, property) =>
        (setter.down (.setter index), property)).map (·.1) := by
    refine (List.map_append ..).trans (congrArg₂ _ (branched_numbered ..) ?_)
    refine List.ext_getElem (by simp [numbered]) fun index _ _ => ?_
    simp [numbered]
  have apart : ((numbered arguments .argument ++ numbered (setters.map (·.1)) .setter).map (·.1)).Nodup := by
    rw [List.map_append]
    refine (numbered_apart _ fun _ _ => Branch.argument.inj).append (numbered_apart _ fun _ _ => Branch.setter.inj) ?_
    rw [branches_numbered, branches_numbered, List.disjoint_left]
    intro branch argument setter
    obtain ⟨index, -, rfl⟩ := List.mem_map.mp argument
    obtain ⟨index', -, same⟩ := List.mem_map.mp setter
    cases same
  have parts : ∀ part ∈ numbered arguments .argument ++ numbered (setters.map (·.1)) .setter,
      part.2.Readies trait setting.environment := by
    refine List.forall_mem_append.mpr ⟨numbered_readies readies .argument, numbered_readies ?_ .setter⟩
    exact List.forall_mem_map.mpr sets
  obtain ⟨next, factory, constructor, began, -, left⟩ := construct_prepare ran
  rw [left] at reads
  rw [← branches] at began
  obtain ⟨below, ready⟩ :=
    partsReady_of_prepare _ apart rfl parts (reads.parts (congrArg (List.flatMap _) branches.symm)) began
  rw [left]
  have down := ready.down (· = .construction factory constructor)
  rw [branches] at down
  obtain ⟨own, others⟩ := List.forall_mem_append.mp down
  refine ⟨Memory.Within (· = .construction factory constructor) below, ⟨rfl, ready.holds⟩,
    fun memory within => within.forget ?_ ready.forget,
    construct_dependable (fun memory within => within.1) own (List.forall_mem_map.mp others)⟩
  rintro _ rfl
  rfl

end Meaning

/-- The bind variables, named or not, that an expression may read, and the functions that it may call. -/
structure Vocabulary where
  reads : Option String → Bool
  calls : String → Bool

/-- All variables, and all functions but access to a path. -/
def Vocabulary.plain : Vocabulary := ⟨fun _ => true, fun name => !FunctionRegistry.sameName name "accessor"⟩

mutual
/-- Whether an expression keeps to a vocabulary, without paths and without statements inside it. -/
def Expr.isOver (vocabulary : Vocabulary) : Expr → Bool
  | .constant _ => true
  | .member _ | .subquery _ => false
  | .bind name path => path.isNone && vocabulary.reads name
  | .save _ path => path.isNone
  | .arithmetic _ left right | .compare _ _ left right | .logical _ left right =>
    left.isOver vocabulary && right.isOver vocabulary
  | .negate operand | .not operand | .isNull _ operand => operand.isOver vocabulary
  | .between _ subject lower upper =>
    subject.isOver vocabulary && lower.isOver vocabulary && upper.isOver vocabulary
  | .like _ _ subject pattern => subject.isOver vocabulary && pattern.isOver vocabulary
  | .among _ _ _ _ subject items => subject.isOver vocabulary && allOver vocabulary items
  | .call name arguments => vocabulary.calls name && allOver vocabulary arguments
  | .construct _ arguments setters => allOver vocabulary arguments && settersOver vocabulary setters
termination_by structural expression => expression

def allOver (vocabulary : Vocabulary) : List Expr → Bool
  | [] => true
  | expression :: rest => expression.isOver vocabulary && allOver vocabulary rest
termination_by structural expressions => expressions

def settersOver (vocabulary : Vocabulary) : List (Expr × String) → Bool
  | [] => true
  | (setter, _) :: rest => setter.isOver vocabulary && settersOver vocabulary rest
termination_by structural setters => setters
end

/-- Whether an expression has no paths, no statements inside it, and no access to a path given as text. -/
def Expr.isPlain (expression : Expr) : Bool := expression.isOver .plain

/-- A trait allows for the variables and functions of a vocabulary. -/
structure Vocabulary.Fits (vocabulary : Vocabulary) (trait : Trait) : Prop where
  reads {name : Option String} (read : vocabulary.reads name = true) (known : Option String) :
    trait.reads (((name.map normalizeName).or known).getD "?")
  calls {name : String} (called : vocabulary.calls name = true) : trait.calls name

theorem Vocabulary.plain_fits (view : View) : Vocabulary.plain.Fits view.trait where
  reads _ _ := trivial
  calls called := by simpa [plain, View.trait] using called

theorem Vocabulary.Fits.and {vocabulary : Vocabulary} {first second : Trait} (own : vocabulary.Fits first)
    (other : vocabulary.Fits second) : vocabulary.Fits (first.and second) where
  reads read known := ⟨own.reads read known, other.reads read known⟩
  calls called := ⟨own.calls called, other.calls called⟩

/-! Expressions that are ready when they have been prepared. -/

/-- Whether an expression by itself follows no path and has no statement inside it. -/
def Expr.isBare : Expr → Bool
  | .member _ | .subquery _ => false
  | .bind _ path | .save _ path => path.isNone
  | _ => true

section Readies

variable {trait : Trait} {environment : Environment}

/-- An expression is ready if its parts are, if it follows no path and has no statement inside it, and if calls of its
function are allowed. -/
theorem Expr.readies_of_parts {expression : Expr} (bare : expression.isBare = true)
    (calls : ∀ name arguments, expression = .call name arguments →
      Meaning.CallsAllowed trait environment name arguments.length)
    (parts : ∀ part ∈ expression.parts, part.2.meaning.Readies trait environment) :
    expression.meaning.Readies trait environment := by
  have listed {expressions : List Expr} {branch : Nat → Branch}
      (each : ∀ part ∈ Meaning.numbered expressions branch, part.2.meaning.Readies trait environment) :
      ∀ meaning ∈ meanings expressions, meaning.Readies trait environment := by
    rw [meanings_eq_map]
    exact List.forall_mem_map.mpr
      ((Meaning.forall_numbered ).mp each)
  cases expression with
  | constant value => exact Meaning.constant_readies value
  | member _ | subquery _ => cases bare
  | bind name path =>
    cases Option.isNone_iff_eq_none.mp bare
    exact Meaning.bind_readies _
  | save name path =>
    cases Option.isNone_iff_eq_none.mp bare
    exact Meaning.save_readies _
  | arithmetic op left right =>
    obtain ⟨first, second⟩ := by simpa [Expr.parts] using parts
    exact Meaning.arithmetic_readies op first second
  | compare op ignoreCase left right =>
    obtain ⟨first, second⟩ := by simpa [Expr.parts] using parts
    exact Meaning.compare_readies op ignoreCase first second
  | negate operand => exact Meaning.negate_readies (by simpa [Expr.parts] using parts)
  | not operand => exact Meaning.not_readies (by simpa [Expr.parts] using parts)
  | logical op left right =>
    obtain ⟨first, second⟩ := by simpa [Expr.parts] using parts
    exact Meaning.logical_readies op first second
  | isNull negated operand => exact Meaning.isNull_readies negated (by simpa [Expr.parts] using parts)
  | between negated subject lower upper =>
    obtain ⟨first, second, third⟩ := by simpa [Expr.parts] using parts
    exact Meaning.between_readies negated first second third
  | like negated ignoreCase subject pattern =>
    obtain ⟨first, second⟩ := by simpa [Expr.parts] using parts
    exact Meaning.like_readies negated ignoreCase first second
  | among negated ignoreCase like all subject items =>
    obtain ⟨first, others⟩ := List.forall_mem_cons.mp parts
    exact Meaning.among_readies _ first (listed others)
  | call name arguments =>
    refine Meaning.call_readies ?_ (listed parts)
    rw [meanings_eq_map, List.length_map]
    exact calls name arguments rfl
  | construct typeName arguments setters =>
    obtain ⟨first, second⟩ := List.forall_mem_append.mp parts
    refine Meaning.construct_readies typeName (listed first) fun setter member => ?_
    rw [setterMeanings_eq_map] at member
    obtain ⟨pair, inside, rfl⟩ := List.mem_map.mp member
    exact listed second _ (by rw [meanings_eq_map]; exact List.mem_map_of_mem (List.mem_map_of_mem inside))

end Readies

section Vocabulary

variable {trait : Trait} {environment : Environment} {vocabulary : Vocabulary}

theorem allOver_eq (expressions : List Expr) :
    allOver vocabulary expressions = expressions.all (·.isOver vocabulary) := by
  induction expressions with
  | nil => rfl
  | cons expression rest ih => rw [allOver, ih, List.all_cons]

theorem settersOver_eq (setters : List (Expr × String)) :
    settersOver vocabulary setters = (setters.map (·.1)).all (·.isOver vocabulary) := by
  induction setters with
  | nil => rfl
  | cons setter rest ih => rw [settersOver, ih, List.map_cons, List.all_cons]

namespace Expr

variable {expression : Expr}

theorem isBare_of_over (ranges : expression.isOver vocabulary = true) : expression.isBare = true := by
  cases expression with
  | bind name path => exact (Bool.and_eq_true_iff.mp ranges).1
  | member _ | subquery _ | save _ _ => exact ranges
  | _ => rfl

/-- The parts of an expression keep to the vocabulary that it keeps to. -/
theorem isOver_part (ranges : expression.isOver vocabulary = true) :
    ∀ part ∈ expression.parts, part.2.isOver vocabulary = true := by
  have numbered {expressions : List Expr} {branch : Nat → Branch}
      (all : expressions.all (·.isOver vocabulary) = true) :
      ∀ part ∈ Meaning.numbered expressions branch, part.2.isOver vocabulary = true := fun part member =>
    List.all_eq_true.mp all part.2 (Meaning.mem_numbered member)
  cases expression with
  | among _ _ _ _ subject items =>
    obtain ⟨first, others⟩ := Bool.and_eq_true_iff.mp ranges
    exact List.forall_mem_cons.mpr ⟨first, numbered (allOver_eq items ▸ others)⟩
  | call name arguments =>
    exact numbered (allOver_eq arguments ▸ (Bool.and_eq_true_iff.mp ranges).2)
  | construct typeName arguments setters =>
    obtain ⟨first, second⟩ := Bool.and_eq_true_iff.mp ranges
    exact List.forall_mem_append.mpr
      ⟨numbered (allOver_eq arguments ▸ first), numbered (settersOver_eq setters ▸ second)⟩
  | member _ | subquery _ => cases ranges
  | constant _ | bind _ _ | save _ _ => simp [parts]
  | _ => simpa [isOver, parts, and_assoc] using ranges

/-- An expression over a vocabulary that a trait allows for is ready for its evaluations. -/
theorem meaning_readies (fits : vocabulary.Fits trait) (lawful : environment.Lawful trait) (expression : Expr) :
    expression.isOver vocabulary = true → expression.meaning.Readies trait environment := by
  induction expression using byParts with
  | whole expression ih =>
    intro ranges
    refine readies_of_parts (isBare_of_over ranges) (fun name arguments same => ?_) fun part member =>
      ih part member (isOver_part ranges part member)
    subst same
    exact Meaning.callsAllowed_of_lawful lawful (fits.calls (Bool.and_eq_true_iff.mp ranges).1) _

/-- An expression over a vocabulary that a trait allows for reads what is allowed. -/
theorem reads_of_over (fits : vocabulary.Fits trait) (expression : Expr) : expression.isOver vocabulary = true →
    ∀ memory, expression.meaning.ReadsAllowed trait memory := by
  induction expression using byParts with
  | whole expression ih =>
    intro ranges memory name read
    rw [variables_parts] at read
    split at read
    · next own path =>
      cases List.mem_singleton.mp read
      exact fits.reads (Bool.and_eq_true_iff.mp ranges).2 _
    · simp at read
    · cases ranges
    · obtain ⟨_, inside, read⟩ := List.mem_flatMap.mp read
      obtain ⟨_, found, rfl⟩ := List.mem_map.mp inside
      obtain ⟨part, member, rfl⟩ := List.mem_map.mp found
      exact ih part member (isOver_part ranges part member) _ name read

end Expr

end Vocabulary

end RecordQuery
