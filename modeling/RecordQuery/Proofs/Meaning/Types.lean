import RecordQuery.Proofs.Accessor.Types
import RecordQuery.Proofs.Function.Types
import RecordQuery.Proofs.Meaning.Caching
import RecordQuery.Proofs.Meaning.OfExpr
import RecordQuery.Proofs.Meaning.Subquery
import RecordQuery.Proofs.Variables.Types
/-! The types that expressions are expected to have. The value of an expression is null or of the type that was expected
of it when it was prepared, as long as rows conform to their type and variables keep theirs. -/

namespace RecordQuery

open EvalM

/-! Variables that are set stay so. -/

instance : AllowsEvaluation World.Retains where
  remembered world _ := refl world.heap
  part below := below
  opened statement world := Heap.retains_opened statement world.heap
  numbered world scope := (world.heap.sameTables_nextAnonymous scope).retains
  watched world scope kind names := (world.heap.sameTables_watch scope kind names).retains
  released world subscriptions := (world.heap.sameTables_release subscriptions).retains
  lowered world id subscriptions := (world.heap.sameTables_lower id subscriptions).retains

instance : AllowsFunctions World.Retains where
  saved later _ _ absent value := later.set absent value
  accessed world _ := refl world.heap

instance : AllowsStatements World.Retains where
  timed world _ := refl world.heap
  restored later scope := later.restore scope
  standard := standard_keep

instance : AllowsFunctions World.SameNode where
  saved later _ _ _ _ := later
  accessed _ _ := rfl

theorem Environment.keeps_of_standard {related : World → World → Prop} [AllowsFunctions related]
    {environment : Environment} (only : environment.functions.IsStandard) : environment.Keeps related :=
  fun handler member => standard_keep handler (only.mem member)

/-! What a value can be said to be. -/

theorem Value.isOf_dataType (value : Value) : value.IsOf value.dataType := .inr (.inr rfl)

theorem Value.isNumeric_dataType (value : Value) : value.dataType.isNumeric = value.isNumeric := by
  cases value <;> rfl

/-- A value that is not null is a number exactly if its type, where it is known, is one of numbers. -/
theorem Value.IsOf.isNumeric {value : Value} {type : DataType} (typed : value.IsOf type)
    (present : value.isNull = false) (known : type.isAny = false) : type.isNumeric = value.isNumeric := by
  rcases typed with rfl | rfl | rfl
  · cases known
  · cases present
  · exact value.isNumeric_dataType

theorem DataType.isAny_of_isNumeric {type : DataType} (numeric : type.isNumeric = true) : type.isAny = false := by
  cases type <;> first | rfl | cases numeric

/-- An operator on values of types makes one of the type that it has for these. -/
theorem Value.applyOp_isOf {op : ArithmeticOp} {left right value : Value} {first second : DataType}
    (typed : left.IsOf first) (typed' : right.IsOf second) (success : left.applyOp op right = .ok value) :
    value.IsOf (if op != .add then .float64
      else if first.isNumeric && second.isNumeric then .float64
      else if first.isAny || second.isAny then .any else .string) := by
  unfold applyOp at success
  split at success
  · cases success
    exact Value.isOf_null _
  next present =>
  simp only [Bool.or_eq_true, not_or, Bool.not_eq_true] at present
  have numeric (first' : first.isAny = false) (second' : second.isAny = false) :
      (left.isNumeric && right.isNumeric) = (first.isNumeric && second.isNumeric) := by
    rw [typed.isNumeric present.1 first', typed'.isNumeric present.2 second']
  have number (computes : (op == .add && !(left.isNumeric && right.isNumeric)) = false) : value.IsOf .float64 := by
    simp only [computes, Bool.false_eq_true, if_false] at success
    obtain ⟨x, -, success⟩ := Except.bind_eq_ok success
    obtain ⟨y, -, success⟩ := Except.bind_eq_ok success
    cases success
    exact .inr (.inr rfl)
  split
  · next other => exact number (by simp_all)
  next add =>
  split
  · next both =>
    refine number ?_
    obtain ⟨first', second'⟩ := Bool.and_eq_true_iff.mp both
    rw [numeric (DataType.isAny_of_isNumeric first') (DataType.isAny_of_isNumeric second'), both]
    simp
  next notBoth =>
  split
  · exact .inl rfl
  · next known =>
    simp only [Bool.or_eq_true, not_or, Bool.not_eq_true] at known
    rw [numeric known.1 known.2] at success
    simp only [Bool.not_eq_true] at add notBoth
    have adds : (op == .add) = true := by simpa using add
    simp only [adds, notBoth, Bool.not_false, Bool.and_self, if_true] at success
    cases success
    exact .inr (.inr rfl)

theorem Value.negate_isOf {value negated : Value} {type : DataType} (typed : value.IsOf type)
    (success : value.negate = .ok negated) : negated.IsOf type := by
  rcases typed with rfl | rfl | rfl
  · exact .inl rfl
  · cases success
    exact Value.isOf_null type
  · cases value <;> cases success
    all_goals exact .inr (.inr rfl)

/-- A variable has a value of the type that it had. -/
theorem Heap.SameTypes.isOf {base heap : Heap} {scope seen : Scope} (same : base.SameTypes scope heap seen)
    (kind : VariableKind) (name : String) :
    ((heap.get? seen kind name).getD .null).IsOf (base.typeOf scope kind name) := by
  by_cases known : base.typeOf scope kind name = .any
  · exact .inl known
  · have typed := same kind name known
    rw [← typed]
    unfold typeOf
    cases heap.get? seen kind name with
    | none => exact Value.isOf_null _
    | some value => exact value.isOf_dataType

theorem Heap.dataType_bindValue (heap : Heap) (scope : Scope) (name : String) :
    (heap.bindValue scope name).dataType = heap.typeOf scope .bind name := by
  unfold bindValue typeOf
  cases heap.get? scope .bind name <;> rfl

/-- An expression that was prepared in a setting can be evaluated about no row or one that conforms to the row type. -/
def Setting.Admits (setting : Setting) (frame : Frame) : Prop :=
  ∀ row ∈ frame.row, row.Conforms setting.environment.types setting.rowType

namespace Meaning

/-- While what is remembered is valid, it stays so, and values are of the type that is expected. -/
structure Typed (setting : Setting) (valid : Memory → Prop) (meaning : Meaning) : Prop where
  stays {frame : Frame} (admits : setting.Admits frame) :
    EvalM.Keeps (World.Stays valid) (meaning.evaluate setting.environment frame)
  returns {frame : Frame} {base world left : World} {value : Value} (admits : setting.Admits frame)
    (told : valid base.memory) (holds : valid world.memory)
    (same : base.heap.SameTypes setting.scope world.heap frame.scope)
    (ran : meaning.evaluate setting.environment frame world = .ok value left) :
    value.IsOf (meaning.expectedType setting base)

/-- However it is prepared, the expression is typed from then on. -/
def BecomesTyped (setting : Setting) (meaning : Meaning) : Prop :=
  ∀ ⦃start prepared⦄, meaning.prepare setting start = .ok () prepared →
    ∃ valid, valid prepared.memory ∧ meaning.Typed setting valid

variable {setting : Setting}

/-- One type is expected of the expression, whatever is remembered, and its values are of it. -/
theorem typed_of_returns {meaning : Meaning} {type : DataType}
    (told : ∀ world, meaning.expectedType setting world = type)
    (returns : ∀ frame, Returns (·.IsOf type) (meaning.evaluate setting.environment frame)) :
    meaning.BecomesTyped setting := by
  intro start prepared _
  refine ⟨fun _ => True, trivial, fun _ _ _ => trivial, fun _ _ _ _ ran => ?_⟩
  rw [told]
  exact returns _ _ _ _ ran

theorem constant_typed (value : Value) : (constant value).BecomesTyped setting :=
  typed_of_returns (fun _ => rfl) fun _ => returns_pure value.isOf_dataType

/-- What is true or false is a boolean. -/
theorem boolean_typed {meaning : Meaning} {decide : Frame → EvalM Bool}
    (told : ∀ world, meaning.expectedType setting world = .boolean)
    (decides : ∀ frame, meaning.evaluate setting.environment frame = .boolean <$> decide frame) :
    meaning.BecomesTyped setting := by
  refine typed_of_returns told fun frame => ?_
  rw [decides, map_eq_pure_bind]
  exact (returns_true _).bind fun truth _ => returns_pure (.inr (.inr rfl))

theorem subquery_typed (statement : Statement Meaning) : (subquery statement).BecomesTyped setting := by
  refine typed_of_returns (fun _ => rfl) fun frame => ?_
  unfold subquery
  dsimp only
  cases statement.sourceExpression? with
  | none => exact returns_throw _
  | some source =>
    refine (returns_true _).bind fun _ _ => (returns_true _).bind fun _ _ => (returns_true _).bind fun _ _ => ?_
    exact (returns_true _).bind fun results _ => returns_pure (.inr (.inr rfl))

/-! Operands. -/

/-- The node keeps its name, and an accessor that leads from one type to another. -/
structure LeadsTo (registry : TypeRegistry) (root type : DataType) (name : Option String) (memory : Memory) : Prop where
  name : memory.state.name? = name
  accessor : ∃ accessor, memory.state.accessor? = some accessor ∧ accessor.rootType = root ∧
    accessor.resultType = type ∧ accessor.Leads registry

theorem leadsTo_of_resolvePath {path : AccessorPath} {root : DataType} {registry : TypeRegistry}
    {begun prepared : World} (named : registry.Named)
    (ran : resolvePath (some path) root registry begun = .ok () prepared) :
    ∃ type, LeadsTo registry root type begun.memory.state.name? prepared.memory := by
  obtain ⟨accessor, resolved, state⟩ := resolvePath_some ran
  obtain ⟨same, leads⟩ := Accessor.resolve_leads named resolved
  refine ⟨accessor.resultType, ?_, accessor, ?_, same, rfl, leads⟩
  all_goals
    rw [state]
    rfl

section FollowPath

variable {registry : TypeRegistry} {root type : DataType} {name : Option String} {world left : World} {value : Value}

/-- Following a path from a value that conforms to its root type finds one that conforms to the type it leads to. -/
theorem LeadsTo.followPath (leads : LeadsTo registry root type name world.memory)
    (conforms : value.Conforms registry root) :
    LeadsTo registry root type name ((Meaning.followPath value).after world).memory ∧
      ∀ found left, Meaning.followPath value world = .ok found left → found.Conforms registry type := by
  obtain ⟨rfl, accessor, state, rfl, rfl, leads⟩ := leads
  obtain ⟨onward, finds⟩ := accessor.get_conforms leads conforms
  have ran : Meaning.followPath value world = EvalM.ofExcept (accessor.get value).1
      { world with memory :=
          world.memory.withState (.operand world.memory.state.name? (some (accessor.get value).2)) } := by
    unfold Meaning.followPath
    rw [node_bind]
    dsimp only
    rw [state]
    rfl
  rw [after, ran]
  cases found : (accessor.get value).1 with
  | error error =>
    refine ⟨⟨rfl, _, rfl, rfl, rfl, onward⟩, fun result left failed => ?_⟩
    cases failed
  | ok held =>
    refine ⟨⟨rfl, _, rfl, rfl, rfl, onward⟩, fun result left same => ?_⟩
    cases same
    exact finds held found

end FollowPath

/-- Once its path has been resolved, a member is read from the row, or null if there is none. -/
theorem member_evaluate {path : AccessorPath} {environment : Environment} {frame : Frame}
    (leads : LeadsTo registry root type name world.memory) :
    (member path).evaluate environment frame world =
      match frame.row with
      | some row => followPath row world
      | none => .ok .null world := by
  obtain ⟨accessor, state, -⟩ := leads.accessor
  change (node >>= fun state => _) world = _
  rw [node_bind, state]
  cases frame.row <;> rfl

theorem member_typed (named : setting.environment.types.Named) (path : AccessorPath) :
    (member path).BecomesTyped setting := by
  intro start prepared ran
  obtain ⟨type, leads⟩ := leadsTo_of_resolvePath named ran
  refine ⟨_, leads, fun {frame} admits world leads => ?_,
    fun {frame base world left value} admits told leads _ ran => ?_⟩
  · rw [after, member_evaluate leads]
    cases given : frame.row with
    | none => exact leads
    | some row => exact (leads.followPath (admits row given)).1
  · obtain ⟨accessor, state, -, same, -⟩ := told.accessor
    have expected : (member path).expectedType setting base = type := by
      rw [← same]
      unfold member
      dsimp only
      rw [state]
    rw [member_evaluate leads] at ran
    rw [expected]
    cases given : frame.row with
    | none =>
      rw [given] at ran
      cases ran
      exact Value.isOf_null type
    | some row =>
      rw [given] at ran
      exact ((leads.followPath (admits row given)).2 value left ran).isOf

/-- A bind variable has a value, which conforms to the row type if it is the row at hand, and is of its type. -/
theorem bindValue_typed {frame : Frame} (admits : setting.Admits frame) (name : String) (world : World) :
    ∃ value, bindValue name frame world = .ok value world ∧
      value.Conforms setting.environment.types (if name == "_currobj" then setting.rowType else .any) ∧
      ∀ base, Heap.SameTypes base setting.scope world.heap frame.scope → value.IsOf (bindType name setting base) := by
  have row : (frame.row.getD .null).Conforms setting.environment.types setting.rowType := by
    cases given : frame.row with
    | none => exact .null _
    | some row => exact admits row given
  by_cases reserved : name ∈ reservedNames
  · simp only [reservedNames, List.mem_cons, List.not_mem_nil, or_false] at reserved
    rcases reserved with rfl | rfl | rfl | rfl | rfl | rfl
    · exact ⟨_, rfl, .any _, fun _ _ => .inr (.inr rfl)⟩
    · exact ⟨_, rfl, row, fun _ _ => row.isOf⟩
    · exact ⟨_, rfl, .any _, fun _ _ => .inr (.inr rfl)⟩
    · exact ⟨_, rfl, .any _, fun _ _ => .inl rfl⟩
    · exact ⟨_, rfl, .any _, fun _ _ => .inl rfl⟩
    · refine ⟨_, rfl, .any _, fun _ _ => ?_⟩
      cases frame.groupKey with
      | none => exact Value.isOf_null _
      | some key => exact .inr (.inr rfl)
  · have other : name ≠ "_currobj" := fun same => reserved (same ▸ by decide)
    refine ⟨world.heap.bindValue frame.scope name, ?_, ?_, fun base same => ?_⟩
    · rw [bindValue_of_other reserved]
      rfl
    · rw [if_neg (by simpa using other)]
      exact .any _
    · rw [bindType_of_other reserved, base.dataType_bindValue]
      exact same.isOf .bind name

theorem bind_typed (named : setting.environment.types.Named) (name : Option String) (path : Option AccessorPath) :
    (bind name path).BecomesTyped setting := by
  intro start prepared ran
  obtain ⟨begun, ran⟩ := bind_prepare ran
  have evaluated {frame : Frame} (world : World) : (bind name path).evaluate setting.environment frame world =
      (bindValue (storedName name world.memory.state) frame >>= followPath) world := rfl
  cases path with
  | none =>
    have state := resolvePath_none ran
    refine ⟨fun memory => memory.state = .operand begun.memory.state.name? none, state,
      fun {frame} admits world holds => ?_, fun {frame base world left value} admits told holds same ran => ?_⟩
    · obtain ⟨value, reads, -⟩ := bindValue_typed admits (storedName name world.memory.state) world
      rw [after, evaluated, bind_of_ok reads, followPath_none (by rw [holds]; rfl)]
      exact holds
    · obtain ⟨found, reads, -, typed⟩ := bindValue_typed admits (storedName name world.memory.state) world
      rw [evaluated, bind_of_ok reads, followPath_none (by rw [holds]; rfl)] at ran
      cases ran
      change value.IsOf (bindType (storedName name base.memory.state) setting base.heap)
      rw [told, ← holds]
      exact typed _ same
  | some path =>
    obtain ⟨type, leads⟩ := leadsTo_of_resolvePath named ran
    have stored {memory : Memory} {root : DataType}
        (leads : LeadsTo setting.environment.types root type begun.memory.state.name? memory) :
        storedName name memory.state = storedName name begun.memory.state := by
      rw [storedName, storedName, leads.name]
    refine ⟨_, leads, fun {frame} admits world leads => ?_,
      fun {frame base world left value} admits told leads _ ran => ?_⟩
    · obtain ⟨value, reads, conforms, -⟩ := bindValue_typed admits (storedName name world.memory.state) world
      rw [stored leads] at conforms
      rw [after, evaluated, bind_of_ok reads]
      exact (leads.followPath conforms).1
    · obtain ⟨found, reads, conforms, -⟩ := bindValue_typed admits (storedName name world.memory.state) world
      obtain ⟨accessor, state, -, same, -⟩ := told.accessor
      have expected : (bind name (some path)).expectedType setting base = type := by
        rw [← same]
        unfold bind
        dsimp only
        rw [state]
        rfl
      rw [stored leads] at conforms
      rw [evaluated, bind_of_ok reads] at ran
      rw [expected]
      exact ((leads.followPath conforms).2 value left ran).isOf

theorem save_typed (name : String) (path : Option AccessorPath) : (save name path).BecomesTyped setting := by
  cases path with
  | some path => exact typed_of_returns (fun _ => rfl) fun _ _ _ _ _ => .inl rfl
  | none =>
    intro start prepared ran
    have evaluated {frame : Frame} {world : World} (holds : world.memory.state.accessor? = none) :
        (save name none).evaluate setting.environment frame world =
          .ok ((world.heap.saveValue? frame.scope name).getD .null) world := by
      change (EvalM.readHeap _ >>= fun found => _) world = _
      rw [readHeap_bind, followPath_none holds]
    have state : prepared.memory.state.accessor? = none := by
      cases ran
      rfl
    refine ⟨fun memory => memory.state.accessor? = none, state, fun {frame} admits world holds => ?_,
      fun {frame base world left value} admits told holds same ran => ?_⟩
    · rw [after, evaluated holds]
      exact holds
    · rw [evaluated holds] at ran
      cases ran
      exact same.isOf .save name

/-! Operators. -/

/-- A part that has been prepared on its branch is typed there. -/
theorem typed_of_prepared {parts : List (Branch × Meaning)} {start prepared : World}
    (apart : (parts.map (·.1)).Nodup) (ran : forEach (branched parts) (·.prepare setting) start = .ok () prepared)
    {part : Branch × Meaning} (member : part ∈ parts) (becomes : part.2.BecomesTyped setting) :
    ∃ valid, valid (prepared.memory.child part.1) ∧ part.2.Typed setting valid := by
  have prepares : Prepares (· = setting) parts _ := prepares_forEach rfl apart
  obtain ⟨_, begun, left, rfl, own, found⟩ := (prepares start prepared ran).2.2 part member
  rw [found]
  exact becomes own

theorem Typed.returns_down {operand : Meaning} {branch : Branch} {valid : Memory → Prop} {frame : Frame}
    {base world left : World} {value : Value} (typed : operand.Typed setting valid) (admits : setting.Admits frame)
    (told : valid (base.memory.child branch)) (holds : valid (world.memory.child branch))
    (same : base.heap.SameTypes setting.scope world.heap frame.scope)
    (ran : (operand.down branch).evaluate setting.environment frame world = .ok value left) :
    value.IsOf ((operand.down branch).expectedType setting base) := by
  obtain ⟨left, own, rfl⟩ := on_ok ran
  have told : valid (base.down branch).memory := told
  have holds : valid (world.down branch).memory := holds
  exact typed.returns admits told holds same own

variable {left right operand : Meaning}

theorem negate_typed (part : operand.BecomesTyped setting) :
    (negate (operand.down .subject)).BecomesTyped setting := by
  intro start prepared ran
  have ran : forEach (branched [(.subject, operand)]) (·.prepare setting) start = .ok () prepared := ran
  obtain ⟨valid, holds, typed⟩ := typed_of_prepared (by simp) ran (List.mem_singleton_self _) part
  refine ⟨fun memory => valid (memory.child .subject), holds, fun {frame} admits => ?_,
    fun {frame base world left value} admits told holds same ran => ?_⟩
  · refine EvalM.Keeps.bind ?_ fun value => (keeps_ofExcept value.negate).inside _
    refine (typed.stays admits).on_stays (fun _ holds => holds) fun memory part _ holds => ?_
    rwa [Memory.child_setChild, if_pos rfl]
  · obtain ⟨value', middle, evaluated, ran⟩ := ok_of_bind ran
    exact Value.negate_isOf (typed.returns_down admits told holds same evaluated) (EvalM.ok_of_inside_ofExcept ran)

/-- The right side is evaluated with the variables that the left side leaves, which keep their types. -/
theorem arithmetic_typed (op : ArithmeticOp) (first : left.BecomesTyped setting) (second : right.BecomesTyped setting)
    (retains : left.KeepsIn World.Retains setting.environment) :
    (arithmetic op (left.down .left) (right.down .right)).BecomesTyped setting := by
  intro start prepared ran
  have ran : forEach (branched [(.left, left), (.right, right)]) (·.prepare setting) start = .ok () prepared := ran
  obtain ⟨valid, holds, typed⟩ := typed_of_prepared (by simp) ran (List.mem_cons_self ..) first
  obtain ⟨valid', holds', typed'⟩ :=
    typed_of_prepared (by simp) ran (List.mem_cons_of_mem _ (List.mem_singleton_self _)) second
  let both (memory : Memory) : Prop := valid (memory.child .left) ∧ valid' (memory.child .right)
  have stays {frame : Frame} (admits : setting.Admits frame) :
      EvalM.Keeps (World.Stays both) ((left.down .left).evaluate setting.environment frame) := by
    refine (typed.stays admits).on_stays (fun _ holds => holds.1) fun memory part whole holds => ⟨?_, ?_⟩
    · rwa [Memory.child_setChild, if_pos rfl]
    · rw [Memory.child_setChild, if_neg (by decide)]
      exact whole.2
  have stays' {frame : Frame} (admits : setting.Admits frame) :
      EvalM.Keeps (World.Stays both) ((right.down .right).evaluate setting.environment frame) := by
    refine (typed'.stays admits).on_stays (fun _ holds => holds.2) fun memory part whole holds => ⟨?_, ?_⟩
    · rw [Memory.child_setChild, if_neg (by decide)]
      exact whole.1
    · rwa [Memory.child_setChild, if_pos rfl]
  refine ⟨both, ⟨holds, holds'⟩, fun {frame} admits => ?_,
    fun {frame base world left value} admits told holds same ran => ?_⟩
  · exact (stays admits).bind fun _ => (stays' admits).bind fun _ => (keeps_ofExcept _).inside _
  · obtain ⟨l, middle, evaluated, ran⟩ := ok_of_bind ran
    obtain ⟨r, last, evaluated', ran⟩ := ok_of_bind ran
    have kept : world.heap.Retains middle.heap :=
      after_of_ok evaluated ▸ (fun frame => (retains frame).on AllowsEvaluation.part) frame world
    have later : both middle.memory := after_of_ok evaluated ▸ stays admits world holds
    exact Value.applyOp_isOf (typed.returns_down admits told.1 holds.1 same evaluated)
      (typed'.returns_down admits told.2 later.2 (same.retains kept) evaluated') (EvalM.ok_of_inside_ofExcept ran)

/-! Calls and constructors. -/

variable {arguments : List Meaning} (only : setting.environment.functions.IsStandard)

/-- What a call keeps is of the type that its function declares. -/
def KeepsTyped (resolution : Resolution) (memory : Memory) : Prop :=
  memory.state = .call resolution none ∨
    ∃ kept : Value, kept.IsOf resolution.definition.returns ∧ memory.state = .call resolution (some kept)

section Resolved

variable {name : String} {types : List DataType} {resolution : Resolution}
  (resolved : setting.environment.functions.resolve name types = some resolution)
include only resolved

theorem callAnew_returns (unnamed : Aggregate.takesName name types.length = false) (frame : Frame) :
    Returns (·.IsOf resolution.definition.returns)
      (callAnew name resolution arguments setting.environment frame) := by
  obtain ⟨handler, placed, listed, arity, same⟩ := FunctionRegistry.resolve_found resolved
  have member := only.mem (List.mem_of_getElem? placed)
  rw [← Aggregate.takesName_congr same, ← arity] at unnamed
  refine ((returns_true _).bind fun passed _ => ?_).inside _
  rw [FunctionRegistry.call?, placed]
  exact standard_returns member listed unnamed resolution.definition listed passed frame

omit resolved in
/-- Calling a standard function leaves the node of the call alone. -/
theorem callAnew_keeps_node (keeps : ∀ argument ∈ arguments, argument.KeepsIn World.SameNode setting.environment)
    (name : String) (resolution : Resolution) (frame : Frame) :
    EvalM.Keeps World.SameNode (callAnew name resolution arguments setting.environment frame) := by
  refine EvalM.Keeps.inside (invoke_conducts (.keeps World.SameNode) keeps _ (fun handler placed => ?_) frame) _
  have around : setting.environment.Keeps World.SameNode := Environment.keeps_of_standard only
  exact (handler.keeps_iff World.SameNode).mp (around handler (List.mem_of_getElem? placed)) _

end Resolved

theorem KeepsTyped.resolution? {resolution : Resolution} {memory : Memory} (holds : KeepsTyped resolution memory) :
    memory.state.resolution? = some resolution := by
  rcases holds with empty | ⟨kept, -, full⟩
  · rw [empty]
    rfl
  · rw [full]
    rfl

/-- A resolved call returns what its function declares, whether it is run or answered with what is kept. -/
theorem KeepsTyped.ends {name : String} {resolution : Resolution} {environment : Environment} {frame : Frame}
    {world : World} (holds : KeepsTyped resolution world.memory)
    (returns : Returns (·.IsOf resolution.definition.returns) (callAnew name resolution arguments environment frame))
    (keeps : EvalM.Keeps World.SameNode (callAnew name resolution arguments environment frame)) :
    Ends ((call name arguments).evaluate environment frame) world
      (fun value left => value.IsOf resolution.definition.returns ∧ KeepsTyped resolution left.memory)
      (fun left => KeepsTyped resolution left.memory) := by
  unfold Ends
  rcases holds with empty | ⟨kept, typed, full⟩
  · have state := (keeps world).trans empty
    rw [call_evaluate_anew name empty]
    cases ran : callAnew name resolution arguments environment frame world with
    | error error left =>
      rw [after_of_error ran] at state
      rw [bind_of_error ran]
      exact .inl state
    | ok value left =>
      rw [after_of_ok ran] at state
      rw [bind_of_ok ran, get_bind]
      have typed := returns world value left ran
      by_cases fixed : callIsFixed arguments left.memory = true
      · rw [if_pos fixed]
        exact ⟨typed, .inr ⟨value, typed, rfl⟩⟩
      · rw [if_neg fixed]
        exact ⟨typed, .inl state⟩
  · rw [call_evaluate_kept name full]
    exact ⟨typed, .inr ⟨kept, typed, full⟩⟩

include only in
theorem call_typed {name : String} (unnamed : Aggregate.takesName name arguments.length = false)
    (keeps : ∀ argument ∈ arguments, argument.KeepsIn World.SameNode setting.environment) :
    (call name arguments).BecomesTyped setting := by
  intro start prepared ran
  obtain ⟨_, resolution, -, resolved, state⟩ := call_prepare ran
  have ends (frame : Frame) {world : World} (holds : KeepsTyped resolution world.memory) :=
    holds.ends (callAnew_returns only resolved (by simpa using unnamed) frame)
      (callAnew_keeps_node only keeps name resolution frame)
  refine ⟨KeepsTyped resolution, state ▸ .inl rfl, fun {frame} _ world holds => ?_,
    fun {frame base world left value} _ told holds _ ran => ?_⟩
  · exact ((ends frame holds).mono (fun _ _ returned => returned.2) fun _ failed => failed).after
  · have returned := ends frame holds
    rw [Ends, ran] at returned
    change value.IsOf (((base.memory.state.resolution?).map (·.definition.returns)).getD .any)
    rw [told.resolution?]
    exact returned.1

theorem assignSetters_returns {environment : Environment} (frame : Frame) (record : Record)
    (setters : List (Meaning × String)) :
    Returns (fun assigned => assigned.typeName = record.typeName) (assignSetters environment frame record setters) := by
  induction setters generalizing record with
  | nil => exact returns_pure rfl
  | cons setter rest ih =>
    refine (returns_true _).bind fun value _ => ?_
    refine Returns.bind ((returns_ofExcept fun assigned success => success).inside _) fun assigned success => ?_
    rw [← RecordOf.typeName_assign success]
    exact ih assigned

theorem construct_typed (named : setting.environment.types.Named) {typeName : String}
    {setters : List (Meaning × String)}
    (keeps : ∀ argument ∈ arguments, argument.KeepsIn World.SameNode setting.environment)
    (sets : ∀ setter ∈ setters, setter.1.KeepsIn World.SameNode setting.environment) :
    (construct typeName arguments setters).BecomesTyped setting := by
  intro start prepared ran
  obtain ⟨_, factory, constructor, -, known, state⟩ := construct_prepare ran
  refine ⟨fun memory => memory.state = .construction factory constructor, by rw [state]; rfl,
    fun {frame} _ world holds => ?_, fun {frame base world left value} _ _ holds _ ran => ?_⟩
  · exact (construct_keepsIn typeName keeps sets frame world).trans holds
  · change (node >>= fun state => _) world = _ at ran
    rw [node_bind, holds] at ran
    refine (?_ : Returns (fun value : Value => value.IsOf (.record typeName)) _) world value left ran
    refine Returns.inside ?_ _
    refine (returns_true _).bind fun values _ => ?_
    refine (returns_ofExcept fun record success => success).bind fun record success => ?_
    refine (assignSetters_returns frame record setters).bind fun assigned kept => returns_pure (.inr (.inr ?_))
    change DataType.record assigned.typeName = .record typeName
    rw [kept, RecordFactory.typeName_construct success, named.factories.found known]

end Meaning

/-- Whether the type that is expected of the expression rests on no aggregate that is given a name. -/
def Expr.isUnnamed : Expr → Bool
  | .arithmetic _ left right => left.isUnnamed && right.isUnnamed
  | .negate operand => operand.isUnnamed
  | .call name arguments => !Aggregate.takesName name arguments.length
  | _ => true
termination_by structural expression => expression

/-- Every expression is typed once it is prepared: its type is told by those of its parts where its values are made from
theirs, and does not rest on them elsewhere. -/
theorem Expr.meaning_typed {setting : Setting} (named : setting.environment.types.Named)
    (only : setting.environment.functions.IsStandard) : ∀ (expression : Expr), expression.handlers = [] →
      expression.isUnnamed = true → expression.meaning.BecomesTyped setting
  | .constant value, _, _ => Meaning.constant_typed value
  | .member path, _, _ => Meaning.member_typed named path
  | .bind name path, _, _ => Meaning.bind_typed named _ path
  | .save name path, _, _ => Meaning.save_typed _ path
  | .arithmetic op left right, brought, unnamed => by
    obtain ⟨first, second⟩ := List.append_eq_nil_iff.mp brought
    obtain ⟨unnamed, unnamed'⟩ := Bool.and_eq_true_iff.mp unnamed
    exact Meaning.arithmetic_typed op (left.meaning_typed named only first unnamed)
      (right.meaning_typed named only second unnamed')
      ((left.meaning_keeps (by simp [first])).within (Environment.keeps_of_standard only))
  | .negate operand, brought, unnamed => Meaning.negate_typed (operand.meaning_typed named only brought unnamed)
  | .compare .., _, _ | .not _, _, _ | .logical .., _, _ | .isNull .., _, _ | .between .., _, _ | .like .., _, _
  | .among .., _, _ => Meaning.boolean_typed (fun _ => rfl) fun _ => rfl
  | .call name arguments, _, unnamed => by
    have fresh : Aggregate.takesName name arguments.length = false := by simpa [isUnnamed] using unnamed
    refine Meaning.call_typed only ?_ (Meaning.each_keepsIn_node _ _ _)
    rwa [Meaning.each, List.length_mapIdx, meanings_eq_map, List.length_map]
  | .construct typeName arguments setters, _, _ => by
    refine Meaning.construct_typed named (Meaning.each_keepsIn_node _ _ _) fun setter member => ?_
    obtain ⟨index, inside, rfl⟩ := List.mem_mapIdx.mp member
    exact Meaning.down_keepsIn_node _ _ _
  | .subquery statement, _, _ => Meaning.subquery_typed _
termination_by structural expression => expression

/-- The value of an expression is null or of the type that was expected of it, at any time since it was prepared, if the
row conforms to its type and the variables that had a type then have it still. -/
theorem evaluate_expectedType {expression : Expr} {setting : Setting} {start prepared asked world left : World}
    {frame : Frame} {value : Value} (named : setting.environment.types.Named)
    (only : setting.environment.functions.IsStandard) (brought : expression.handlers = [])
    (unnamed : expression.isUnnamed = true) (ready : expression.meaning.prepare setting start = .ok () prepared)
    (told : expression.meaning.Since setting.environment setting.Admits prepared.memory asked.memory)
    (since : expression.meaning.Since setting.environment setting.Admits prepared.memory world.memory)
    (admits : setting.Admits frame) (same : asked.heap.SameTypes setting.scope world.heap frame.scope)
    (known : expression.meaning.expectedType setting asked ≠ .any)
    (ran : expression.meaning.evaluate setting.environment frame world = .ok value left) :
    value = .null ∨ value.dataType = expression.meaning.expectedType setting asked := by
  obtain ⟨valid, holds, typed⟩ := expression.meaning_typed named only brought unnamed ready
  have stays : ∀ frame, setting.Admits frame → EvalM.Keeps (World.Stays valid)
      (expression.meaning.evaluate setting.environment frame) := fun _ admits => typed.stays admits
  have value := typed.returns admits (told.keeps stays holds) (since.keeps stays holds) same ran
  exact value.resolve_left known

/-- A member of a row and a variable are added up, time and again. -/
theorem evaluate_expectedType_on_point :
    let point : RecordType := ⟨"Point", [⟨"x", .field, .int32⟩]⟩
    let expression : Expr := .arithmetic .add (.member (.ofSegments [.name "x"])) (.call "abs" [.bind (some "n") none])
    let setting : Setting := ⟨.record "Point", ⟨TypeRegistry.empty.register point, .default⟩, ⟨0, none⟩⟩
    let row : Record := ⟨"Point", [(⟨"x", .field, .int32⟩, .int32 3)], none⟩
    let frame : Frame := ⟨some (.object row), [], none, none, ⟨0, none⟩, ""⟩
    let start : World := { World.start with heap := Heap.empty.newScope.2.set ⟨0, none⟩ .bind "n" (.int32 4) }
    let prepared := (expression.meaning.prepare setting).after start
    let world := (expression.meaning.evaluate setting.environment frame).after prepared
    setting.environment.types.Named ∧ setting.environment.functions.IsStandard ∧ expression.handlers = [] ∧
      expression.isUnnamed = true ∧ expression.meaning.prepare setting start = .ok () prepared ∧
      expression.meaning.Since setting.environment setting.Admits prepared.memory prepared.memory ∧
      expression.meaning.Since setting.environment setting.Admits prepared.memory world.memory ∧
      setting.Admits frame ∧ prepared.heap.SameTypes setting.scope world.heap frame.scope ∧
      expression.meaning.expectedType setting prepared ≠ .any ∧
      ∃ value left, expression.meaning.evaluate setting.environment frame world = .ok value left ∧
        (value = .null ∨ value.dataType = expression.meaning.expectedType setting prepared) := by
  intro point expression setting row frame start prepared world
  have named : setting.environment.types.Named := TypeRegistry.named_empty.register point
  have only : setting.environment.functions.IsStandard := ⟨rfl, rfl⟩
  have brought : expression.handlers = [] := rfl
  have unnamed : expression.isUnnamed = true := by decide +kernel
  obtain ⟨_, ready⟩ := EvalM.exists_ok (expression.meaning.prepare setting) start (by decide +kernel)
  have admits : setting.Admits frame := by
    rintro _ ⟨⟩
    refine @Value.Conforms.record _ row fun type found member listed held value => ?_
    obtain rfl : point = type := Option.some.inj found
    obtain rfl := List.mem_singleton.mp listed
    obtain rfl : .int32 3 = held := Option.some.inj value
    exact .plain rfl rfl
  have since : expression.meaning.Since setting.environment setting.Admits prepared.memory world.memory :=
    .evaluated .same admits
  have same : prepared.heap.SameTypes setting.scope world.heap frame.scope := by
    have around : setting.environment.Keeps World.Retains := Environment.keeps_of_standard only
    have refl : prepared.heap.SameTypes setting.scope prepared.heap frame.scope := fun _ _ _ => rfl
    exact refl.retains ((expression.meaning_keeps (by simp [brought])).evaluate around frame prepared)
  have known : expression.meaning.expectedType setting prepared ≠ .any := by decide +kernel
  obtain ⟨value, ran⟩ :=
    EvalM.exists_ok (expression.meaning.evaluate setting.environment frame) world (by decide +kernel)
  exact ⟨named, only, brought, unnamed, ready, .same, since, admits, same, known, value, _, ran,
    evaluate_expectedType named only brought unnamed ready .same since admits same known ran⟩

end RecordQuery
