import RecordQuery.Proofs.Function.Choice
import RecordQuery.Proofs.Function.Types
import RecordQuery.Proofs.Meaning.Preparation
/-! Calls of aggregates of one expression. Such a call evaluates the expression on every row of the frame, and has the
value of the aggregate at what comes of it but null. -/

namespace RecordQuery

open EvalM

/-- A call has been resolved to a standard aggregate of one expression. -/
structure Resolution.IsAggregate (resolution : Resolution) (registry : FunctionRegistry) (aggregate : Aggregate) :
    Prop where
  placed : registry.handlers[resolution.place]? = some Aggregate.handler
  variant : Aggregate.variants[resolution.index]? = some ⟨aggregate, true, false⟩
  listed : Aggregate.handler.functions[resolution.index]? = some resolution.definition

theorem Resolution.IsAggregate.definition_eq {resolution : Resolution} {registry : FunctionRegistry}
    {aggregate : Aggregate} (means : resolution.IsAggregate registry aggregate) (single : aggregate ≠ .concat) :
    resolution.definition = ⟨aggregate.name, [.expression], aggregate.returns, true⟩ := by
  have listed := means.listed
  simp only [Aggregate.handler, List.getElem?_map, means.variant, Option.map_some, Option.some.injEq] at listed
  rw [← listed]
  cases aggregate with
  | concat => contradiction
  | count | sum | avg | min | max | stddev => rfl

/-- Of one argument an aggregate is called by its name, but for the one that takes a separator too. -/
theorem candidates_of_aggregate : ∀ aggregate : Aggregate, aggregate ≠ .concat →
    (FunctionRegistry.default.candidates aggregate.name 1).all fun (candidate, _) =>
      candidate.1 == 0 && (Aggregate.variants[candidate.2.2.1]?).any fun variant =>
        variant.aggregate == aggregate && variant.operand && !variant.saves := by
  intro aggregate single
  cases aggregate with
  | concat => contradiction
  | count | sum | avg | min | max | stddev => decide +kernel

namespace FunctionRegistry

/-- Among the standard functions, what a call by the name with one argument is resolved to is the aggregate. -/
theorem isAggregate_of_resolve {aggregate : Aggregate} (single : aggregate ≠ .concat) {name : String}
    (named : sameName aggregate.name name = true) {type : DataType} {resolution : Resolution}
    (resolved : default.resolve name [type] = some resolution) : resolution.IsAggregate default aggregate := by
  obtain ⟨handler, placed, listed, arity, same⟩ := resolve_found resolved
  have named' : sameName resolution.definition.name aggregate.name = true :=
    (sameName_congr same _).trans (sameName_symm named)
  have member : ((resolution.place, handler, resolution.index, resolution.definition), resolution.definition.params) ∈
      default.candidates aggregate.name 1 :=
    mem_candidates.mpr ⟨operation?_eq_some_iff.mpr ⟨placed, listed⟩, named', arity, rfl⟩
  have checked := List.all_eq_true.mp (candidates_of_aggregate aggregate single) _ member
  simp only [Bool.and_eq_true, beq_iff_eq, Option.any_eq_true, Bool.not_eq_true'] at checked
  obtain ⟨first, ⟨found, operand, saves⟩, variant, ⟨rfl, rfl⟩, rfl⟩ := checked
  rw [first] at placed
  cases placed
  exact ⟨by rw [first]; rfl, variant, listed⟩

theorem exists_listed {aggregate : Aggregate} (single : aggregate ≠ .concat) : ∃ index : Nat,
    Aggregate.handler.functions[index]? = some ⟨aggregate.name, [.expression], aggregate.returns, true⟩ := by
  cases aggregate with
  | concat => contradiction
  | count => exact ⟨1, rfl⟩
  | sum => exact ⟨3, rfl⟩
  | avg => exact ⟨5, rfl⟩
  | min => exact ⟨7, rfl⟩
  | max => exact ⟨9, rfl⟩
  | stddev => exact ⟨11, rfl⟩

/-- With no other functions around, a call by the name with one argument is resolved to the aggregate, whatever the
argument. -/
theorem IsStandard.exists_aggregate {registry : FunctionRegistry} (standard : registry.IsStandard)
    {aggregate : Aggregate} (single : aggregate ≠ .concat) {name : String} (named : sameName aggregate.name name = true)
    (type : DataType) :
    ∃ resolution, registry.resolve name [type] = some resolution ∧ resolution.IsAggregate registry aggregate := by
  obtain rfl : registry = default := by
    cases registry
    cases standard.own
    cases standard.standard
    rfl
  -- The aggregate itself fits any argument, so that something is found.
  have fits : score [.expression] [type] ≠ none := by
    cases any : type.isAny <;> simp [score, ParamType.fit, any]
  obtain ⟨fit, scored⟩ := Option.ne_none_iff_exists'.mp fits
  obtain ⟨index, own⟩ := exists_listed single
  have found : default.scoreAt name [type] (toLex (0, index)) = some fit :=
    scoreAt_eq_some_iff.mpr ⟨_, _, operation?_eq_some_iff.mpr ⟨rfl, own⟩, named, rfl, scored⟩
  obtain ⟨resolution, resolved⟩ := Option.ne_none_iff_exists'.mp fun none =>
    nomatch found.symm.trans (resolve_eq_none_iff.mp none (toLex (0, index)))
  exact ⟨resolution, resolved, isAggregate_of_resolve single named resolved⟩

end FunctionRegistry

/-- The node at hand is a call that has been resolved to an aggregate, and its argument, down its branch, is in one of
the worlds that it is evaluated in. -/
structure World.Aggregates (settled : World → Prop) (environment : Environment) (aggregate : Aggregate)
    (world : World) : Prop where
  called : ∃ resolution, world.memory.state = .call resolution none ∧
    resolution.IsAggregate environment.functions aggregate
  argument : settled (world.down (.argument 0))

namespace Aggregate

/-- Evaluating an expression on each row gives its values but null, if it has one on each. -/
theorem operandValues_ok {settled : World → Prop} {evaluate : Frame → EvalM Value} {frame : Frame}
    {valueOf : Value → Value} {rows : List Value}
    (gives : ∀ row ∈ rows, ∀ world, settled world →
      ∃ left, settled left ∧ evaluate (frame.onRow row) world = .ok (valueOf row) left)
    {world : World} (start : settled world) :
    ∃ left, settled left ∧
      operandValues evaluate frame rows world = .ok ((rows.map valueOf).filter fun value => !value.isNull) left := by
  induction rows generalizing world with
  | nil => exact ⟨world, start, rfl⟩
  | cons row rest ih =>
    obtain ⟨middle, between, ran⟩ := gives row List.mem_cons_self world start
    obtain ⟨left, stop, ran'⟩ := ih (fun other member => gives other (List.mem_cons_of_mem _ member)) between
    refine ⟨left, stop, (bind_of_ok ran).trans ((bind_of_ok ran').trans ?_)⟩
    rw [List.map_cons, List.filter_cons]
    cases (valueOf row).isNull <;> rfl

end Aggregate

namespace Meaning

/-- A part has the value that it has down its branch, and leaves the world there as that evaluation does. -/
theorem down_gives {settled : World → Prop} {operand : Meaning} {environment : Environment} {frame : Frame}
    {value : Value} {branch : Branch} {state : NodeState}
    (gives : ∀ world, settled world → ∃ left, settled left ∧ operand.evaluate environment frame world = .ok value left)
    (world : World) (start : world.memory.state = state ∧ settled (world.down branch)) :
    ∃ left, (left.memory.state = state ∧ settled (left.down branch)) ∧
      (operand.down branch).evaluate environment frame world = .ok value left := by
  obtain ⟨left, stop, ran⟩ := gives _ start.2
  refine ⟨{ left with memory := world.memory.setChild branch left.memory }, ⟨start.1, ?_⟩, on_of_ok ran⟩
  simpa [World.down, Memory.child_setChild] using stop

variable {settled : World → Prop} {environment : Environment} {aggregate : Aggregate} {operand : Meaning}
  {frame : Frame} {valueOf : Value → Value}

/-- Running the aggregate that a call has been resolved to evaluates the expression on the rows of the frame. -/
theorem invoke_aggregate {resolution : Resolution} (means : resolution.IsAggregate environment.functions aggregate)
    (single : aggregate ≠ .concat) {values : List Value} {value : Value} {world left : World}
    (ran : Aggregate.operandValues ((operand.down (.argument 0)).evaluate environment) frame frame.rows world =
      .ok values left)
    (applied : aggregate.apply Value.null.text values = .ok value) (unresolved : Error) :
    invoke resolution (each [operand] .argument) unresolved environment frame world = .ok value left := by
  have passed : passArguments environment frame resolution.definition.params (each [operand] .argument) =
      pure [.expression operand.text ((operand.down (.argument 0)).evaluate environment)] := by
    rw [means.definition_eq single]
    rfl
  rw [invoke, passed, pure_bind, FunctionRegistry.call?, means.placed]
  change Aggregate.call resolution.index _ frame world = _
  rw [Aggregate.call, means.variant]
  change (Aggregate.operandValues _ frame frame.rows >>= _) world = _
  refine (bind_of_ok ran).trans ?_
  rw [show Argument.valueAt _ 1 = .null from rfl, applied]
  rfl

/-- A call of an aggregate of one expression has the value of the aggregate at the values of the expression. -/
theorem call_aggregates (single : aggregate ≠ .concat)
    (gives : ∀ row ∈ frame.rows, ∀ world, settled world →
      ∃ left, settled left ∧ operand.evaluate environment (frame.onRow row) world = .ok (valueOf row) left)
    (name : String) {value : Value}
    (applied : aggregate.apply Value.null.text ((frame.rows.map valueOf).filter fun value => !value.isNull) = .ok value)
    {world : World} (start : world.Aggregates settled environment aggregate) :
    ∃ left, left.Aggregates settled environment aggregate ∧
      (call name (each [operand] .argument)).evaluate environment frame world = .ok value left := by
  obtain ⟨⟨resolution, resolved, means⟩, argument⟩ := start
  obtain ⟨left, ⟨kept, stop⟩, ran⟩ := Aggregate.operandValues_ok
    (fun row member => down_gives (gives row member)) ⟨resolved, argument⟩
  have varies : callIsFixed (each [operand] .argument) left.memory = false := by
    simp [callIsFixed, kept, NodeState.resolution?, means.definition_eq single]
  refine ⟨left, ⟨⟨resolution, kept, means⟩, stop⟩, ?_⟩
  unfold call
  refine (node_bind _ world).trans ?_
  rw [resolved]
  refine (bind_of_ok (inside_of_ok _ (invoke_aggregate means single ran applied _))).trans ?_
  rw [get_bind, varies]
  rfl

/-- With no other functions around, preparing a call by the name of an aggregate makes it a call of that. -/
theorem call_prepares_aggregate (single : aggregate ≠ .concat) {name : String}
    (named : FunctionRegistry.sameName aggregate.name name = true) {setting : Setting}
    (standard : setting.environment.functions.IsStandard) {start left : World}
    (ran : operand.prepare setting (start.down (.argument 0)) = .ok () left) (stop : settled left) :
    ∃ prepared, (call name (each [operand] .argument)).prepare setting start = .ok () prepared ∧
      prepared.Aggregates settled setting.environment aggregate := by
  let next : World := { left with memory := start.memory.setChild (.argument 0) left.memory }
  have began : forEach (each [operand] .argument) (·.prepare setting) start = .ok () next :=
    bind_of_ok (on_of_ok ran : (operand.down (.argument 0)).prepare setting start = .ok () next)
  obtain ⟨resolution, resolved, means⟩ :=
    standard.exists_aggregate single named ((operand.down (.argument 0)).expectedType setting next)
  refine ⟨{ next with memory := next.memory.withState (.call resolution none) }, (bind_of_ok began).trans ?_,
    ⟨resolution, rfl, means⟩, ?_⟩
  · have types : (each [operand] .argument).map (·.expectedType setting next) =
        [(operand.down (.argument 0)).expectedType setting next] := rfl
    rw [get_bind, types, resolved]
    rfl
  · simpa [next, World.down, Memory.child_setChild] using stop

end Meaning

end RecordQuery
