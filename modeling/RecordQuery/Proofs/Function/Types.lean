import RecordQuery.Proofs.Function.Conduct
import RecordQuery.Proofs.Record.Types
/-! The types of what the standard functions return: null or a value of the type that the function declares. An
aggregate that is given a name is left out, since it answers with whatever is kept under the name. -/

namespace RecordQuery

open EvalM

/-- The function at a place returns values of the type that it declares. -/
def Handler.ReturnsDeclared (handler : Handler) (index : Nat) : Prop :=
  ∀ definition, handler.functions[index]? = some definition → ∀ arguments frame,
    Returns (·.IsOf definition.returns) (handler.call index arguments frame)

theorem Value.isOf_null (type : DataType) : Value.null.IsOf type := .inr (.inl rfl)

theorem TextFunction.apply_isOf {function : TextFunction} {text : String} {second third value : Value}
    (success : function.apply text second third = .ok value) : value.IsOf function.definition.returns := by
  refine .inr (.inr ?_)
  cases function with
  | substrFrom =>
    obtain ⟨start, -, same⟩ := Except.bind_eq_ok success
    cases same
    rfl
  | substr =>
    obtain ⟨start, -, success⟩ := Except.bind_eq_ok success
    obtain ⟨count, -, same⟩ := Except.bind_eq_ok success
    cases same
    rfl
  | _ =>
    cases success
    rfl

theorem TextFunction.handler_returns (index : Nat) : TextFunction.handler.ReturnsDeclared index := by
  intro definition listed arguments frame
  obtain ⟨function, found, rfl⟩ : ∃ function, all[index]? = some function ∧ function.definition = definition := by
    simpa [handler] using listed
  change Returns _ (TextFunction.call index arguments frame)
  unfold TextFunction.call
  dsimp only
  split
  · exact returns_pure (Value.isOf_null _)
  · rw [found]
    exact returns_ofExcept fun value success => apply_isOf success

theorem NumericFunction.handler_returns (index : Nat) : NumericFunction.handler.ReturnsDeclared index := by
  intro definition listed arguments frame
  obtain ⟨function, found, rfl⟩ : ∃ function, all[index]? = some function ∧ function.definition = definition := by
    simpa [handler] using listed
  have declared : function.definition.returns = .float64 := by
    cases function <;> rfl
  refine (returns_true _).bind fun operands _ => ?_
  split
  · exact returns_pure (Value.isOf_null _)
  · rw [found, declared]
    exact returns_pure (.inr (.inr rfl))

theorem ConversionFunction.numberOf_isOf (value : Value) : (numberOf value).IsOf .float64 := by
  unfold numberOf
  split
  · cases Double.read? _ with
    | none => exact Value.isOf_null _
    | some x => exact .inr (.inr rfl)
  · exact .inr (.inr rfl)
  · cases value.toDouble? with
    | none => exact Value.isOf_null _
    | some x => exact .inr (.inr rfl)

theorem ConversionFunction.handler_returns (index : Nat) : ConversionFunction.handler.ReturnsDeclared index := by
  intro definition listed arguments frame
  obtain ⟨function, found, rfl⟩ : ∃ function, all[index]? = some function ∧ function.definition = definition := by
    simpa [handler] using listed
  have unknown {action : EvalM Value} : Returns (·.IsOf .any) action := fun _ _ _ _ => .inl rfl
  change Returns _ (ConversionFunction.call index arguments frame)
  unfold ConversionFunction.call
  dsimp only
  rw [found]
  cases function with
  | toText =>
    dsimp only
    split
    · exact returns_pure (Value.isOf_null _)
    · exact returns_pure (.inr (.inr rfl))
  | toNumber => exact returns_pure (numberOf_isOf _)
  | ifNull => exact unknown
  | accessor => exact unknown
  | size =>
    refine returns_pure ?_
    cases (Argument.valueAt arguments 0).length? with
    | none => exact Value.isOf_null _
    | some n => exact .inr (.inr rfl)
  | typeOf => exact returns_pure (.inr (.inr rfl))
  | lookUp => exact unknown

namespace Aggregate

theorem apply_isOf {aggregate : Aggregate} {separator : String} {values : List Value} {value : Value}
    (success : aggregate.apply separator values = .ok value) : value.IsOf aggregate.returns := by
  have mapped {f : List Double → Value} (typed : ∀ xs, (f xs).IsOf .float64)
      (success : (aggregate.numbers values).map f = .ok value) : value.IsOf .float64 := by
    cases numbers : aggregate.numbers values with
    | error error =>
      rw [numbers] at success
      cases success
    | ok xs =>
      rw [numbers] at success
      cases success
      exact typed xs
  have unlessEmpty (f : List Double → Double) (xs : List Double) :
      (if xs.isEmpty then Value.null else .float64 (f xs)).IsOf .float64 := by
    split
    · exact Value.isOf_null _
    · exact .inr (.inr rfl)
  cases aggregate with
  | count =>
    cases success
    exact .inr (.inr rfl)
  | sum => exact mapped (fun _ => .inr (.inr rfl)) success
  | avg => exact mapped (unlessEmpty mean) success
  | stddev => exact mapped (unlessEmpty deviation) success
  | min | max => exact .inl rfl
  | concat =>
    cases success
    exact .inr (.inr rfl)

/-- Without an expression the rows are counted. -/
theorem returns_of_rows : ∀ variant ∈ variants, variant.operand = false → variant.aggregate.returns = .int64 := by
  decide

theorem handler_returns {index : Nat} {definition : FunctionDef} (listed : handler.functions[index]? = some definition)
    (unnamed : takesName definition.name definition.params.length = false) : handler.ReturnsDeclared index := by
  intro definition' listed' arguments frame
  cases listed.symm.trans listed'
  obtain ⟨variant, found, rfl⟩ := variant_of_listed listed
  have member := List.mem_of_getElem? found
  have fresh := saves_of_unnamed member unnamed
  change Returns _ (call index arguments frame)
  simp only [call, found, fresh, Bool.false_eq_true, if_false]
  unfold Variant.compute
  split
  · refine (returns_true _).bind fun evaluate _ => (returns_true _).bind fun values _ => ?_
    exact returns_ofExcept fun value success => apply_isOf success
  · next alone =>
    rw [returns_of_rows variant member (by simpa using alone)]
    exact returns_pure (.inr (.inr rfl))

end Aggregate

/-- The standard functions return values of the types that they declare, but for aggregates that are given a name. -/
theorem standard_returns {handler : Handler} (member : handler ∈ FunctionRegistry.default.standard) {index : Nat}
    {definition : FunctionDef} (listed : handler.functions[index]? = some definition)
    (unnamed : Aggregate.takesName definition.name definition.params.length = false) :
    handler.ReturnsDeclared index := by
  simp only [FunctionRegistry.default, List.mem_cons, List.not_mem_nil, or_false] at member
  rcases member with rfl | rfl | rfl | rfl
  · exact Aggregate.handler_returns listed unnamed
  · exact TextFunction.handler_returns index
  · exact NumericFunction.handler_returns index
  · exact ConversionFunction.handler_returns index

/-- Only the standard functions are around. -/
structure FunctionRegistry.IsStandard (registry : FunctionRegistry) : Prop where
  own : registry.own = []
  standard : registry.standard = default.standard

theorem FunctionRegistry.IsStandard.mem {registry : FunctionRegistry} (only : registry.IsStandard) {handler : Handler}
    (member : handler ∈ registry.handlers) : handler ∈ default.standard := by
  rwa [handlers, only.own, only.standard, List.nil_append] at member

end RecordQuery
