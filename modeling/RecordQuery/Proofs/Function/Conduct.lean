import RecordQuery.Proofs.Evaluation.View
import RecordQuery.Proofs.Function.Resolution
import RecordQuery.Proofs.Meaning.Conduct
/-! What the standard functions do: those of texts and of numbers, and all conversions but access to a path, look at
their arguments only; aggregates look at the rows and at the save value that they are named for. -/

namespace RecordQuery

/-- A conduct that allows for looking at the set of rows. -/
def Conduct.SeesRows (conduct : Conduct) : Prop :=
  ∀ {α : Type} (run : List Value → Frame → EvalM α), (∀ rows, conduct.Of (run rows)) →
    conduct.Of fun frame => run frame.rows frame

theorem Conduct.keeps_seesRows (related : World → World → Prop) [IsPreorder World related] :
    (Conduct.keeps related).SeesRows :=
  fun _ parts frame => parts frame.rows frame

theorem View.agrees_seesRows (view : View) (valid : Memory → Prop) : (view.agrees valid).SeesRows :=
  fun _ parts frame => parts frame.rows frame

variable (conduct : Conduct)

theorem TextFunction.handler_conducts (index : Nat) : TextFunction.handler.Conducts conduct index := by
  intro arguments _
  change conduct.Of fun frame => TextFunction.call index arguments frame
  unfold TextFunction.call
  dsimp only
  split
  · exact conduct.pure _
  · split
    · exact conduct.throw _
    · exact conduct.ofExcept _

theorem NumericFunction.handler_conducts (index : Nat) : NumericFunction.handler.Conducts conduct index := by
  intro arguments _
  refine conduct.bind (conduct.ofExcept _) fun operands => ?_
  split
  · exact conduct.pure _
  · split
    · exact conduct.throw _
    · exact conduct.pure _

/-- Access to a path remembers its accessor; no other conversion touches the world. -/
theorem ConversionFunction.handler_conducts {index : Nat} (other : all[index]? ≠ some accessor) :
    ConversionFunction.handler.Conducts conduct index := by
  intro arguments _
  change conduct.Of fun frame => ConversionFunction.call index arguments frame
  unfold ConversionFunction.call
  dsimp only
  split
  · exact conduct.throw _
  · exact conduct.pure _
  · exact conduct.pure _
  · exact conduct.pure _
  · next found => exact absurd found other
  · exact conduct.pure _
  · exact conduct.pure _
  · exact conduct.ofExcept _

namespace Aggregate

/-- The function at a place is that of the way of calling an aggregate there. -/
theorem variant_of_listed {index : Nat} {definition : FunctionDef}
    (listed : handler.functions[index]? = some definition) :
    ∃ variant, variants[index]? = some variant ∧
      definition = ⟨variant.aggregate.name, variant.params, variant.aggregate.returns, true⟩ := by
  simp only [handler, List.getElem?_map, Option.map_eq_some_iff] at listed
  obtain ⟨variant, found, rfl⟩ := listed
  exact ⟨variant, found, rfl⟩

/-- Keeping the result under a name does not change how it is come by. -/
def AllowsSaving (conduct : Conduct) : Prop :=
  ∀ (name : String) {compute : Frame → EvalM Value}, conduct.Of compute →
    conduct.Of fun frame => keepAs name frame (compute frame)

variable {conduct}

theorem operandValues_conducts {evaluate : Frame → EvalM Value} (part : conduct.Of evaluate) (rows : List Value) :
    conduct.Of fun frame => operandValues evaluate frame rows := by
  induction rows with
  | nil => exact conduct.pure []
  | cons row rest ih =>
    exact conduct.bind (conduct.about (Frame.shifts_onRow row) part) fun _ =>
      conduct.bind ih fun _ => conduct.pure _

theorem compute_conducts (sees : conduct.SeesRows) (variant : Variant) {arguments : List Argument}
    (parts : ∀ argument ∈ arguments, Argument.Conducts conduct argument) :
    conduct.Of fun frame => variant.compute arguments frame := by
  unfold Variant.compute
  split
  · refine conduct.ofExcept_bind fun evaluate found => ?_
    have part : conduct.Of evaluate := by
      unfold Argument.expressionAt at found
      split at found
      · next present =>
        cases found
        exact parts _ (List.mem_of_getElem? present)
      · cases found
    exact conduct.bind (sees (fun rows frame => operandValues evaluate frame rows) (operandValues_conducts part))
      fun _ => conduct.ofExcept _
  · exact sees (fun rows _ => pure (Value.int64 (Int64.ofNat rows.length))) fun rows => conduct.pure _

theorem handler_conducts (sees : conduct.SeesRows) (saves : AllowsSaving conduct) (index : Nat) :
    handler.Conducts conduct index := by
  intro arguments parts
  change conduct.Of fun frame => call index arguments frame
  unfold call
  split
  · exact conduct.throw _
  · split
    · exact saves _ (compute_conducts sees _ parts)
    · exact compute_conducts sees _ parts

/-- Whether a call with so many arguments is one of an aggregate that is given a name. -/
def takesName (name : String) (arity : Nat) : Bool :=
  variants.any fun variant =>
    variant.saves && FunctionRegistry.sameName variant.aggregate.name name && variant.params.length == arity

theorem takesName_congr {name other : String} (same : FunctionRegistry.sameName name other = true) (arity : Nat) :
    takesName name arity = takesName other arity := by
  simp only [FunctionRegistry.sameName, beq_iff_eq] at same
  simp only [takesName, FunctionRegistry.sameName, same]

theorem saves_of_unnamed {variant : Variant} (member : variant ∈ variants)
    (unnamed : takesName variant.aggregate.name variant.params.length = false) : variant.saves = false := by
  cases saves : variant.saves with
  | false => rfl
  | true =>
    have named : takesName variant.aggregate.name variant.params.length = true :=
      List.any_eq_true.mpr ⟨variant, member, by simp [FunctionRegistry.sameName, saves]⟩
    cases named.symm.trans unnamed

/-- An aggregate that is given no name only looks at the rows. -/
theorem handler_conducts_of_unnamed (sees : conduct.SeesRows) {index : Nat} {definition : FunctionDef}
    (listed : handler.functions[index]? = some definition)
    (unnamed : takesName definition.name definition.params.length = false) : handler.Conducts conduct index := by
  intro arguments parts
  obtain ⟨variant, found, rfl⟩ := variant_of_listed listed
  have fresh := saves_of_unnamed (List.mem_of_getElem? found) unnamed
  change conduct.Of fun frame => call index arguments frame
  simp only [call, found, fresh, Bool.false_eq_true, if_false]
  exact compute_conducts sees variant parts

/-- From worlds that look alike either both answer with what is kept or both compute and keep it. -/
theorem agrees_allowsSaving (view : View) (valid : Memory → Prop) : AllowsSaving (view.agrees valid) := by
  intro name compute part frame inside world world' alike
  have seen := view.saveValue alike.1 inside name
  unfold keepAs
  simp only [EvalM.readHeap_bind, ← seen]
  cases world.heap.saveValue? frame.scope name with
  | some kept => exact ⟨rfl, alike⟩
  | none =>
    refine ((part frame inside).bind fun value => ?_) world world' alike
    rintro left left' ⟨alike, holds⟩
    exact ⟨rfl, view.saved alike inside name value, holds⟩

end Aggregate

/-- A conversion of another name is not access to a path. -/
theorem ConversionFunction.ne_accessor {index : Nat} {definition : FunctionDef}
    (listed : handler.functions[index]? = some definition)
    (other : FunctionRegistry.sameName definition.name "accessor" = false) : all[index]? ≠ some accessor := by
  intro found
  simp only [handler, List.getElem?_map, found, Option.map_some, Option.some.injEq] at listed
  subst listed
  simp [ConversionFunction.definition, FunctionRegistry.sameName] at other

section Standard

variable {handler : Handler} (member : handler ∈ FunctionRegistry.default.standard) {index : Nat}
  {definition : FunctionDef} (listed : handler.functions[index]? = some definition)
  (other : FunctionRegistry.sameName definition.name "accessor" = false)
include member listed other

/-- A standard function that is not given a name under which to keep something, and does not access a path, does no more
than its arguments do. -/
theorem standard_conducts {conduct : Conduct} (sees : conduct.SeesRows)
    (unnamed : Aggregate.takesName definition.name definition.params.length = false) :
    handler.Conducts conduct index := by
  simp only [FunctionRegistry.default, List.mem_cons, List.not_mem_nil, or_false] at member
  rcases member with rfl | rfl | rfl | rfl
  · exact Aggregate.handler_conducts_of_unnamed sees listed unnamed
  · exact TextFunction.handler_conducts _ index
  · exact NumericFunction.handler_conducts _ index
  · exact ConversionFunction.handler_conducts _ (ConversionFunction.ne_accessor listed other)

/-- A standard function that does not depend on its context answers arguments that have one outcome with one outcome. -/
theorem standard_steady (settled : definition.contextDependent = false) (valid : Memory → Prop) :
    handler.Conducts (.steady valid) index := by
  simp only [FunctionRegistry.default, List.mem_cons, List.not_mem_nil, or_false] at member
  rcases member with rfl | rfl | rfl | rfl
  · obtain ⟨variant, -, rfl⟩ := Aggregate.variant_of_listed listed
    cases settled
  · exact TextFunction.handler_conducts _ index
  · exact NumericFunction.handler_conducts _ index
  · exact ConversionFunction.handler_conducts _ (ConversionFunction.ne_accessor listed other)

end Standard

end RecordQuery
