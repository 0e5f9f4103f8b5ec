import RecordQuery.Meaning.OfExpr
import RecordQuery.Proofs.Evaluation.Conduct
/-! What passes from the parts of an expression to the whole, for expressions that read and remember nothing by
themselves. -/

namespace RecordQuery

/-- Evaluating an argument that is handed over as an expression conducts itself so. -/
def Argument.Conducts (conduct : Conduct) : Argument → Prop
  | value _ => True
  | expression _ evaluate => conduct.Of evaluate

/-- A call of the operation at a place conducts itself so on arguments that do. -/
def Handler.Conducts (conduct : Conduct) (handler : Handler) (index : Nat) : Prop :=
  ∀ arguments, (∀ argument ∈ arguments, Argument.Conducts conduct argument) → conduct.Of (handler.call index arguments)

namespace Meaning

variable (conduct : Conduct) {environment : Environment} {left right operand : Meaning}

/-- A variable that is not reserved has the value that the scope has for it. -/
theorem bindValue_of_other {name : String} (other : name ∉ reservedNames) (frame : Frame) :
    bindValue name frame = EvalM.readHeap (·.bindValue frame.scope name) := by
  unfold bindValue
  split <;> first | rfl | exact absurd (by decide) other

/-- What a reserved name stands for is in the frame. -/
theorem bindValue_of_reserved {name : String} (reserved : name ∈ reservedNames) (frame : Frame) :
    ∃ value, bindValue name frame = pure value := by
  simp only [reservedNames, List.mem_cons, List.not_mem_nil, or_false] at reserved
  rcases reserved with rfl | rfl | rfl | rfl | rfl | rfl <;> exact ⟨_, rfl⟩

theorem bindType_of_other {name : String} (other : name ∉ reservedNames) (setting : Setting) (heap : Heap) :
    bindType name setting heap = (heap.bindValue setting.scope name).dataType := by
  unfold bindType
  split <;> first | rfl | exact absurd (by decide) other

theorem bindType_of_reserved {name : String} (reserved : name ∈ reservedNames) (setting : Setting) (heap heap' : Heap) :
    bindType name setting heap = bindType name setting heap' := by
  simp only [reservedNames, List.mem_cons, List.not_mem_nil, or_false] at reserved
  rcases reserved with rfl | rfl | rfl | rfl | rfl | rfl <;> rfl

theorem test_conducts (part : conduct.Of (operand.evaluate environment)) :
    conduct.Of (operand.test environment) :=
  conduct.bind part fun value => conduct.pure value.isTruthy

theorem arithmetic_conducts (op : ArithmeticOp) (first : conduct.Of (left.evaluate environment))
    (second : conduct.Of (right.evaluate environment)) :
    conduct.Of ((arithmetic op left right).evaluate environment) :=
  conduct.bind first fun _ => conduct.bind second fun _ => conduct.inside (conduct.ofExcept _) _

theorem compare_conducts (op : CompareOp) (ignoreCase : Bool) (first : conduct.Of (left.evaluate environment))
    (second : conduct.Of (right.evaluate environment)) :
    conduct.Of ((compare op ignoreCase left right).evaluate environment) :=
  conduct.map (conduct.bind first fun _ => conduct.bind second fun _ => conduct.pure _) _

theorem negate_conducts (part : conduct.Of (operand.evaluate environment)) :
    conduct.Of ((negate operand).evaluate environment) :=
  conduct.bind part fun _ => conduct.inside (conduct.ofExcept _) _

theorem not_conducts (part : conduct.Of (operand.evaluate environment)) :
    conduct.Of ((not operand).evaluate environment) :=
  conduct.map (conduct.bind (test_conducts conduct part) fun _ => conduct.pure _) _

theorem logical_conducts (op : LogicalOp) (first : conduct.Of (left.evaluate environment))
    (second : conduct.Of (right.evaluate environment)) :
    conduct.Of ((logical op left right).evaluate environment) := by
  refine conduct.map (conduct.bind (test_conducts conduct first) fun decided => ?_) _
  cases op <;> cases decided
  · exact conduct.pure false
  · exact test_conducts conduct second
  · exact test_conducts conduct second
  · exact conduct.pure true

theorem isNull_conducts (negated : Bool) (part : conduct.Of (operand.evaluate environment)) :
    conduct.Of ((isNull negated operand).evaluate environment) :=
  conduct.map (conduct.bind part fun _ => conduct.pure _) _

theorem passArguments_conducts {parameters : List ParamType} {arguments : List Meaning}
    (parts : ∀ argument ∈ arguments, conduct.Of (argument.evaluate environment)) :
    conduct.Of fun frame => passArguments environment frame parameters arguments := by
  induction parameters generalizing arguments with
  | nil => exact conduct.pure []
  | cons parameter parameters ih =>
    cases arguments with
    | nil => exact conduct.pure []
    | cons argument arguments =>
      obtain ⟨own, others⟩ := List.forall_mem_cons.mp parts
      have collect (passed : Argument) : conduct.Of fun frame => do
          return passed :: (← passArguments environment frame parameters arguments) :=
        conduct.bind (ih others) fun _ => conduct.pure _
      unfold passArguments
      by_cases handed : (parameter == .expression) = true
      · simp only [handed, if_true]
        exact conduct.bind (conduct.pure _) collect
      · simp only [handed]
        exact conduct.bind (conduct.map own Argument.value) collect

omit conduct in
/-- What is passed conducts itself so when it is evaluated later. -/
theorem passArguments_passed (conduct : Conduct) {parameters : List ParamType} {arguments : List Meaning}
    (parts : ∀ argument ∈ arguments, conduct.Of (argument.evaluate environment)) (frame : Frame) :
    EvalM.Returns (fun passed => ∀ argument ∈ passed, Argument.Conducts conduct argument)
      (passArguments environment frame parameters arguments) := by
  induction parameters generalizing arguments with
  | nil => exact EvalM.returns_pure (by simp)
  | cons parameter parameters ih =>
    cases arguments with
    | nil => exact EvalM.returns_pure (by simp)
    | cons argument arguments =>
      obtain ⟨own, others⟩ := List.forall_mem_cons.mp parts
      have collect (passed : Argument) (conducts : Argument.Conducts conduct passed) :
          EvalM.Returns (fun passed => ∀ argument ∈ passed, Argument.Conducts conduct argument) (do
            return passed :: (← passArguments environment frame parameters arguments)) :=
        (ih others).bind fun later conducts' => EvalM.returns_pure (List.forall_mem_cons.mpr ⟨conducts, conducts'⟩)
      unfold passArguments
      split
      · refine (EvalM.returns_pure ?_).bind collect
        exact own
      · rw [map_eq_pure_bind]
        exact ((EvalM.returns_true _).bind fun _ _ => EvalM.returns_pure trivial).bind collect

/-- A call conducts itself as its arguments and its function do. -/
theorem invoke_conducts {resolution : Resolution} {arguments : List Meaning}
    (parts : ∀ argument ∈ arguments, conduct.Of (argument.evaluate environment)) (unresolved : Error)
    (called : ∀ handler, environment.functions.handlers[resolution.place]? = some handler →
      handler.Conducts conduct resolution.index) :
    conduct.Of (invoke resolution arguments unresolved environment) := by
  refine conduct.bindReturned (passArguments_conducts conduct parts) (passArguments_passed conduct parts)
    fun passed conducts => ?_
  unfold FunctionRegistry.call?
  cases found : environment.functions.handlers[resolution.place]? with
  | none => exact conduct.throw unresolved
  | some handler => exact called handler found passed conducts

theorem coerceArguments_conducts (typeName : String) {types : List DataType} {arguments : List Meaning}
    (parts : ∀ argument ∈ arguments, conduct.Of (argument.evaluate environment)) :
    conduct.Of fun frame => coerceArguments typeName environment frame types arguments := by
  induction types generalizing arguments with
  | nil => exact conduct.pure []
  | cons type types ih =>
    cases arguments with
    | nil => exact conduct.pure []
    | cons argument arguments =>
      obtain ⟨own, others⟩ := List.forall_mem_cons.mp parts
      exact conduct.bind own fun _ => conduct.bind (conduct.ofExcept _) fun _ =>
        conduct.bind (ih others) fun _ => conduct.pure _

theorem assignSetters_conducts {setters : List (Meaning × String)}
    (parts : ∀ setter ∈ setters, conduct.Of (setter.1.evaluate environment)) (record : Record) :
    conduct.Of fun frame => assignSetters environment frame record setters := by
  induction setters generalizing record with
  | nil => exact conduct.pure record
  | cons setter rest ih =>
    obtain ⟨own, others⟩ := List.forall_mem_cons.mp parts
    exact conduct.bind own fun _ => conduct.bind (conduct.inside (conduct.ofExcept _) _) fun assigned =>
      ih others assigned

/-- Making a record conducts itself as the arguments and setters do. -/
theorem build_conducts (typeName : String) (factory : RecordFactory) (constructor : Nat) {arguments : List Meaning}
    {setters : List (Meaning × String)} (parts : ∀ argument ∈ arguments, conduct.Of (argument.evaluate environment))
    (sets : ∀ setter ∈ setters, conduct.Of (setter.1.evaluate environment)) :
    conduct.Of fun frame => do
      let values ← coerceArguments typeName environment frame ((factory.signatures[constructor]?).getD []) arguments
      let record ← EvalM.ofExcept (factory.construct constructor values)
      return Value.object (← assignSetters environment frame record setters) :=
  conduct.bind (coerceArguments_conducts conduct typeName parts) fun _ =>
    conduct.bind (conduct.ofExcept _) fun record =>
      conduct.bind (assignSetters_conducts conduct sets record) fun _ => conduct.pure _

end Meaning

end RecordQuery
