import RecordQuery.Function.Registry
/-! The meaning of an expression: what it does to be resolved, to be evaluated, and to tell what is known of it.
The meaning of a compound expression is made from those of its parts. -/

namespace RecordQuery

/-- The record types and functions that a statement sees. -/
structure Environment where
  types : TypeRegistry
  functions : FunctionRegistry

/-- What an expression is resolved against. -/
structure Setting where
  rowType : DataType
  environment : Environment
  scope : Scope

structure Meaning where
  text : String
  /-- Whether the expression is a constructor. -/
  isConstructor : Bool
  evaluate : Environment → Frame → EvalM Value
  /-- Resolves paths, functions and constructors. -/
  prepare : Setting → EvalM Unit
  /-- The type of the values to expect. -/
  expectedType : Setting → World → DataType
  /-- Whether the value is the same for every row. -/
  isFixed : Memory → Bool
  /-- The variables that the expression reads, in the order of its text. -/
  «variables» : Memory → List (VariableKind × String)
  /-- Numbers the variables without a name, in the order of the text. -/
  number : Scope → EvalM Unit
  /-- The function that the expression has been resolved to call. -/
  resolution : Memory → Option Resolution

namespace Meaning

/-- The truth of an expression's value. -/
def test (meaning : Meaning) (environment : Environment) (frame : Frame) : EvalM Bool :=
  return (← meaning.evaluate environment frame).isTruthy

/-- The meaning of a part, which remembers down a branch of the whole. -/
def down (meaning : Meaning) (branch : Branch) : Meaning where
  text := meaning.text
  isConstructor := meaning.isConstructor
  evaluate environment frame := EvalM.on branch (meaning.evaluate environment frame)
  prepare setting := EvalM.on branch (meaning.prepare setting)
  expectedType setting world := meaning.expectedType setting (world.down branch)
  isFixed memory := meaning.isFixed (memory.child branch)
  «variables» memory := meaning.variables (memory.child branch)
  number scope := EvalM.on branch (meaning.number scope)
  resolution memory := meaning.resolution (memory.child branch)

/-- A list of parts, each down its own branch. -/
def each (parts : List Meaning) (branch : Nat → Branch) : List Meaning :=
  parts.mapIdx fun index part => part.down (branch index)

/-- The parts do one thing each, in turn. -/
def forEach (parts : List Meaning) (action : Meaning → EvalM Unit) : EvalM Unit :=
  parts.forM action

/-- What a compound expression does with its parts unless it has more to do: resolve, list and number them in
turn, and be fixed if all of them are. -/
def compound (text : String) (type : Setting → World → DataType) (parts : List Meaning)
    (evaluate : Environment → Frame → EvalM Value) : Meaning where
  text := text
  isConstructor := false
  evaluate := evaluate
  prepare setting := forEach parts (·.prepare setting)
  expectedType := type
  isFixed memory := parts.all (·.isFixed memory)
  «variables» memory := parts.flatMap (·.variables memory)
  number scope := forEach parts (·.number scope)
  resolution _ := none

/-- A compound expression that is true or false. -/
def predicate (text : String) (parts : List Meaning) (decide : Environment → Frame → EvalM Bool) : Meaning :=
  compound text (fun _ _ => .boolean) parts fun environment frame => .boolean <$> decide environment frame

end Meaning

end RecordQuery
