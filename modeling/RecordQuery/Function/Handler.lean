import RecordQuery.Evaluation.World
import RecordQuery.Value.Arithmetic
/-! Function handlers: named operations that a statement can call with values and with expressions, which a handler
evaluates itself, on whatever row it likes. -/

namespace RecordQuery

/-- What an evaluation is about: the row at hand, the set of rows it is from, and the statement. -/
structure Frame where
  row : Option Value
  rows : List Value
  groupKey : Option (List Value)
  /-- The row at hand in the enclosing statement. -/
  outerRow : Option Value
  scope : Scope
  statementText : String

def Frame.onRow (frame : Frame) (row : Value) : Frame := { frame with row := some row }

inductive Argument where
  | value (value : Value)
  | expression (text : String) (evaluate : Frame → EvalM Value)

structure Handler where
  id : String
  functions : List FunctionDef
  /-- Runs the operation at a place. -/
  call : Nat → List Argument → Frame → EvalM Value

namespace Argument

/-- The value at a place among the arguments; null if there is none or if it is an expression. -/
def valueAt (arguments : List Argument) (place : Nat) : Value :=
  match arguments[place]? with
  | some (value v) => v
  | _ => .null

/-- The expression at a place among the arguments. -/
def expressionAt (arguments : List Argument) (place : Nat) (function : String) :
    Except Error (Frame → EvalM Value) :=
  match arguments[place]? with
  | some (expression _ evaluate) => .ok evaluate
  | _ => .error (.function function ("argument " ++ toString (place + 1) ++ " must be an expression"))

end Argument

/-- The failure of asking a handler for an operation it does not have. -/
def noSuchFunction (handler : String) : Error := .function handler "no such function"

end RecordQuery
