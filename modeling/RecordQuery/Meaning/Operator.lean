import RecordQuery.Expr
import RecordQuery.Meaning.Basic
/-! Meanings of operators: arithmetic, comparison, logic and tests for null. -/

namespace RecordQuery.Meaning

def arithmetic (op : ArithmeticOp) (left right : Meaning) : Meaning :=
  let text := left.text ++ " " ++ op.symbol ++ " " ++ right.text
  let type (setting : Setting) (world : World) : DataType :=
    if op != .add then .float64
    else
      let l := left.expectedType setting world
      let r := right.expectedType setting world
      if l.isNumeric && r.isNumeric then .float64 else if l.isAny || r.isAny then .any else .string
  compound text type [left, right] fun environment frame => do
    let l ← left.evaluate environment frame
    let r ← right.evaluate environment frame
    EvalM.inside ("expression " ++ text) (EvalM.ofExcept (l.applyOp op r))

def compare (op : CompareOp) (ignoreCase : Bool) (left right : Meaning) : Meaning :=
  let text := left.text ++ " " ++ (if ignoreCase then "$" else "") ++ op.symbol ++ " " ++ right.text
  predicate text [left, right] fun environment frame => do
    let l ← left.evaluate environment frame
    let r ← right.evaluate environment frame
    return op.test (compareValues ignoreCase l r)

def negate (operand : Meaning) : Meaning :=
  let text := "-" ++ operand.text
  compound text operand.expectedType [operand] fun environment frame => do
    let value ← operand.evaluate environment frame
    EvalM.inside ("expression " ++ text) (EvalM.ofExcept value.negate)

def not (operand : Meaning) : Meaning :=
  predicate ("NOT " ++ operand.text) [operand] fun environment frame =>
    return !(← operand.test environment frame)

/-- The right side is left alone once the left one decides. -/
def logical (op : LogicalOp) (left right : Meaning) : Meaning :=
  predicate (left.text ++ " " ++ op.symbol ++ " " ++ right.text) [left, right] fun environment frame => do
    let decided ← left.test environment frame
    match op, decided with
    | .and, false => return false
    | .or, true => return true
    | _, _ => right.test environment frame

def isNull (negated : Bool) (operand : Meaning) : Meaning :=
  predicate (operand.text ++ (if negated then " IS NOT NULL" else " IS NULL")) [operand]
    fun environment frame => return (← operand.evaluate environment frame).isNull != negated

end RecordQuery.Meaning
