import RecordQuery.Error
import RecordQuery.Number.Arithmetic
import RecordQuery.Number.Integer
import RecordQuery.Value.Text
/-! Operators on values that give numbers or joined text. Null operands give null. -/

namespace RecordQuery

inductive ArithmeticOp where
  | add
  | sub
  | mul
  | div
  | mod
deriving DecidableEq

namespace ArithmeticOp

def symbol : ArithmeticOp → String
  | add => "+"
  | sub => "-"
  | mul => "*"
  | div => "/"
  | mod => "%"

/-- The operator on doubles; a quotient or remainder by zero is zero. -/
def onDoubles (op : ArithmeticOp) (x y : Double) : Double :=
  match op with
  | add => x.add y
  | sub => x.sub y
  | mul => x.mul y
  | div => if y.isZero then .zero else x.div y
  | mod => if y.isZero then .zero else x.remainder y

end ArithmeticOp

namespace Value

/-- A number as a double; nothing for null, and no other value is a number. -/
def number? (value : Value) : Except Error (Option Double) :=
  if value.isNull then .ok none
  else
    match value.toDouble? with
    | some x => .ok (some x)
    | none => .error (.typeMismatch .float64 value.dataType)

/-- An operand that has to be a number. -/
def operand (value : Value) : Except Error Double :=
  match value.toDouble? with
  | some x => .ok x
  | none => .error (.typeMismatch .float64 value.dataType)

/-- Applies an operator; a sum with an operand that is no number joins the texts. -/
def applyOp (op : ArithmeticOp) (left right : Value) : Except Error Value :=
  if left.isNull || right.isNull then .ok .null
  else if op == .add && !(left.isNumeric && right.isNumeric) then .ok (.string (left.text ++ right.text))
  else do
    let x ← left.operand
    let y ← right.operand
    return .float64 (op.onDoubles x y)

/-- The negated number, its width kept; the least integer of a width is its own negation. -/
def negate (value : Value) : Except Error Value :=
  match value with
  | null => .ok null
  | int32 i => .ok (int32 (-i))
  | int64 i => .ok (int64 (-i))
  | float64 x => .ok (float64 x.neg)
  | other => .error (.typeMismatch .float64 other.dataType)

/-- The integer of 64 bits that a number denotes, if there is one. -/
def wholeNumber? : Value → Option Int64
  | int32 i => some i.toInt64
  | int64 i => some i
  | float64 x => x.int64?
  | _ => none

/-- An integer of 64 bits in 32 bits, if it fits into them. -/
def narrow? (i : Int64) : Option Int32 :=
  if Int32.minValue.toInt64 ≤ i ∧ i ≤ Int32.maxValue.toInt64 then some i.toInt32 else none

/-- A number in a numeric type, an integer only if it can be held there exactly; in any other type the value as it
is. -/
def inType? (target : DataType) (value : Value) : Option Value :=
  match target with
  | .int32 => (value.wholeNumber?.bind narrow?).map int32
  | .int64 => value.wholeNumber?.map int64
  | .float64 => value.toDouble?.map float64
  | _ => some value

/-- A value as an argument for a parameter: a number has to fit the parameter's type, all else is left as it is. -/
def coerce (target : DataType) (typeName : String) (value : Value) : Except Error Value :=
  if !value.isNumeric then .ok value
  else
    match value.inType? target with
    | some held => .ok held
    | none => .error (.construction typeName (value.quoted ++ " does not fit " ++ target.text))

end Value

end RecordQuery
