import RecordQuery.Function.Handler
/-! Aggregates: functions of the values that an expression takes on the rows at hand, null values left out. One
that is given a name keeps its first result as a save value and answers with that from then on. -/

namespace RecordQuery

inductive Aggregate where
  | count
  | sum
  | avg
  | min
  | max
  | stddev
  | concat
deriving DecidableEq

namespace Aggregate

def name : Aggregate → String
  | count => "count"
  | sum => "sum"
  | avg => "avg"
  | min => "min"
  | max => "max"
  | stddev => "stddev"
  | concat => "concat"

def returns : Aggregate → DataType
  | count => .int64
  | sum | avg | stddev => .float64
  | min | max => .any
  | concat => .string

/-- The values as doubles. -/
def numbers (aggregate : Aggregate) (values : List Value) : Except Error (List Double) :=
  values.mapM fun value =>
    match value.number? with
    | .ok x => .ok (x.getD .zero)
    | .error error => .error (.within (aggregate.name ++ "(" ++ value.text ++ ")") error)

/-- The earliest of the least values. -/
def least : List Value → Value
  | [] => .null
  | first :: rest => rest.foldl (fun kept value => if kept.compare value == .gt then value else kept) first

/-- The latest of the greatest values. -/
def greatest : List Value → Value
  | [] => .null
  | first :: rest => rest.foldl (fun kept value => if kept.compare value == .gt then kept else value) first

def mean (xs : List Double) : Double := (Double.sum xs).div (.ofInt xs.length)

/-- The root of the mean square distance from the mean. -/
def deviation (xs : List Double) : Double :=
  let center := mean xs
  (mean (xs.map fun x => (x.sub center).mul (x.sub center))).sqrt

/-- The aggregate of values that are not null. -/
def apply (aggregate : Aggregate) (separator : String) (values : List Value) : Except Error Value :=
  match aggregate with
  | count => .ok (.int64 (Int64.ofNat values.length))
  | sum => (aggregate.numbers values).map fun xs => .float64 (Double.sum xs)
  | avg => (aggregate.numbers values).map fun xs => if xs.isEmpty then .null else .float64 (mean xs)
  | stddev => (aggregate.numbers values).map fun xs => if xs.isEmpty then .null else .float64 (deviation xs)
  | min => .ok (least values)
  | max => .ok (greatest values)
  | concat => .ok (.string (separator.intercalate (values.map Value.text)))

/-- The values other than null that an expression takes on rows. -/
def operandValues (evaluate : Frame → EvalM Value) (frame : Frame) : List Value → EvalM (List Value)
  | [] => return []
  | row :: rest => do
    let value ← evaluate (frame.onRow row)
    let values ← operandValues evaluate frame rest
    return if value.isNull then values else value :: values

/-- One way of calling an aggregate. -/
structure Variant where
  aggregate : Aggregate
  /-- Whether an expression is given; the rows are counted otherwise. -/
  operand : Bool
  /-- Whether the result is kept under a name, given last. -/
  saves : Bool

def Variant.params (variant : Variant) : List ParamType :=
  (if variant.operand then [.expression] else [])
    ++ (if variant.aggregate == .concat then [.type .string] else [])
    ++ (if variant.saves then [.type .string] else [])

def variants : List Variant :=
  ⟨count, false, false⟩ ::
    [count, sum, avg, min, max, stddev, concat].flatMap fun aggregate =>
      [⟨aggregate, true, false⟩, ⟨aggregate, true, true⟩]

/-- Computes an aggregate over the rows of the frame. -/
def Variant.compute (variant : Variant) (arguments : List Argument) (frame : Frame) : EvalM Value := do
  if variant.operand then
    let evaluate ← EvalM.ofExcept (Argument.expressionAt arguments 0 variant.aggregate.name)
    let values ← operandValues evaluate frame frame.rows
    EvalM.ofExcept (variant.aggregate.apply (Argument.valueAt arguments 1).text values)
  else
    return .int64 (Int64.ofNat frame.rows.length)

/-- Answers with the value kept under a name, or computes it and keeps it. -/
def keepAs (name : String) (frame : Frame) (compute : EvalM Value) : EvalM Value := do
  match ← EvalM.readHeap (·.saveValue? frame.scope name) with
  | some kept => return kept
  | none =>
    let value ← compute
    EvalM.changeHeap (·.set frame.scope .save name value)
    return value

def call (index : Nat) (arguments : List Argument) (frame : Frame) : EvalM Value :=
  match variants[index]? with
  | none => throw (noSuchFunction "grouping")
  | some variant =>
    if variant.saves then
      keepAs (Argument.valueAt arguments (arguments.length - 1)).text frame (variant.compute arguments frame)
    else variant.compute arguments frame

/-- The handler of the aggregates. -/
def handler : Handler where
  id := "grouping"
  functions := variants.map fun variant =>
    ⟨variant.aggregate.name, variant.params, variant.aggregate.returns, true⟩
  call := call

end Aggregate

end RecordQuery
