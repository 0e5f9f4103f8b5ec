import RecordQuery.Function.Handler
import RecordQuery.Number.Power
/-! Functions of numbers; a null argument gives null. -/

namespace RecordQuery

inductive NumericFunction where
  | abs
  | round
  | roundTo
  | floor
  | ceil
  | pow
  | sqrt
deriving DecidableEq

namespace NumericFunction

def all : List NumericFunction := [abs, round, roundTo, floor, ceil, pow, sqrt]

def definition : NumericFunction → FunctionDef
  | abs => ⟨"abs", [.type .float64], .float64, false⟩
  | round => ⟨"round", [.type .float64], .float64, false⟩
  | roundTo => ⟨"round", [.type .float64, .type .float64], .float64, false⟩
  | floor => ⟨"floor", [.type .float64], .float64, false⟩
  | ceil => ⟨"ceil", [.type .float64], .float64, false⟩
  | pow => ⟨"pow", [.type .float64, .type .float64], .float64, false⟩
  | sqrt => ⟨"sqrt", [.type .float64], .float64, false⟩

/-- The function on its argument and, where it takes two, a second one. -/
def apply (function : NumericFunction) (x y : Double) : Double :=
  match function with
  | abs => x.abs
  | round => x.round
  | roundTo =>
    let scale := (Double.ofInt 10).pow y.floor
    (x.mul scale).round.div scale
  | floor => x.floor
  | ceil => x.ceil
  | pow => x.pow y
  | sqrt => x.sqrt

/-- The arguments as doubles, none if one of them is null; the first failure or null decides. -/
def operands : List Value → Except Error (Option (List Double))
  | [] => .ok (some [])
  | value :: rest => do
    match ← value.number? with
    | none => return none
    | some x => return (← operands rest).map (x :: ·)

def call (index : Nat) (arguments : List Argument) (_ : Frame) : EvalM Value := do
  let values := (List.range arguments.length).map (Argument.valueAt arguments)
  match ← EvalM.ofExcept (operands values) with
  | none => return .null
  | some xs =>
    match all[index]? with
    | none => throw (noSuchFunction "math")
    | some function => return .float64 (function.apply (xs[0]?.getD .zero) (xs[1]?.getD .zero))

/-- The handler of the numeric functions. -/
def handler : Handler where
  id := "math"
  functions := all.map definition
  call := call

end NumericFunction

end RecordQuery
