import RecordQuery.Function.Handler
import RecordQuery.Number.Reading
import RecordQuery.Text.Blank
/-! Functions that convert values and look into them. -/

namespace RecordQuery

inductive ConversionFunction where
  | toText
  | toNumber
  | ifNull
  | accessor
  | size
  | typeOf
  | lookUp
deriving DecidableEq

namespace ConversionFunction

def all : List ConversionFunction := [toText, toNumber, ifNull, accessor, size, typeOf, lookUp]

def definition : ConversionFunction → FunctionDef
  | toText => ⟨"to_string", [.any], .string, false⟩
  | toNumber => ⟨"to_number", [.any], .float64, false⟩
  | ifNull => ⟨"if_null", [.any, .any], .any, false⟩
  | accessor => ⟨"accessor", [.any, .type .string], .any, false⟩
  | size => ⟨"size", [.any], .int64, false⟩
  | typeOf => ⟨"type_of", [.any], .string, false⟩
  | lookUp => ⟨"get", [.any, .any], .any, false⟩

/-- The number a value stands for; text is read as a decimal number. -/
def numberOf (value : Value) : Value :=
  match value with
  | .string s => ((Double.read? (trim s)).map Value.float64).getD .null
  | .boolean b => .float64 (if b then .one else .zero)
  | other => (other.toDouble?.map Value.float64).getD .null

/-- The item of a list at a number, or the entry of a map. -/
def find (container key : Value) : Except Error Value :=
  match container with
  | .null => .ok .null
  | .list items =>
    match key.toDouble? with
    | some x => .ok (if x.isPositive || x.isZero then (items[x.toCount]?).getD .null else .null)
    | none => .ok .null
  | .map entries => .ok ((valueAt? key entries).getD .null)
  | other => .error (.function "get" ("cannot index into " ++ other.dataType.text))

/-- Applies the accessor kept for a path text in a statement, made at its first use. -/
def access (statement : StoreId) (path : String) (value : Value) : EvalM Value := do
  let accessor ←
    match (← get).accessors.lookup (statement, path) with
    | some kept => pure kept
    | none => EvalM.ofExcept (do Accessor.unbound (← AccessorPath.parse path))
  let (result, after) := accessor.get value
  modify fun world =>
    { world with accessors := ((statement, path), after) :: world.accessors.filter (·.1 != (statement, path)) }
  EvalM.ofExcept result

def call (index : Nat) (arguments : List Argument) (frame : Frame) : EvalM Value :=
  let first := Argument.valueAt arguments 0
  let second := Argument.valueAt arguments 1
  match all[index]? with
  | none => throw (noSuchFunction "misc")
  | some toText => pure (if first.isNull then .null else .string first.text)
  | some toNumber => pure (numberOf first)
  | some ifNull => pure (if first.isNull then second else first)
  | some accessor => if first.isNull then pure .null else access frame.scope.own second.text first
  | some size => pure ((first.length?.map fun n => Value.int64 (Int64.ofNat n)).getD .null)
  | some typeOf => pure (.string ((first.dataType?.map DataType.text).getD "null"))
  | some lookUp => EvalM.ofExcept (find first second)

/-- The handler of the conversions. -/
def handler : Handler where
  id := "misc"
  functions := all.map definition
  call := call

end ConversionFunction

end RecordQuery
