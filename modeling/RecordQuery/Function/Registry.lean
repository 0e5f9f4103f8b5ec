import RecordQuery.Function.Aggregate
import RecordQuery.Function.Conversion
import RecordQuery.Function.Numeric
import RecordQuery.Function.Text
/-! The functions that a statement can call: its own handlers in the order of their registration, then the standard
ones. A call goes to the function that fits its arguments best. -/

namespace RecordQuery

structure FunctionRegistry where
  own : List Handler
  standard : List Handler

namespace FunctionRegistry

def empty : FunctionRegistry := ⟨[], []⟩

/-- The standard functions alone. -/
def default : FunctionRegistry :=
  ⟨[], [Aggregate.handler, TextFunction.handler, NumericFunction.handler, ConversionFunction.handler]⟩

instance : Inhabited FunctionRegistry := ⟨default⟩

def register (registry : FunctionRegistry) (handler : Handler) : FunctionRegistry :=
  { registry with own := registry.own ++ [handler] }

/-- Adds the other registry's own handlers, those not present yet, after the own ones. -/
def inherit (registry other : FunctionRegistry) : FunctionRegistry :=
  other.own.foldl (fun merged handler =>
    if merged.own.any (·.id == handler.id) then merged else merged.register handler) registry

/-- All handlers, in the order in which they are asked. -/
def handlers (registry : FunctionRegistry) : List Handler := registry.own ++ registry.standard

/-- Whether two function names are one, upper and lower case of ASCII letters not told apart. -/
def sameName (a b : String) : Bool := a.map Char.toLower == b.map Char.toLower

/-- Every function of the name with so many parameters, in the order in which they are asked. -/
def candidates (registry : FunctionRegistry) (name : String) (arity : Nat) :
    List ((Nat × Handler × Nat × FunctionDef) × List ParamType) :=
  registry.handlers.zipIdx.flatMap fun (handler, place) =>
    handler.functions.zipIdx.filterMap fun (definition, index) =>
      if sameName definition.name name && definition.params.length == arity then
        some ((place, handler, index, definition), definition.params)
      else none

/-- The function of the name that fits arguments of these types best. -/
def resolve (registry : FunctionRegistry) (name : String) (arguments : List DataType) : Option Resolution :=
  (chooseSignature (registry.candidates name arguments.length) arguments).map
    fun ((place, handler, index, definition), score) => ⟨place, handler.id, index, definition, score⟩

/-- Calls the function that a call was resolved to. -/
def call? (registry : FunctionRegistry) (resolution : Resolution) :
    Option (List Argument → Frame → EvalM Value) :=
  registry.handlers[resolution.place]?.map fun handler => handler.call resolution.index

end FunctionRegistry

end RecordQuery
