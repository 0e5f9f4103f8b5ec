import RecordQuery.DataType
/-! Signatures of functions, and how well argument types fit them. -/

namespace RecordQuery

/-- What a function declares of a parameter. -/
inductive ParamType where
  | any
  | type (type : DataType)
  /-- The argument is handed over as an expression, not as its value. -/
  | expression
deriving DecidableEq

structure FunctionDef where
  name : String
  params : List ParamType
  returns : DataType
  /-- Whether the result can differ from call to call with the same arguments. -/
  contextDependent : Bool
deriving DecidableEq

/-- How well an argument type fits a parameter; zero is no fit. -/
def ParamType.fit (param : ParamType) (argument : DataType) : Nat :=
  (match param with
    | any | expression => 1
    | type declared =>
      (if declared.accepts argument then 2 else 0)
        + (if declared.isNumeric && argument.isNumeric then 1 else 0)
        + (if declared.isPrimitive && argument.isPrimitive then 1 else 0))
    + (if argument.isAny then 1 else 0)

/-- The sum of the fits, if there are as many arguments as parameters and each one fits. -/
def score : List ParamType → List DataType → Option Nat
  | [], [] => some 0
  | param :: params, argument :: arguments =>
    match param.fit argument with
    | 0 => none
    | fit => (score params arguments).map (fit + ·)
  | _, _ => none

/-- The earliest of the candidates with the highest score. -/
def earliestBest {α : Type} (candidates : List (α × Nat)) : Option (α × Nat) :=
  candidates.foldl (fun best candidate =>
    match best with
    | some kept => if kept.2 < candidate.2 then some candidate else some kept
    | none => some candidate) none

/-- The choice among signatures for given argument types: the earliest with the best fit; without arguments, the
first that takes none. -/
def chooseSignature {α : Type} (signatures : List (α × List ParamType)) (arguments : List DataType) :
    Option (α × Nat) :=
  if arguments.isEmpty then
    (signatures.find? (·.2.isEmpty)).map fun (found, _) => (found, 0)
  else
    earliestBest (signatures.filterMap fun (candidate, params) =>
      (score params arguments).map fun fit => (candidate, fit))

end RecordQuery
