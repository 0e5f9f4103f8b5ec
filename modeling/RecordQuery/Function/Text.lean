import RecordQuery.Function.Handler
import RecordQuery.Text.Blank
import RecordQuery.Text.Case
/-! Functions of the text of their first argument; null gives null. -/

namespace RecordQuery

inductive TextFunction where
  | lower
  | upper
  | trim
  | length
  | substrFrom
  | substr
  | replace
  | contains
  | startsWith
  | endsWith
deriving DecidableEq

namespace TextFunction

def all : List TextFunction :=
  [lower, upper, trim, length, substrFrom, substr, replace, contains, startsWith, endsWith]

def definition : TextFunction → FunctionDef
  | lower => ⟨"lower", [.any], .string, false⟩
  | upper => ⟨"upper", [.any], .string, false⟩
  | trim => ⟨"trim", [.any], .string, false⟩
  | length => ⟨"length", [.any], .int64, false⟩
  | substrFrom => ⟨"substr", [.any, .type .float64], .string, false⟩
  | substr => ⟨"substr", [.any, .type .float64, .type .float64], .string, false⟩
  | replace => ⟨"replace", [.any, .type .string, .type .string], .string, false⟩
  | contains => ⟨"contains", [.any, .type .string], .boolean, false⟩
  | startsWith => ⟨"starts_with", [.any, .type .string], .boolean, false⟩
  | endsWith => ⟨"ends_with", [.any, .type .string], .boolean, false⟩

/-- A place among characters; null and negative numbers stand for the first one. -/
def position (value : Value) : Except Error Nat := do
  return ((← value.number?).map Double.toCount).getD 0

/-- The text with every occurrence of a part replaced; an empty part is found nowhere. -/
def replaceAll (text part replacement : String) : String :=
  if part.isEmpty then text else text.replace part replacement

/-- The function on a text and the arguments after it. -/
def apply (function : TextFunction) (text : String) (second third : Value) : Except Error Value :=
  match function with
  | lower => .ok (.string (lowerCase text))
  | upper => .ok (.string (upperCase text))
  | trim => .ok (.string (RecordQuery.trim text))
  | length => .ok (.int64 (Int64.ofNat text.length))
  | substrFrom => do
    let start ← position second
    return .string (String.ofList (text.toList.drop start))
  | substr => do
    let start ← position second
    let count ← position third
    return .string (String.ofList ((text.toList.drop start).take count))
  | replace => .ok (.string (replaceAll text second.text third.text))
  | contains => .ok (.boolean (text.contains second.text))
  | startsWith => .ok (.boolean (second.text.toList.isPrefixOf text.toList))
  | endsWith => .ok (.boolean (second.text.toList.isSuffixOf text.toList))

def call (index : Nat) (arguments : List Argument) (_ : Frame) : EvalM Value :=
  let subject := Argument.valueAt arguments 0
  if subject.isNull then pure .null
  else
    match all[index]? with
    | none => throw (noSuchFunction "string")
    | some function =>
      EvalM.ofExcept (function.apply subject.text (Argument.valueAt arguments 1) (Argument.valueAt arguments 2))

/-- The handler of the text functions. -/
def handler : Handler where
  id := "string"
  functions := all.map definition
  call := call

end TextFunction

end RecordQuery
