import RecordQuery.Text.Case
/-! Patterns: `%` stands for any characters, `_` for any one character. A pattern is cut at each `%` into runs; the
first run starts the text, the last ends it, and those between are found from left to right. -/

namespace RecordQuery

/-- Positions to match, each a given character or any one. -/
abbrev Run := List (Option Char)

structure LikePattern where
  first : Run
  rest : List Run
  ignoreCase : Bool
deriving DecidableEq

namespace LikePattern

/-- The characters before the first `%`, and those between and after. -/
def cut : List Char → List Char × List (List Char)
  | [] => ([], [])
  | c :: rest =>
    let (head, others) := cut rest
    if c = '%' then ([], head :: others) else (c :: head, others)

def runOf (chars : List Char) : Run := chars.map fun c => if c = '_' then none else some c

def compile (pattern : String) (ignoreCase : Bool) : LikePattern :=
  let chars := pattern.toList
  let (head, others) := cut (if ignoreCase then foldChars chars else chars)
  ⟨runOf head, others.map runOf, ignoreCase⟩

/-- Whether the pattern has no place for arbitrary characters. -/
def isLiteral (pattern : LikePattern) : Bool := pattern.rest.isEmpty && pattern.first.all Option.isSome

/-- What follows a run at the start of the characters, if they start with it. -/
def stripRun? : Run → List Char → Option (List Char)
  | [], chars => some chars
  | _ :: _, [] => none
  | none :: run, _ :: chars => stripRun? run chars
  | some p :: run, c :: chars => if p = c then stripRun? run chars else none

/-- What follows the leftmost place of a run. -/
def skipPast? (run : Run) : List Char → Option (List Char)
  | [] => stripRun? run []
  | c :: chars => (stripRun? run (c :: chars)).or (skipPast? run chars)

/-- Whether the characters are the runs, in order, with anything before and between, then the last run at the
end. -/
def matchesRest : List Run → List Char → Bool
  | [], chars => chars.isEmpty
  | [last], chars => last.length ≤ chars.length && stripRun? last (chars.drop (chars.length - last.length)) == some []
  | run :: next :: rest, chars =>
    match skipPast? run chars with
    | some after => matchesRest (next :: rest) after
    | none => false

/-- Whether the whole text fits the pattern. -/
def accepts (pattern : LikePattern) (text : String) : Bool :=
  let chars := if pattern.ignoreCase then foldChars text.toList else text.toList
  match stripRun? pattern.first chars with
  | none => false
  | some after => if pattern.rest.isEmpty then after.isEmpty else matchesRest pattern.rest after

end LikePattern

/-- Whether a text fits a pattern, upper and lower case told apart. -/
def like (text pattern : String) : Bool := (LikePattern.compile pattern false).accepts text

end RecordQuery
