import RecordQuery.Statement.Placement
import RecordQuery.Value.Collection
/-! From rows to results: the rows themselves, tuples of columns, the records of a single constructor, or the items
of spliced columns. -/

namespace RecordQuery

/-- Either all columns are spliced or none. -/
def checkSplice (columns : List (Column Meaning)) : Except Error Unit :=
  let spliced := (columns.filter (·.splice)).length
  if 0 < spliced ∧ spliced ≠ columns.length then
    .error (.invalidStatement (.mixedSplice spliced columns.length))
  else .ok ()

/-- The value of a column on a row; both are counted. -/
def columnValue (column : Column Meaning) (index place : Nat) (environment : Environment) (frame : Frame) :
    EvalM Value :=
  EvalM.inside ("column " ++ toString (index + 1) ++ " (" ++ column.expression.text ++ ") of row "
    ++ toString place) (column.expression.evaluate environment frame)

/-- The values of columns on a row. -/
def columnValues (columns : List (Column Meaning)) (place : Nat) (environment : Environment) (frame : Frame) :
    EvalM (List Value) :=
  columns.zipIdx.mapM fun (column, index) => columnValue column index place environment frame

/-- What a spliced column contributes: items, the values of a map, nothing for null, or the value. -/
def splicedItems : Value → List Value
  | .list items => items
  | .map entries => entries.map (·.2)
  | .null => []
  | other => [other]

/-- Whether a statement's results are the records of its one constructor. -/
def isSingleConstructor : List (Column Meaning) → Bool
  | [column] => column.expression.isConstructor
  | _ => false

/-- The results of one row. -/
def projectRow (columns : List (Column Meaning)) (place : Nat) (environment : Environment) (frame : Frame) :
    EvalM (List Value) := do
  let values ← columnValues columns place environment frame
  return if isSingleConstructor columns then values
    else if (columns.head?.any (·.splice)) then values.flatMap splicedItems
    else [.list values]

/-- The results of rows. -/
def projectRows (columns : List (Column Meaning)) (environment : Environment) (frame : Frame) :
    List (Value × Nat) → EvalM (List Value)
  | [] => return []
  | (row, place) :: rest => do
    let results ← projectRow columns place environment (frame.onRow row)
    return results ++ (← projectRows columns environment frame rest)

/-- The results of a statement, of repeated ones only the first if it says so. -/
def project (statement : Statement Meaning) (environment : Environment) (frame : Frame) (rows : List Value) :
    EvalM (List Value) := do
  let results ← match statement.select with
    | none => pure rows
    | some columns => projectRows columns environment frame rows.zipIdx
  return if statement.distinct then distinct results else results

end RecordQuery
