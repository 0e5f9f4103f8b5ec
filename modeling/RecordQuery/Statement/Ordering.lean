import RecordQuery.Statement.Placement
import RecordQuery.Value.Collection
import Std.Data.HashMap
/-! Ordering rows by several keys. A comparison cannot fail: where a key fails it counts as null, and the first
failure comes out when the sort is done. -/

namespace RecordQuery

/-- Where a sort key comes from: an expression on the row, or a place in a row that is a list. -/
inductive SortSource where
  | expression (meaning : Meaning)
  | position (place : Nat)

/-- What rows are ordered by, and whether each key is worked out once for a row. -/
structure RowOrder where
  entries : List (SortSource × Direction)
  caching : Bool

/-- What a sort remembers: keys by row and entry, and the first failure of one. -/
structure SortState where
  keys : Std.HashMap (Nat × Nat) Value
  failure : Option Error

def SortState.start : SortState := ⟨∅, none⟩

abbrev SortM := StateT SortState EvalM

/-- The sort sources of an ORDER BY clause; a column number stands for that column's expression. -/
def sortSources (columns : Option (List (Column Meaning))) :
    List (OrderBy Meaning) → Except Error (List (SortSource × Direction))
  | [] => .ok []
  | order :: rest => do
    let source ← match order.key, columns with
      | .expression meaning, _ => .ok (.expression meaning)
      | .column _, none => .error (.invalidStatement .columnOfObjects)
      | .column number, some columns =>
        match if number = 0 then none else columns[number - 1]? with
        | some column => .ok (.expression column.expression)
        | none => .error (.invalidStatement (.columnRange number columns.length))
    return (source, order.direction) :: (← sortSources columns rest)

namespace RowOrder

/-- The value of a key expression on a row, null if it fails. -/
def evaluateKey (meaning : Meaning) (row : Value) (environment : Environment) (frame : Frame) : SortM Value :=
  fun state world =>
    match meaning.evaluate environment (frame.onRow row) world with
    | .ok value after => .ok (value, state) after
    | .error error after =>
      .ok (.null, { state with failure := state.failure.or (some (.within ("order by " ++ meaning.text) error)) })
        after

/-- The key of a row, known by its place, for an entry, known by its own. -/
def key (order : RowOrder) (entry : Nat) (source : SortSource) (row : Nat × Value) (environment : Environment)
    (frame : Frame) : SortM Value :=
  match source with
  | .position place =>
    match row.2 with
    | .list items => pure ((items[place]?).getD .null)
    | _ => pure .null
  | .expression meaning => do
    if !order.caching then evaluateKey meaning row.2 environment frame
    else
      match (← get).keys[(row.1, entry)]? with
      | some kept => return kept
      | none =>
        let value ← evaluateKey meaning row.2 environment frame
        modify fun state => { state with keys := state.keys.insert (row.1, entry) value }
        return value

/-- The order of two rows by entries from a given place on: the first difference decides. -/
def compareFrom (order : RowOrder) (a b : Nat × Value) (environment : Environment) (frame : Frame) :
    Nat → List (SortSource × Direction) → SortM Ordering
  | _, [] => return .eq
  | entry, (source, direction) :: rest => do
    let left ← order.key entry source a environment frame
    let right ← order.key entry source b environment frame
    match left.compare right with
    | .eq => order.compareFrom a b environment frame (entry + 1) rest
    | different => return direction.apply different

def compare (order : RowOrder) (a b : Nat × Value) (environment : Environment) (frame : Frame) : SortM Ordering :=
  order.compareFrom a b environment frame 0 order.entries

/-- Merges sorted rows; of two that compare equal the one from the left comes first. -/
def merge (order : RowOrder) (environment : Environment) (frame : Frame) :
    List (Nat × Value) → List (Nat × Value) → SortM (List (Nat × Value))
  | [], right => return right
  | left, [] => return left
  | a :: left, b :: right => do
    match ← order.compare a b environment frame with
    | .gt => return b :: (← order.merge environment frame (a :: left) right)
    | _ => return a :: (← order.merge environment frame left (b :: right))
termination_by left right => left.length + right.length

/-- Sorts rows by halves, at most so many times halved as the depth says. -/
def sortHalves (order : RowOrder) (environment : Environment) (frame : Frame) :
    Nat → List (Nat × Value) → SortM (List (Nat × Value))
  | depth + 1, first :: second :: rest => do
    let rows := first :: second :: rest
    let half := (rows.length + 1) / 2
    let left ← order.sortHalves environment frame depth (rows.take half)
    let right ← order.sortHalves environment frame depth (rows.drop half)
    order.merge environment frame left right
  | _, rows => return rows

/-- Sorts rows, stably; afterwards no key and no failure is remembered. -/
def sort (order : RowOrder) (rows : List Value) (environment : Environment) (frame : Frame) :
    SortM (List Value) := do
  if order.entries.isEmpty || rows.length < 2 then return rows
  let sorted ← order.sortHalves environment frame rows.length (rows.mapIdx fun place row => (place, row))
  let failure := (← get).failure
  set SortState.start
  match failure with
  | some error => throw error
  | none => return sorted.map (·.2)

end RowOrder

end RecordQuery
