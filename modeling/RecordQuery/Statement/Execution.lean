import RecordQuery.Results
import RecordQuery.Statement.Projection
/-! Executing a statement on rows: expressions run on all rows, filters, then either groups, each ordered, projected
and limited, or the ordering, limiting and projection of all rows. -/

namespace RecordQuery

/-- Evaluates expressions for what they do, without a row at hand. -/
def runAll (clause : String) (expressions : List Meaning) (environment : Environment) (frame : Frame) :
    EvalM Unit :=
  expressions.forM fun expression =>
    EvalM.inside (clause ++ " " ++ expression.text) do
      discard (expression.evaluate environment { frame with row := none })

/-- The rows, counted from a place, on which a condition holds. -/
def keepFrom (clause : String) (condition : Meaning) (environment : Environment) (frame : Frame) :
    Nat → List Value → EvalM (List Value)
  | _, [] => return []
  | place, row :: rest => do
    let keep ← EvalM.inside (clause ++ " " ++ condition.text ++ " on row " ++ toString place)
      (condition.test environment (frame.onRow row))
    let kept ← keepFrom clause condition environment frame (place + 1) rest
    return if keep then row :: kept else kept

/-- The rows on which a condition holds; all of them without a condition. -/
def keepWhere (clause : String) (condition : Option Meaning) (environment : Environment) (frame : Frame)
    (rows : List Value) : EvalM (List Value) :=
  match condition with
  | none => return rows
  | some condition => keepFrom clause condition environment frame 0 rows

namespace Statement

/-- Orders, limits and projects rows without grouping them. -/
def finish (statement : Statement Meaning) (entries : List (SortSource × Direction)) (environment : Environment)
    (frame : Frame) (rows : List Value) (watch : Stopwatch) : EvalM (List Value × Stopwatch) := do
  let frame := { frame with rows }
  let (sorted, _) ← (RowOrder.sort ⟨entries, statement.cacheKeys⟩ rows environment frame).run .start
  let watch ← watch.lap .orderBy
  let limited := (statement.limit.map (·.apply sorted)).getD sorted
  let watch ← watch.lap .limit
  let results ← project statement environment frame limited
  let watch ← watch.lap .select
  return (results, watch)

/-- Orders and projects the members of a group. -/
def projectGroup (statement : Statement Meaning) (order : RowOrder) (environment : Environment) (frame : Frame)
    (members : List Value) : SortM (List Value) := do
  runAll "execute on results" statement.onResults environment frame
  let sorted ← order.sort members environment frame
  project statement environment frame sorted

/-- Projects groups one after the other, each from the same save values. -/
def projectGroups (statement : Statement Meaning) (order : RowOrder) (environment : Environment) (frame : Frame)
    (saves : NameTable Value) :
    Grouped (List Value) → SortState → EvalM (Grouped (List Value) × Grouped (NameTable Value))
  | [], _ => return ([], [])
  | (key, members) :: rest, state => do
    EvalM.changeHeap (·.replaceSaves frame.scope saves)
    let (results, state) ← EvalM.inside ("group " ++ (Value.list key).quoted)
      ((projectGroup statement order environment { frame with rows := members, groupKey := some key } members).run
        state)
    let saved ← EvalM.readHeap fun heap => (heap.rootStore frame.scope).saves
    let (groups, groupSaves) ← projectGroups statement order environment frame saves rest state
    return ((key, results) :: groups, (key, saved) :: groupSaves)

/-- Enters the results of groups, each limited, under their keys in an order, and with them the save values. -/
def assemble (statement : Statement Meaning) (projected : Grouped (List Value))
    (groupSaves : Grouped (NameTable Value)) (keys : List (List Value)) :
    Grouped (List Value) × Grouped (NameTable Value) :=
  let results := projected.file
  let saved := groupSaves.file
  let kept := keys.filterMap fun key => (Grouped.findFiled? results key).map fun results =>
    (key, (statement.limit.map (·.apply results)).getD results)
  let keptSaves := kept.filterMap fun (key, _) => (Grouped.findFiled? saved key).map (key, ·)
  (.insertAll kept, .insertAll keptSaves)

/-- Groups rows, projects each group, and orders and limits the groups. -/
def groupStage (statement : Statement Meaning) (environment : Environment) (frame : Frame) (rows : List Value) :
    EvalM (Grouped (List Value) × Grouped (NameTable Value)) := do
  let groups ← groupRows statement.groupBy environment frame rows
  let entries ← EvalM.ofExcept (sortSources statement.select statement.orderBy)
  let saves ← EvalM.readHeap fun heap => (heap.rootStore frame.scope).saves
  let (projected, groupSaves) ←
    projectGroups statement ⟨entries, statement.cacheKeys⟩ environment frame saves groups .start
  EvalM.changeHeap (·.replaceSaves frame.scope saves)
  let keys ←
    if statement.groupOrder.isEmpty then pure (projected.map (·.1))
    else do
      let entries ← EvalM.ofExcept (groupSources statement.groupBy statement.groupOrder)
      sortGroups entries environment frame groups
  let keys := (statement.groupLimit.map (·.apply keys)).getD keys
  return statement.assemble projected groupSaves keys

/-- Executes a statement that is ready on the rows of the frame. -/
def execute (statement : Statement Meaning) (environment : Environment) (frame : Frame) : EvalM Results := do
  let watch ← Stopwatch.start statement.clock
  runAll "execute on all" statement.onAll environment frame
  let watch ← watch.lap .executeOnAll
  let filtered ← keepWhere "where" statement.filter environment frame frame.rows
  let watch ← watch.lap .filter
  let inner := { frame with rows := filtered }
  runAll "execute on results" statement.onResults environment inner
  let watch ← watch.lap .executeOnResults
  let having ← keepWhere "having" statement.having environment inner filtered
  let watch ← watch.lap .having
  if statement.groupBy.isEmpty then
    let entries ← EvalM.ofExcept (sortSources statement.select statement.orderBy)
    let (rows, watch) ← statement.finish entries environment frame having watch
    let saves ← EvalM.readHeap fun heap => (heap.rootStore frame.scope).saves
    return ⟨rows, filtered, having, none, saves, none, watch.timings⟩
  else
    let (groups, groupSaves) ← statement.groupStage environment { frame with rows := having } having
    let watch ← watch.lap .groupBy
    let saves ← EvalM.readHeap fun heap => (heap.rootStore frame.scope).saves
    return ⟨groups.filterMap (·.2.head?), filtered, having, some groups, saves, some groupSaves, watch.timings⟩

end Statement

end RecordQuery
