import RecordQuery.Meaning.OfExpr
/-! Queries: statements that callers make ready, execute any number of times, and order again. What they keep stands
at the root of the memory. -/

namespace RecordQuery

structure Query where
  statement : Statement Meaning

namespace Query

def ofStatement (statement : Statement Expr) : Query := ⟨(statementMeaning statement).placed⟩

def environment (query : Query) : Environment := query.statement.ownEnvironment

/-- Whether the query is ready, for which rows, and its scope. -/
def state (query : Query) : EvalM StatementState := return (← query.statement.opened).1

def text (query : Query) : String := query.statement.shown none

/-- Makes the query ready for the rows that its source names. -/
def prepare (query : Query) : EvalM Unit := do
  discard query.state
  match query.statement.source with
  | .expression _ => throw (.invalidStatement .sourceOutside)
  | .rows type => query.statement.makeReady query.environment type

def execute (query : Query) (rows : List Value) : EvalM Results :=
  query.statement.executeReady query.environment rows none

/-- What an evaluation over the rows is about. -/
def frame (query : Query) (rows : List Value) : EvalM Frame :=
  return query.statement.frame (← query.state).scope rows none

/-- What expressions of the query are resolved against now. -/
def setting (query : Query) : EvalM Setting := do
  let state ← query.state
  return ⟨state.rowType, query.environment, state.scope⟩

/-- Sets a bind variable of the query. -/
def setVariable (query : Query) (name : String) (value : Value) : EvalM Unit := do
  let state ← query.state
  EvalM.changeHeap (·.set state.scope .bind name value)

/-- Sets the variable without a name at a place, counted from one. -/
def setVariableAt (query : Query) (place : Nat) (value : Value) : EvalM Unit :=
  query.setVariable (anonymousName place) value

/-- Whether a branch leads to an expression given for one reordering. -/
def isReorder : Branch → Bool
  | .reorder _ => true
  | _ => false

/-- Forgets the expressions given for a reordering, with their subscriptions. -/
def forgetReorder (world : World) : World :=
  let (passing, kept) := world.memory.branches.partition fun (branch, _) => isReorder branch
  { world with
    heap := world.heap.release (Memory.branchSubscriptions passing)
    memory := .node world.memory.state kept }

/-- Orders, limits and projects again the rows that were left after HAVING, by other expressions. -/
def reorderPlaced (query : Query) (results : Results) (orders : List (OrderBy Meaning)) : EvalM Results := do
  let state ← query.state
  if !state.initialized then throw (.invalidStatement .notInitialized)
  if !query.statement.groupBy.isEmpty then throw (.invalidStatement .groupedReorder)
  Statement.prepareClause "order by" (← query.setting) (orderExpressions orders)
  let entries ← EvalM.ofExcept (sortSources query.statement.select orders)
  let watch ← Stopwatch.start query.statement.clock
  let (rows, watch) ← query.statement.finish entries query.environment (← query.frame results.having) results.having
    watch
  let saves ← EvalM.readHeap fun heap => (heap.rootStore state.scope).saves
  return { results with rows, saves, timings := watch.timings }

/-- Orders results again by expressions, which are forgotten afterwards. -/
def reorderBy (query : Query) (results : Results) (orders : List (OrderBy Expr)) : EvalM Results := fun world =>
  let placed := (orderMeanings orders).mapIdx fun index order => order.down (.reorder index)
  match query.reorderPlaced results placed world with
  | .ok reordered after => .ok reordered (forgetReorder after)
  | .error error after => .error error (forgetReorder after)

/-- Orders results again by columns, counted from one. -/
def reorder (query : Query) (results : Results) (columns : List (Nat × Direction)) : EvalM Results :=
  query.reorderBy results (columns.map fun (number, direction) => ⟨.column number, direction⟩)

end Query

end RecordQuery
