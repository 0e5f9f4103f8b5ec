import RecordQuery.Statement.Execution
import RecordQuery.Statement.Preparation
/-! A statement in use: its scope, whether it is ready and for which rows, kept by the node it stands at. -/

namespace RecordQuery.Statement

/-- What a nested statement starts from. -/
def freshNesting : Nesting := ⟨false, none, true, 0, []⟩

/-- The state of the statement at hand, which gets a scope of its own at first use. -/
def opened (statement : Statement Meaning) : EvalM (StatementState × Nesting) := do
  match ← EvalM.node with
  | .statement state nesting => return (state, nesting)
  | _ =>
    let scope ← EvalM.onHeap statement.newScope
    let state : StatementState := ⟨scope, false, .any⟩
    EvalM.setNode (.statement state freshNesting)
    return (state, freshNesting)

/-- Makes the statement ready for rows of a type; while that fails it is not ready for any. -/
def makeReady (statement : Statement Meaning) (environment : Environment) (rowType : DataType) : EvalM Unit := do
  let (state, nesting) ← statement.opened
  EvalM.setNode (.statement { state with initialized := false } nesting)
  statement.prepare ⟨rowType, environment, state.scope⟩
  EvalM.setNode (.statement { state with initialized := true, rowType } nesting)

/-- What an evaluation of the statement is about before it comes to any row. -/
def frame (statement : Statement Meaning) (scope : Scope) (rows : List Value) (outerRow : Option Value) : Frame :=
  { row := none, rows, groupKey := none, outerRow, scope, statementText := statement.shown none }

/-- Executes the statement if it is ready. -/
def executeReady (statement : Statement Meaning) (environment : Environment) (rows : List Value)
    (outerRow : Option Value) : EvalM Results := do
  let (state, _) ← statement.opened
  if !state.initialized then throw (.invalidStatement .notInitialized)
  statement.execute environment (statement.frame state.scope rows outerRow)

end RecordQuery.Statement
