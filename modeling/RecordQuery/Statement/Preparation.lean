import RecordQuery.Statement.Grouping
import RecordQuery.Statement.Projection
/-! Making a statement ready: numbering its variables without a name, resolving its expressions clause by clause,
and checking how its clauses go together. -/

namespace RecordQuery.Statement

/-- Resolves the expressions of a clause. -/
def prepareClause (place : String) (setting : Setting) (expressions : List Meaning) : EvalM Unit :=
  expressions.forM fun expression => EvalM.inside place (expression.prepare setting)

/-- Resolves the columns. -/
def prepareColumns (setting : Setting) (columns : List (Column Meaning)) : EvalM Unit :=
  columns.zipIdx.forM fun (column, index) =>
    EvalM.inside ("column " ++ toString (index + 1)) (column.expression.prepare setting)

/-- Makes the statement ready for rows of the setting's type. -/
def prepare (statement : Statement Meaning) (setting : Setting) : EvalM Unit := do
  Meaning.forEach (statement.expressions none) (·.number setting.scope)
  EvalM.ofExcept (checkSplice statement.columns)
  prepareColumns setting statement.columns
  prepareClause "where clause" setting statement.filter.toList
  prepareClause "having clause" setting statement.having.toList
  prepareClause "group by" setting statement.groupBy
  prepareClause "order by" setting (orderExpressions statement.orderBy)
  prepareClause "execute on" setting (statement.onAll ++ statement.onResults)
  prepareClause "group by order by" { setting with rowType := .any } (orderExpressions statement.groupOrder)
  discard (EvalM.ofExcept (sortSources statement.select statement.orderBy))
  if !statement.groupOrder.isEmpty || statement.groupLimit.isSome then
    if statement.groupBy.isEmpty then throw (.invalidStatement .groupClausesAlone)
    discard (EvalM.ofExcept (groupSources statement.groupBy statement.groupOrder))

end RecordQuery.Statement
