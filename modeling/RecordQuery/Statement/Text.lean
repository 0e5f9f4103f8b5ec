import RecordQuery.Statement.Basic
/-! The text of a statement, from the texts of its expressions. -/

namespace RecordQuery

def Column.text (column : Column String) : String :=
  (if column.splice then "[*] " else "") ++ column.expression
    ++ (column.alias.map (" AS " ++ ·)).getD ""

def OrderBy.text (order : OrderBy String) : String :=
  (match order.key with
    | .expression text => text
    | .column number => toString number) ++ order.direction.text

/-- A clause with its items between commas; nothing without items. -/
def clauseText (keyword : String) (items : List String) : String :=
  if items.isEmpty then "" else keyword ++ ", ".intercalate items

/-- The text of a statement, with the text of a source expression if it is nested over one. -/
def Statement.text (statement : Statement String) (source : Option String) : String :=
  "SELECT " ++ (if statement.distinct then "DISTINCT " else "")
    ++ (match statement.select with
        | none => "*"
        | some columns => ", ".intercalate (columns.map Column.text))
    ++ " FROM " ++ (match source, statement.source with
        | some text, _ | none, .expression text => text
        | none, .rows .any => "null"
        | none, .rows type => type.text)
    ++ (statement.filter.map (" WHERE " ++ ·)).getD ""
    ++ clauseText " GROUP BY " statement.groupBy
    ++ clauseText " GROUP BY ORDER BY " (statement.groupOrder.map OrderBy.text)
    ++ (statement.groupLimit.map (" GROUP BY " ++ ·.text)).getD ""
    ++ (statement.having.map (" HAVING " ++ ·)).getD ""
    ++ clauseText " ORDER BY " (statement.orderBy.map OrderBy.text)
    ++ (statement.limit.map (" " ++ ·.text)).getD ""
    ++ clauseText " EXECUTE ON ALL " statement.onAll
    ++ clauseText " EXECUTE ON RESULTS " statement.onResults

end RecordQuery
