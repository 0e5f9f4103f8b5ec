import RecordQuery.Meaning.Basic
import RecordQuery.Statement.Text
/-! A statement over meanings, each of which remembers down the branch of its clause. -/

namespace RecordQuery

namespace OrderBy

/-- An ordering entry whose expression remembers down a branch. -/
def down (order : OrderBy Meaning) (branch : Branch) : OrderBy Meaning := order.map (·.down branch)

end OrderBy

namespace Statement

/-- The statement with each expression on the branch of its clause. -/
def placed (statement : Statement Meaning) : Statement Meaning :=
  { statement with
    select := statement.select.map (·.mapIdx fun index column => column.map (·.down (.column index)))
    source := statement.source.map (·.down .source)
    filter := statement.filter.map (·.down .filter)
    having := statement.having.map (·.down .having)
    groupBy := Meaning.each statement.groupBy .groupBy
    groupOrder := statement.groupOrder.mapIdx fun index order => order.down (.groupOrder index)
    orderBy := statement.orderBy.mapIdx fun index order => order.down (.orderBy index)
    onAll := Meaning.each statement.onAll .onAll
    onResults := Meaning.each statement.onResults .onResults }

/-- The text of a statement over meanings. -/
def shown (statement : Statement Meaning) (source : Option Meaning) : String :=
  (statement.map (·.text)).text (source.map (·.text))

/-- The types and functions that a statement sees by itself. -/
def ownEnvironment (statement : Statement Meaning) : Environment := ⟨statement.types, statement.functions⟩

/-- The types and functions that a statement sees inside another one: its own first. -/
def environmentWithin (statement : Statement Meaning) (enclosing : Environment) : Environment :=
  ⟨statement.types.merge enclosing.types, statement.functions.inherit enclosing.functions⟩

/-- A scope with a store of its own that holds the variables the statement brings along. -/
def newScope (statement : Statement ε) (heap : Heap) : Scope × Heap :=
  let (scope, heap) := heap.newScope
  (scope, statement.variables.foldl (fun heap (name, value) => heap.set scope .bind name value) heap)

end Statement

end RecordQuery
