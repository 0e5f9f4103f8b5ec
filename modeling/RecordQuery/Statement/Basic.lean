import RecordQuery.Function.Registry
import RecordQuery.Limit
/-! Statements, over any type of expressions: the clauses that say which rows are kept and what becomes of them,
and what the statement brings along. -/

namespace RecordQuery

structure Column (ε : Type) where
  expression : ε
  «alias» : Option String
  /-- Whether each item of the column's value becomes a result of its own. -/
  splice : Bool

inductive Direction where
  | ascending
  | descending
deriving DecidableEq

def Direction.apply : Direction → Ordering → Ordering
  | ascending, order => order
  | descending, order => order.swap

def Direction.text : Direction → String
  | ascending => " ASC"
  | descending => " DESC"

/-- What an entry of an ordering clause orders by: an expression, or a column counted from one. -/
inductive SortKey (ε : Type) where
  | expression (expression : ε)
  | column (number : Nat)

structure OrderBy (ε : Type) where
  key : SortKey ε
  direction : Direction

/-- Where the rows come from: the caller, or an expression of the enclosing statement. -/
inductive Source (ε : Type) where
  | rows (type : DataType)
  | expression (expression : ε)

structure Statement (ε : Type) where
  /-- The columns; without any, the rows themselves are selected. -/
  select : Option (List (Column ε))
  source : Source ε
  filter : Option ε
  having : Option ε
  groupBy : List ε
  groupOrder : List (OrderBy ε)
  groupLimit : Option Limit
  orderBy : List (OrderBy ε)
  limit : Option Limit
  distinct : Bool
  onAll : List ε
  onResults : List ε
  types : TypeRegistry
  handlers : List Handler
  «variables» : List (String × Value)
  /-- Whether a sort evaluates each key once for a row. -/
  cacheKeys : Bool
  /-- What the clock shows at each reading, counted from one. -/
  clock : Option (Nat → Nat)

variable {ε δ : Type}

def Column.map (f : ε → δ) (column : Column ε) : Column δ :=
  ⟨f column.expression, column.alias, column.splice⟩

def SortKey.map (f : ε → δ) : SortKey ε → SortKey δ
  | expression e => expression (f e)
  | column number => column number

def OrderBy.map (f : ε → δ) (order : OrderBy ε) : OrderBy δ := ⟨order.key.map f, order.direction⟩

def Source.map (f : ε → δ) : Source ε → Source δ
  | rows type => rows type
  | expression e => expression (f e)

namespace Statement

/-- The statement with other expressions in the places of its own. -/
def map (f : ε → δ) (statement : Statement ε) : Statement δ where
  select := statement.select.map (·.map (·.map f))
  source := statement.source.map f
  filter := statement.filter.map f
  having := statement.having.map f
  groupBy := statement.groupBy.map f
  groupOrder := statement.groupOrder.map (·.map f)
  groupLimit := statement.groupLimit
  orderBy := statement.orderBy.map (·.map f)
  limit := statement.limit
  distinct := statement.distinct
  onAll := statement.onAll.map f
  onResults := statement.onResults.map f
  types := statement.types
  handlers := statement.handlers
  «variables» := statement.variables
  cacheKeys := statement.cacheKeys
  clock := statement.clock

/-- The statement that selects all rows of any type. -/
def all : Statement ε where
  select := none
  source := .rows .any
  filter := none
  having := none
  groupBy := []
  groupOrder := []
  groupLimit := none
  orderBy := []
  limit := none
  distinct := false
  onAll := []
  onResults := []
  types := .empty
  handlers := []
  «variables» := []
  cacheKeys := false
  clock := none

def columns (statement : Statement ε) : List (Column ε) := statement.select.getD []

/-- The functions that the statement brings along, with the standard ones. -/
def functions (statement : Statement ε) : FunctionRegistry :=
  statement.handlers.foldl (·.register ·) .default

/-- The expression of the source, if it is one. -/
def sourceExpression? (statement : Statement ε) : Option ε :=
  match statement.source with
  | .expression e => some e
  | .rows _ => none

/-- The statement as it stands behind the source it is nested over: the rows are of any type. -/
def withoutSource (statement : Statement ε) : Statement ε :=
  match statement.source with
  | .expression _ => { statement with source := .rows .any }
  | .rows _ => statement

end Statement

/-- The expressions of an ordering clause. -/
def orderExpressions (orders : List (OrderBy ε)) : List ε :=
  orders.filterMap fun order =>
    match order.key with
    | .expression e => some e
    | .column _ => none

/-- The expressions of a statement in the order of its text, `source` standing for its source. -/
def Statement.expressions (statement : Statement ε) (source : Option ε) : List ε :=
  statement.columns.map (·.expression) ++ (source.or statement.sourceExpression?).toList
    ++ statement.filter.toList ++ statement.groupBy ++ orderExpressions statement.groupOrder
    ++ statement.having.toList ++ orderExpressions statement.orderBy ++ statement.onAll ++ statement.onResults

end RecordQuery
