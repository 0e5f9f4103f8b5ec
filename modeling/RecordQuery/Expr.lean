import RecordQuery.Path.Parser
import RecordQuery.Statement.Basic
import RecordQuery.Value.Comparison
/-! Expressions, as they are written. -/

namespace RecordQuery

inductive LogicalOp where
  | and
  | or
deriving DecidableEq

def LogicalOp.symbol : LogicalOp → String
  | and => "AND"
  | or => "OR"

inductive Expr where
  | constant (value : Value)
  /-- A member path on the row at hand. -/
  | member (path : AccessorPath)
  /-- A bind variable, without a name if it is anonymous, and a path on its value. -/
  | bind (name : Option String) (path : Option AccessorPath)
  | save (name : String) (path : Option AccessorPath)
  | arithmetic (op : ArithmeticOp) (left right : Expr)
  | compare (op : CompareOp) (ignoreCase : Bool) (left right : Expr)
  | negate (operand : Expr)
  | not (operand : Expr)
  | logical (op : LogicalOp) (left right : Expr)
  | isNull (negated : Bool) (operand : Expr)
  | between (negated : Bool) (subject lower upper : Expr)
  | like (negated ignoreCase : Bool) (subject pattern : Expr)
  /-- Whether the subject matches some item, or all of them, as equals or as patterns. -/
  | among (negated ignoreCase like all : Bool) (subject : Expr) (items : List Expr)
  | call (name : String) (arguments : List Expr)
  /-- A new record from constructor arguments, then assigned the values of the setters. -/
  | construct (typeName : String) (arguments : List Expr) (setters : List (Expr × String))
  | subquery (statement : Statement Expr)

namespace Expr

def string (text : String) : Expr := constant (.string text)

/-- A path on the row at hand, from its text. -/
def ofPath (path : String) : Except Error Expr := return member (← AccessorPath.parse path)

/-- The conjunction of several conditions, from left to right. -/
def conjunction : List Expr → Option Expr
  | [] => none
  | first :: rest => some (rest.foldl (logical .and) first)

end Expr

end RecordQuery
