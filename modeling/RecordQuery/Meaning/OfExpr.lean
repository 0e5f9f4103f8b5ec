import RecordQuery.Meaning.Call
import RecordQuery.Meaning.Operand
import RecordQuery.Meaning.Operator
import RecordQuery.Meaning.Predicate
import RecordQuery.Meaning.Subquery
/-! The meaning of each expression, from the meanings of its parts. -/

namespace RecordQuery

mutual
def Expr.meaning : Expr → Meaning
  | .constant value => .constant value
  | .member path => .member path
  | .bind name path => .bind (name.map normalizeName) path
  | .save name path => .save (normalizeName name) path
  | .arithmetic op left right => .arithmetic op (left.meaning.down .left) (right.meaning.down .right)
  | .compare op ignoreCase left right =>
    .compare op ignoreCase (left.meaning.down .left) (right.meaning.down .right)
  | .negate operand => .negate (operand.meaning.down .subject)
  | .not operand => .not (operand.meaning.down .subject)
  | .logical op left right => .logical op (left.meaning.down .left) (right.meaning.down .right)
  | .isNull negated operand => .isNull negated (operand.meaning.down .subject)
  | .between negated subject lower upper =>
    .between negated (subject.meaning.down .subject) (lower.meaning.down .lower) (upper.meaning.down .upper)
  | .like negated ignoreCase subject pattern =>
    .like negated ignoreCase (subject.meaning.down .subject) (pattern.meaning.down .pattern)
  | .among negated ignoreCase like all subject items =>
    .among ⟨negated, ignoreCase, like, all⟩ (subject.meaning.down .subject) (Meaning.each (meanings items) .item)
  | .call name arguments => .call name (Meaning.each (meanings arguments) .argument)
  | .construct typeName arguments setters =>
    .construct typeName (Meaning.each (meanings arguments) .argument)
      ((setterMeanings setters).mapIdx fun index (setter, property) => (setter.down (.setter index), property))
  | .subquery statement => .subquery (statementMeaning statement).placed
termination_by structural expression => expression

def meanings : List Expr → List Meaning
  | [] => []
  | expression :: rest => expression.meaning :: meanings rest
termination_by structural expressions => expressions

def meaningOf? : Option Expr → Option Meaning
  | none => none
  | some expression => some expression.meaning
termination_by structural expression => expression

def setterMeanings : List (Expr × String) → List (Meaning × String)
  | [] => []
  | (setter, property) :: rest => (setter.meaning, property) :: setterMeanings rest
termination_by structural setters => setters

def columnMeanings : List (Column Expr) → List (Column Meaning)
  | [] => []
  | ⟨expression, label, splice⟩ :: rest => ⟨expression.meaning, label, splice⟩ :: columnMeanings rest
termination_by structural columns => columns

def selectMeaning : Option (List (Column Expr)) → Option (List (Column Meaning))
  | none => none
  | some columns => some (columnMeanings columns)
termination_by structural select => select

def orderMeanings : List (OrderBy Expr) → List (OrderBy Meaning)
  | [] => []
  | ⟨.expression expression, direction⟩ :: rest => ⟨.expression expression.meaning, direction⟩ :: orderMeanings rest
  | ⟨.column number, direction⟩ :: rest => ⟨.column number, direction⟩ :: orderMeanings rest
termination_by structural orders => orders

def sourceMeaning : Source Expr → Source Meaning
  | .rows type => .rows type
  | .expression expression => .expression expression.meaning
termination_by structural source => source

def statementMeaning : Statement Expr → Statement Meaning
  | ⟨select, source, filter, having, groupBy, groupOrder, groupLimit, orderBy, limit, distinct, onAll, onResults,
      types, handlers, names, cacheKeys, clock⟩ =>
    { select := selectMeaning select
      source := sourceMeaning source
      filter := meaningOf? filter
      having := meaningOf? having
      groupBy := meanings groupBy
      groupOrder := orderMeanings groupOrder
      «variables» := names
      groupLimit, limit, distinct, types, handlers, cacheKeys, clock
      orderBy := orderMeanings orderBy
      onAll := meanings onAll
      onResults := meanings onResults }
termination_by structural statement => statement
end

end RecordQuery
