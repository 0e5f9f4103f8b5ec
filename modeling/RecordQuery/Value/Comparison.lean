import RecordQuery.Text.Case
import RecordQuery.Value.Order
/-! The comparison of relational operators. Within a kind it follows the order of values, across kinds the texts;
null compares only with null. -/

namespace RecordQuery

/-- The order of two texts, each character in lower case if case is ignored. -/
def compareTexts (ignoreCase : Bool) (left right : String) : Ordering :=
  if ignoreCase then compare (foldCase left) (foldCase right) else compare left right

/-- The order that relational operators see, none if exactly one side is null. -/
def compareValues (ignoreCase : Bool) (left right : Value) : Option Ordering :=
  match left, right with
  | .null, .null => some .eq
  | .null, _ | _, .null => none
  | .string l, .string r => some (compareTexts ignoreCase l r)
  | .object l, .object r =>
    let byText := compareTexts ignoreCase left.text right.text
    if l.typeName == r.typeName then
      if l.equal r then some .eq else some ((l.compare? r).getD byText)
    else some byText
  | _, _ =>
    if left.kindRank == right.kindRank then some (left.compare right)
    else some (compareTexts ignoreCase left.text right.text)

inductive CompareOp where
  | eq
  | ne
  | lt
  | le
  | gt
  | ge
deriving DecidableEq

namespace CompareOp

def symbol : CompareOp → String
  | eq => "="
  | ne => "!="
  | lt => "<"
  | le => "<="
  | gt => ">"
  | ge => ">="

/-- Whether the operator holds of an order; without an order only inequality does. -/
def test : CompareOp → Option Ordering → Bool
  | eq, order => order == some .eq
  | ne, order => order != some .eq
  | _, none => false
  | lt, some order => order == .lt
  | le, some order => order != .gt
  | gt, some order => order == .gt
  | ge, some order => order != .lt

end CompareOp

end RecordQuery
