import RecordQuery.Value.Basic
import RecordQuery.Number.Shortest
/-! The text of a value, for joining and comparing as text, and its quoted form, for showing it in a statement. -/

namespace RecordQuery

mutual
/-- The plain text of a value. -/
def Value.text : Value → String
  | .null => "null"
  | .boolean b => if b then "true" else "false"
  | .int32 i => toString i.toInt
  | .int64 i => toString i.toInt
  | .float64 x => x.text
  | .string s => s
  | .dateTime ms => toString ms.toInt
  | .bytes data => "[" ++ ", ".intercalate (data.map fun byte => toString byte.toNat) ++ "]"
  | .list items => "[" ++ ", ".intercalate (textItems items) ++ "]"
  | .map entries => "\x7b" ++ ", ".intercalate (textEntries entries) ++ "\x7d"
  | .object ⟨typeName, fields, _⟩ =>
    typeName ++ "\x7b" ++ ", ".intercalate (textFields fields) ++ "\x7d"
termination_by structural value => value

def textItems : List Value → List String
  | [] => []
  | item :: rest => item.text :: textItems rest
termination_by structural items => items

def textEntries : List (Value × Value) → List String
  | [] => []
  | (key, value) :: rest => (key.text ++ "=" ++ value.text) :: textEntries rest
termination_by structural entries => entries

def textFields : List (Member × Value) → List String
  | [] => []
  | (member, value) :: rest => (member.name ++ "=" ++ value.text) :: textFields rest
termination_by structural fields => fields
end

theorem textFields_eq (fields : List (Member × Value)) :
    textFields fields = fields.map fun field => field.1.name ++ "=" ++ field.2.text := by
  induction fields with
  | nil => rfl
  | cons field rest ih => simp [textFields, ih]

namespace Value

/-- The text of a value with a string in quotes, as a literal is written. -/
def quoted : Value → String
  | string s => "'" ++ s ++ "'"
  | value => value.text

end Value

end RecordQuery
