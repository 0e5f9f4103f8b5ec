/-! Row windows: some rows skipped, then at most so many kept. -/

namespace RecordQuery

structure Limit where
  offset : Nat
  count : Option Nat
deriving DecidableEq

namespace Limit

/-- The items of the window. -/
def apply {α : Type} (limit : Limit) (items : List α) : List α :=
  match limit.count with
  | some count => (items.drop limit.offset).take count
  | none => items.drop limit.offset

def text (limit : Limit) : String :=
  match limit.count with
  | some count =>
    if 0 < limit.offset then "LIMIT " ++ toString limit.offset ++ ", " ++ toString count
    else "LIMIT " ++ toString count
  | none => "LIMIT " ++ toString limit.offset ++ ", ALL"

end Limit

end RecordQuery
