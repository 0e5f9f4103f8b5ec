import RecordQuery.Value.Filing
/-! Maps keyed by values, sorting of values, and lists without repetitions. -/

namespace RecordQuery

/-- The entry of a map whose key compares equal. -/
def valueAt? (key : Value) (entries : List (Value × Value)) : Option Value :=
  (entries.find? fun (found, _) => key.compare found == .eq).map (·.2)

/-- Puts an entry at its place in the order of keys; an equal key stays and takes the new value. -/
def insertEntry (key value : Value) : List (Value × Value) → List (Value × Value)
  | [] => [(key, value)]
  | (found, old) :: rest =>
    match key.compare found with
    | .lt => (key, value) :: (found, old) :: rest
    | .eq => (found, value) :: rest
    | .gt => (found, old) :: insertEntry key value rest

/-- The map that a list of entries gives, inserted one after the other. -/
def Value.mapOf (entries : List (Value × Value)) : Value :=
  .map (entries.foldl (fun map (key, value) => insertEntry key value map) [])

/-- Stable sorting: items that compare equal stay in the order they came in. -/
def sortStably {α : Type} (order : α → α → Ordering) (items : List α) : List α :=
  items.mergeSort fun a b => order a b != .gt

/-- The first occurrences of a list's values, in order. -/
def distinct (items : List Value) : List Value := Filing.firsts Value.digest Value.equal items

/-- A value stays unless it equals one before it that stays. -/
theorem distinct_eq (items : List Value) : distinct items = items.eraseDupsBy Value.equal :=
  Filing.firsts_eq Value.digest_eq_of_equal items

end RecordQuery
