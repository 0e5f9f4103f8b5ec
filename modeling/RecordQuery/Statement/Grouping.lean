import RecordQuery.Statement.Ordering
/-! Groups of rows under equal keys, in the order in which the keys first appear, and the ordering of groups. -/

namespace RecordQuery

/-- Keys with what belongs to them, in order. -/
abbrev Grouped (α : Type) := List (List Value × α)

namespace Grouped

variable {α : Type}

/-- What belongs to the first key that equals this one. -/
def find? (groups : Grouped α) (key : List Value) : Option α :=
  (List.find? (fun group => equalItems key group.1) groups).map (·.2)

/-- Groups filed under the digests of their keys. -/
def file (groups : Grouped α) : Filing (List DigestItem) (List Value × α) :=
  Filing.ofList (fun group => tupleDigest group.1) groups

/-- What belongs to the first of the filed keys that equals this one. -/
def findFiled? (filing : Filing (List DigestItem) (List Value × α)) (key : List Value) : Option α :=
  (filing.find? (tupleDigest key) (fun group => equalItems key group.1)).map (·.2)

theorem findFiled?_file (groups : Grouped α) (key : List Value) : findFiled? groups.file key = groups.find? key := by
  rw [findFiled?, file, Filing.find?_ofList, find?]
  exact fun group equal => (tupleDigest_eq_of_equal _ _ equal).symm

/-- Changes what belongs to the first key that equals this one; a key that equals none goes behind the others with what
is its own. -/
def put (groups : Grouped α) (key : List Value) (own : α) (change : α → α) : Grouped α :=
  match groups with
  | [] => [(key, own)]
  | (found, value) :: rest =>
    if equalItems key found then (found, change value) :: rest else (found, value) :: put rest key own change

/-- The key is found by its place. -/
theorem put_eq (groups : Grouped α) (key : List Value) (own : α) (change : α → α) :
    groups.put key own change =
      match groups.findIdx? fun group => equalItems key group.1 with
      | some place => groups.modify place fun (key, value) => (key, change value)
      | none => groups ++ [(key, own)] := by
  induction groups with
  | nil => rfl
  | cons group rest ih =>
    rw [put, List.findIdx?_cons]
    split
    · rfl
    · rw [ih]
      cases List.findIdx? (fun group => equalItems key group.1) rest <;> rfl

theorem map_put {β : Type} (groups : Grouped α) (key : List Value) {own : α} {change : α → α} {shown : α → β}
    {change' : β → β} (hom : ∀ value, shown (change value) = change' (shown value)) :
    (groups.put key own change).map (fun (key, value) => (key, shown value)) =
      Grouped.put (groups.map fun (key, value) => (key, shown value)) key (shown own) change' := by
  induction groups with
  | nil => rfl
  | cons group rest ih =>
    rw [put, List.map_cons, put]
    split
    · simp [hom]
    · simp [ih]

/-- Puts a row into the first group whose key equals its own, or into a group of its own behind the others. -/
def add (groups : Grouped (List Value)) (key : List Value) (row : Value) : Grouped (List Value) :=
  groups.put key [row] (· ++ [row])

/-- Replaces what belongs to the first key that equals this one, which stays as it was written, or enters the key. -/
def insert (groups : Grouped α) (key : List Value) (value : α) : Grouped α := groups.put key value fun _ => value

end Grouped

/-- Keys with what belongs to them, in the order in which they first appear, and the places of the keys filed under
their labels. -/
structure GroupTable {κ : Type} [BEq κ] [Hashable κ] (label : List Value → κ) (α : Type) where
  groups : Array (List Value × α)
  places : Filing κ (List Value × Nat)
  filed : ∀ asked, places.under asked =
    (groups.toList.map (·.1)).zipIdx.filter fun key => label key.1 == asked

namespace GroupTable

variable {κ α : Type} [BEq κ] [Hashable κ] [LawfulBEq κ] [LawfulHashable κ]

def empty (label : List Value → κ) : GroupTable label α := ⟨#[], ∅, fun asked => by simp [Filing.under]⟩

variable {label : List Value → κ}

def entries (table : GroupTable label α) : Grouped α := table.groups.toList

/-- The place of the first key that equals this one. -/
def place? (table : GroupTable label α) (key : List Value) : Option Nat :=
  (table.places.find? (label key) fun found => equalItems key found.1).map (·.2)

private theorem keys_modify (groups : Array (List Value × α)) (place : Nat) (change : α → α) :
    (groups.modify place fun (key, value) => (key, change value)).toList.map (·.1) = groups.toList.map (·.1) := by
  rw [Array.toList_modify]
  generalize groups.toList = groups
  induction groups generalizing place with
  | nil => simp
  | cons group rest ih => cases place <;> simp [ih]

/-- Changes what belongs to a key, which is entered if there is none that it equals. -/
def put (table : GroupTable label α) (key : List Value) (own : α) (change : α → α) : GroupTable label α :=
  match table.place? key with
  | some place =>
    { groups := table.groups.modify place fun (key, value) => (key, change value)
      places := table.places
      filed := fun asked => by rw [table.filed, keys_modify] }
  | none =>
    let place := table.groups.size
    { groups := table.groups.push (key, own)
      places := table.places.fileLast (label key) (key, place)
      filed := fun asked => by
        simp only [Filing.under_fileLast, table.filed, Array.toList_push, List.map_append, List.zipIdx_append,
          List.filter_append]
        by_cases own : label key = asked <;> simp [own, place] }

omit [LawfulHashable κ] in
/-- Looking under the label alone finds what looking at all keys finds. -/
theorem place?_eq (sound : ∀ a b, equalItems a b = true → label a = label b) (table : GroupTable label α)
    (key : List Value) : table.place? key = table.entries.findIdx? fun group => equalItems key group.1 := by
  have under (found : List Value × Nat) (equal : equalItems key found.1 = true) : label found.1 = label key :=
    (sound _ _ equal).symm
  rw [place?, Filing.find?, table.filed, Filing.find?_filter_label under, entries,
    ← List.findIdx?_eq_fst_find?_zipIdx, List.findIdx?_map]
  rfl

theorem entries_put (sound : ∀ a b, equalItems a b = true → label a = label b) (table : GroupTable label α)
    (key : List Value) (own : α) (change : α → α) :
    (table.put key own change).entries = table.entries.put key own change := by
  rw [Grouped.put_eq, ← place?_eq sound, put]
  split
  · rw [entries, Array.toList_modify, entries]
  · simp [entries]

/-- The rows of each key, opened as the rows come. -/
def ofPairs (label : List Value → κ) (pairs : List (List Value × Value)) : GroupTable label (Array Value) :=
  pairs.foldl (fun table pair => table.put pair.1 #[pair.2] (·.push pair.2)) (empty label)

/-- The groups of a table of rows. -/
def toGrouped (table : GroupTable label (Array Value)) : Grouped (List Value) :=
  table.entries.map fun (key, rows) => (key, rows.toList)

/-- The labels only save looking: the groups are those that looking at all keys makes. -/
theorem toGrouped_ofPairs (sound : ∀ a b, equalItems a b = true → label a = label b)
    (pairs : List (List Value × Value)) :
    (ofPairs label pairs).toGrouped = pairs.foldl (fun groups pair => Grouped.add groups pair.1 pair.2) [] := by
  refine (List.foldl_hom toGrouped fun table pair => ?_).symm
  rw [toGrouped, toGrouped, entries_put sound, Grouped.add]
  exact (Grouped.map_put _ _ fun rows => Array.toList_push ..).symm

end GroupTable

namespace Grouped

/-- A group for each key, with its rows; the keys are told apart under their digests. -/
def ofPairs (pairs : List (List Value × Value)) : Grouped (List Value) :=
  (GroupTable.ofPairs tupleDigest pairs).toGrouped

theorem ofPairs_eq (pairs : List (List Value × Value)) :
    ofPairs pairs = pairs.foldl (fun (groups : Grouped (List Value)) pair => groups.add pair.1 pair.2) [] :=
  GroupTable.toGrouped_ofPairs tupleDigest_eq_of_equal pairs

/-- Enters keys one after the other, each with what belongs to it. -/
def insertAll (groups : Grouped α) : Grouped α :=
  (groups.foldl (fun table group => table.put group.1 group.2 fun _ => group.2) (GroupTable.empty tupleDigest)).entries

theorem insertAll_eq (groups : Grouped α) :
    insertAll groups = groups.foldl (fun (entered : Grouped α) group => entered.insert group.1 group.2) [] :=
  (List.foldl_hom GroupTable.entries fun table group =>
    (table.entries_put tupleDigest_eq_of_equal group.1 group.2 fun _ => group.2).symm).symm

end Grouped

/-- The key of a row. -/
def groupKey (expressions : List Meaning) (environment : Environment) (frame : Frame) (row : Value) :
    EvalM (List Value) :=
  expressions.mapM fun expression =>
    EvalM.inside ("group by " ++ expression.text) (expression.evaluate environment (frame.onRow row))

/-- Rows with their keys, worked out in turn. -/
def withKeys (expressions : List Meaning) (environment : Environment) (frame : Frame) :
    List Value → EvalM (List (List Value × Value))
  | [] => return []
  | row :: rest => do
    let key ← groupKey expressions environment frame row
    return (key, row) :: (← withKeys expressions environment frame rest)

/-- The rows, grouped. -/
def groupRows (expressions : List Meaning) (environment : Environment) (frame : Frame) (rows : List Value) :
    EvalM (Grouped (List Value)) :=
  Grouped.ofPairs <$> withKeys expressions environment frame rows

/-- The sort sources of GROUP BY ORDER BY: an entry that repeats the text of a grouping expression stands for its
place in the key. -/
def groupSources (groupBy : List Meaning) :
    List (OrderBy Meaning) → Except Error (List (SortSource × Direction))
  | [] => .ok []
  | order :: rest => do
    let source ← match order.key with
      | .column number =>
        if 1 ≤ number ∧ number ≤ groupBy.length then .ok (.position (number - 1))
        else .error (.invalidStatement (.groupColumnRange number groupBy.length))
      | .expression meaning =>
        match groupBy.findIdx? (·.text == meaning.text) with
        | some place => .ok (.position place)
        | none => .ok (.expression meaning)
    return (source, order.direction) :: (← groupSources groupBy rest)

/-- The sort keys of a group: its key is the row at hand, its members are the rows. -/
def groupSortKeys (entries : List (SortSource × Direction)) (environment : Environment) (frame : Frame)
    (group : List Value × List Value) : EvalM (List Value) :=
  let frame := { frame with row := some (.list group.1), rows := group.2, groupKey := some group.1 }
  entries.mapM fun (source, _) =>
    match source with
    | .position place => pure ((group.1[place]?).getD .null)
    | .expression meaning =>
      EvalM.inside ("group order by " ++ meaning.text) (meaning.evaluate environment frame)

/-- The order of two lists of keys, each key in its direction. -/
def compareKeys : List Direction → List Value → List Value → Ordering
  | direction :: directions, a :: as, b :: bs => (direction.apply (a.compare b)).then (compareKeys directions as bs)
  | _, _, _ => .eq

/-- The keys of groups in their order; equal ones stay in the order they came in. -/
def sortGroups (entries : List (SortSource × Direction)) (environment : Environment) (frame : Frame)
    (groups : Grouped (List Value)) : EvalM (List (List Value)) := do
  let keyed ← groups.mapM fun group => return (group.1, ← groupSortKeys entries environment frame group)
  let directions := entries.map (·.2)
  return (sortStably (fun a b => compareKeys directions a.2 b.2) keyed).map (·.1)

end RecordQuery
