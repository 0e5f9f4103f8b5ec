/-! Tables from names to things, kept in the order of the names. -/

namespace RecordQuery

structure NameTable (α : Type) where
  entries : List (String × α)
deriving Inhabited

namespace NameTable

variable {α : Type}

def empty : NameTable α := ⟨[]⟩

def get? (table : NameTable α) (name : String) : Option α := table.entries.lookup name

def contains (table : NameTable α) (name : String) : Bool := (table.get? name).isSome

def size (table : NameTable α) : Nat := table.entries.length

/-- Puts an entry at its place among sorted entries, instead of one with the same name. -/
def insertEntry (name : String) (item : α) : List (String × α) → List (String × α)
  | [] => [(name, item)]
  | (other, old) :: rest =>
    if name = other then (name, item) :: rest
    else if name < other then (name, item) :: (other, old) :: rest
    else (other, old) :: insertEntry name item rest

/-- Sets the entry of a name. -/
def insert (table : NameTable α) (name : String) (item : α) : NameTable α :=
  ⟨insertEntry name item table.entries⟩

/-- Sets the entry of a name that has none. -/
def insertNew (table : NameTable α) (name : String) (item : α) : NameTable α :=
  if table.contains name then table else table.insert name item

/-- Adds the entries of another table under the names that have none here. -/
def merge (table other : NameTable α) : NameTable α :=
  other.entries.foldl (fun merged (name, item) => merged.insertNew name item) table

def ofList (entries : List (String × α)) : NameTable α :=
  entries.foldl (fun table (name, item) => table.insert name item) empty

theorem lookup_insertEntry (name : String) (item : α) (entries : List (String × α)) (asked : String) :
    (insertEntry name item entries).lookup asked = if asked = name then some item else entries.lookup asked := by
  induction entries with
  | nil => grind [insertEntry]
  | cons head rest ih =>
    obtain ⟨other, old⟩ := head
    grind [insertEntry]

/-- A name set gives what was set; every other name gives what it gave before. -/
theorem get?_insert (table : NameTable α) (name : String) (item : α) (asked : String) :
    (table.insert name item).get? asked = if asked = name then some item else table.get? asked :=
  lookup_insertEntry name item table.entries asked

end NameTable

end RecordQuery
