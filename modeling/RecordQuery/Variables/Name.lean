import RecordQuery.Text.Case
/-! Names of variables: upper and lower case are one, a few names have a meaning of their own, and variables
without a name are numbered. -/

namespace RecordQuery

/-- The names with a meaning of their own. -/
def reservedNames : List String := ["_query", "_currobj", "_allobjs", "_parent", "_grpby", "_grpbys"]

/-- Whether a name is reserved, in whatever ASCII case. -/
def isReserved (name : String) : Bool := reservedNames.contains (name.map Char.toLower)

/-- The spelling under which a variable is kept. -/
def normalizeName (name : String) : String := lowerCase name

/-- The name of the variable without a name that comes at this place, counted from one. -/
def anonymousName (place : Nat) : String := "?" ++ toString place

end RecordQuery
