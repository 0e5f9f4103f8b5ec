import RecordQuery.DataType
import RecordQuery.Text.Case
/-! Record types: a name and declared members, each a field, a getter or a method, with the rule by which a path
segment finds a member. -/

namespace RecordQuery

/-- How a record exposes a member. -/
inductive MemberKind where
  | field
  | getter
  | method
deriving DecidableEq

structure Member where
  name : String
  kind : MemberKind
  dataType : DataType
deriving DecidableEq

structure RecordType where
  name : String
  members : List Member
deriving DecidableEq

/-- The name of the getter for a property: `get`, then the property with its first letter in upper case. -/
def getterName (segment : String) : String :=
  match segment.toList with
  | [] => "get"
  | first :: rest => "get" ++ String.ofList (upperChar first ++ rest)

namespace RecordType

def empty (name : String) : RecordType := ⟨name, []⟩

/-- Declares a member last, in place of any of the same name. -/
def withMember (type : RecordType) (member : Member) : RecordType :=
  { type with members := type.members.filter (·.name != member.name) ++ [member] }

/-- The member of this name, of whatever kind. -/
def member? (type : RecordType) (name : String) : Option Member :=
  type.members.find? (·.name == name)

def find? (type : RecordType) (kind : MemberKind) (name : String) : Option Member :=
  type.members.find? fun member => member.kind == kind && member.name == name

/-- The member a path segment stands for: a field of that name, else its getter, else a method of that name. -/
def resolve? (type : RecordType) (segment : String) : Option Member :=
  (type.find? .field segment).or ((type.find? .getter (getterName segment)).or (type.find? .method segment))

end RecordType

end RecordQuery
