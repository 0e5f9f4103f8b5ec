import RecordQuery.Number.Rounding
import RecordQuery.Record.Type
/-! The values that statements work on, records among them, and what can be asked of a value of any kind. -/

namespace RecordQuery

/-- The contents of a record: every declared member of its type with a value. A record may name the member it has
its natural order from. -/
structure RecordOf (α : Type) where
  typeName : String
  fields : List (Member × α)
  orderedBy : Option String

inductive Value where
  | null
  | boolean (flag : Bool)
  | int32 (number : Int32)
  | int64 (number : Int64)
  | float64 (number : Double)
  | string (text : String)
  /-- A point in time, in milliseconds. -/
  | dateTime (milliseconds : Int64)
  | bytes (data : List UInt8)
  | list (items : List Value)
  /-- The entries of a map, in the order of their keys. -/
  | map (entries : List (Value × Value))
  | object (record : RecordOf Value)
deriving Inhabited

abbrev Record := RecordOf Value

/-- The value of a declared member. -/
def RecordOf.get? {α : Type} (record : RecordOf α) (name : String) : Option α :=
  (record.fields.find? (·.1.name == name)).map (·.2)

def RecordOf.type {α : Type} (record : RecordOf α) : RecordType :=
  ⟨record.typeName, record.fields.map (·.1)⟩

namespace Value

def isNull : Value → Bool
  | null => true
  | _ => false

def isNumeric : Value → Bool
  | int32 _ | int64 _ | float64 _ => true
  | _ => false

/-- The type of a value; null has none. -/
def dataType? : Value → Option DataType
  | null => none
  | boolean _ => some .boolean
  | int32 _ => some .int32
  | int64 _ => some .int64
  | float64 _ => some .float64
  | string _ => some .string
  | dateTime _ => some .dateTime
  | bytes _ => some .bytes
  | list _ => some .list
  | map _ => some .map
  | object record => some (.record record.typeName)

/-- The type of a value, any for null. -/
def dataType (value : Value) : DataType := value.dataType?.getD .any

/-- The integer a value of an integer kind holds. -/
def integer? : Value → Option Int64
  | int32 i => some i.toInt64
  | int64 i => some i
  | _ => none

/-- A number as a double, rounded if it has to be. -/
def toDouble? : Value → Option Double
  | int32 i => some (.ofInt i.toInt)
  | int64 i => some (.ofInt i.toInt)
  | float64 x => some x
  | _ => none

/-- The exact value of a number. -/
def exactValue? : Value → Option Exact
  | int32 i => some (.ofInt i.toInt)
  | int64 i => some (.ofInt i.toInt)
  | float64 x => some x.exact
  | _ => none

/-- Null is false, a boolean is itself, a number is true above zero, all else is true. -/
def isTruthy : Value → Bool
  | null => false
  | boolean b => b
  | int32 i => 0 < i.toInt
  | int64 i => 0 < i.toInt
  | float64 x => x.isPositive
  | _ => true

/-- Items of a container, characters of a text. -/
def length? : Value → Option Nat
  | string s => some s.length
  | bytes data => some data.length
  | list items => some items.length
  | map entries => some entries.length
  | _ => none

end Value

end RecordQuery
