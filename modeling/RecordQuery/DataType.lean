/-! The types that values, members and expressions can have. The type any stands for what is only known when a
value is at hand. -/

namespace RecordQuery

inductive DataType where
  | any
  | boolean
  | int32
  | int64
  | float64
  | string
  | dateTime
  | bytes
  | list
  | map
  | record (name : String)
deriving DecidableEq, Inhabited

namespace DataType

def isAny : DataType → Bool
  | any => true
  | _ => false

def isNumeric : DataType → Bool
  | int32 | int64 | float64 => true
  | _ => false

/-- Booleans and numbers. -/
def isPrimitive : DataType → Bool
  | boolean => true
  | type => type.isNumeric

/-- Lists and maps, which a bracket can look into. -/
def isContainer : DataType → Bool
  | list | map => true
  | _ => false

/-- Whether a value of the other type can stand where this one is declared. -/
def accepts (declared given : DataType) : Bool := declared.isAny || declared == given

def recordName? : DataType → Option String
  | record name => some name
  | _ => none

def text : DataType → String
  | any => "Any"
  | boolean => "Boolean"
  | int32 => "Int32"
  | int64 => "Int64"
  | float64 => "Float64"
  | string => "String"
  | dateTime => "DateTime"
  | bytes => "Bytes"
  | list => "List"
  | map => "Map"
  | record name => name

end DataType

end RecordQuery
