import RecordQuery.DataType
/-! What can go wrong, as causes, and the one wording of each. A cause is either found while a statement is being
resolved or met while rows are processed. -/

namespace RecordQuery

/-- Why a text is no accessor path. -/
inductive PathFault where
  | empty
  | nameExpected
  | unexpected (found : Char)
  | openString
  | emptyBrackets
  | openBrackets
  | closingExpected
deriving DecidableEq

def PathFault.message : PathFault → String
  | empty => "empty path"
  | nameExpected => "expected member name after '.'"
  | unexpected found => "unexpected '" ++ found.toString ++ "'"
  | openString => "unterminated string"
  | emptyBrackets => "empty brackets"
  | openBrackets => "unterminated brackets"
  | closingExpected => "expected ']'"

/-- Why a statement cannot be resolved or run. -/
inductive StatementFault where
  | notInitialized
  | sourceOutside
  | sourceMissing
  | groupClausesAlone
  | groupedReorder
  | accessorUnresolved (path : String)
  | functionUnresolved (call : String)
  | mixedSplice (spliced columns : Nat)
  | columnOfObjects
  | columnRange (column columns : Nat)
  | groupColumnRange (column columns : Nat)
deriving DecidableEq

def StatementFault.message : StatementFault → String
  | notInitialized => "statement is not initialized"
  | sourceOutside => "a FROM expression needs an enclosing statement"
  | sourceMissing => "sub-query has no FROM expression"
  | groupClausesAlone => "GROUP BY ORDER BY and GROUP BY LIMIT need a GROUP BY clause"
  | groupedReorder => "cannot reorder a grouped statement"
  | accessorUnresolved path => "accessor " ++ path ++ " used before initialization"
  | functionUnresolved call => "function " ++ call ++ " used before initialization"
  | mixedSplice spliced columns =>
    toString spliced ++ " of " ++ toString columns
      ++ " columns are spliced: either all columns or none must be"
  | columnOfObjects => "cannot order by column number when selecting objects"
  | columnRange column columns =>
    "order by column " ++ toString column ++ " is out of range 1..=" ++ toString columns
  | groupColumnRange column columns =>
    "group order by index " ++ toString column ++ " is out of range 1..=" ++ toString columns

/-- A failure: its cause, inside the places that it passed through. -/
inductive Error where
  /-- No member of the type answers to the segment. -/
  | unresolvedMember (segment typeName : String)
  /-- A bracket applied to a type that cannot be looked into with it. -/
  | invalidIndex (path index typeName : String)
  /-- A text that is no path, the fault found so many bytes into it. -/
  | invalidPath (path : String) (fault : PathFault) (position : Nat)
  | unresolvedFunction (name : String) (arity : Nat) (expression : String)
  | unresolvedConstructor (typeName expression : String)
  | invalidStatement (fault : StatementFault)
  /-- A variable name that starts like the reserved ones but is none of them. -/
  | reservedName (name : String)
  /-- A path step met a value it cannot be applied to. -/
  | accessorMismatch (path found : String)
  | function (name message : String)
  | construction (typeName message : String)
  | typeMismatch (expected got : DataType)
  /-- A failure inside the named place. -/
  | within (place : String) (source : Error)
deriving DecidableEq

namespace Error

def message : Error → String
  | unresolvedMember segment typeName =>
    "cannot resolve \x60" ++ segment ++ "\x60 on type " ++ typeName
  | invalidIndex path index typeName =>
    "invalid index \x60" ++ index ++ "\x60 in \x60" ++ path ++ "\x60: " ++ typeName ++ " does not support it"
  | invalidPath path fault position =>
    "invalid accessor path \x60" ++ path ++ "\x60: " ++ fault.message ++ " at position " ++ toString position
  | unresolvedFunction name arity expression =>
    "no function matches " ++ name ++ "/" ++ toString arity ++ " in \x60" ++ expression ++ "\x60"
  | unresolvedConstructor typeName expression =>
    "no constructor of " ++ typeName ++ " matches \x60" ++ expression ++ "\x60"
  | invalidStatement fault => "invalid statement: " ++ fault.message
  | reservedName name => "unknown reserved variable \x60" ++ name ++ "\x60"
  | accessorMismatch path found => "accessor \x60" ++ path ++ "\x60 cannot be applied to " ++ found
  | function name message => "function " ++ name ++ " failed: " ++ message
  | construction typeName message => "cannot construct " ++ typeName ++ ": " ++ message
  | typeMismatch expected got => "type mismatch: expected " ++ expected.text ++ ", got " ++ got.text
  | within place source => place ++ ": " ++ source.message

/-- The cause, without the places around it. -/
def root : Error → Error
  | within _ source => source.root
  | cause => cause

/-- Whether the cause is one that resolving a statement finds. -/
def isResolution (error : Error) : Bool :=
  match error.root with
  | unresolvedMember .. | invalidIndex .. | invalidPath .. | unresolvedFunction .. | unresolvedConstructor ..
  | invalidStatement .. | reservedName .. => true
  | accessorMismatch .. | function .. | construction .. | typeMismatch .. | within .. => false

@[simp] theorem root_within (place : String) (source : Error) : (within place source).root = source.root := rfl

@[simp] theorem isResolution_within (place : String) (source : Error) :
    (within place source).isResolution = source.isResolution := rfl

end Error

end RecordQuery
