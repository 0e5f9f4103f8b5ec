import RecordQuery.Text.CaseTable
import RecordQuery.Text.Letter
/-! Case mappings. Folding maps each character alone; lower case of a whole text also writes a capital sigma that
ends a word in its final form. -/

namespace RecordQuery

/-- The code point a run of mappings gives for `n`, if the run has it. -/
def CaseRun.target? (run : CaseRun) (n : Nat) : Option Nat :=
  if run.first ≤ n ∧ n ≤ run.last ∧ (n - run.first) % run.step = 0 then some ((n : Int) + run.shift).toNat
  else none

/-- The code point that runs in ascending order give for `n`, if one of them has it. -/
def CaseRun.find? : List CaseRun → Nat → Option Nat
  | [], _ => none
  | run :: rest, n =>
    if n < run.first then none
    else match run.target? n with
      | some mapped => some mapped
      | none => find? rest n

/-- The mapped characters of `c`: its expansion, or its place in a run, or itself. -/
def mapCase (runs : List CaseRun) (expansions : List (Nat × List Nat)) (c : Char) : List Char :=
  match expansions.lookup c.toNat with
  | some codes => codes.map Char.ofNat
  | none => [((CaseRun.find? runs c.toNat).map Char.ofNat).getD c]

/-- The lower-case form of one character. -/
def lowerChar (c : Char) : List Char :=
  if c.toNat < 0x80 then [c.toLower] else mapCase lowerRuns lowerExpansions c

/-- The upper-case form of one character. -/
def upperChar (c : Char) : List Char :=
  if c.toNat < 0x80 then [c.toUpper] else mapCase upperRuns upperExpansions c

/-- The characters with each one in lower case, wherever it stands. -/
def foldChars (chars : List Char) : List Char := chars.flatMap lowerChar

/-- The text with each character in lower case, wherever it stands. -/
def foldCase (text : String) : String := String.ofList (foldChars text.toList)

def isCased (c : Char) : Bool :=
  if c.toNat < 0x80 then c.isAlpha else inRanges casedRanges c

def isCaseIgnorable (c : Char) : Bool :=
  if c.toNat < 0x80 then ['\'', '.', ':', '^', (Char.ofNat 0x60)].contains c else inRanges caseIgnorableRanges c

/-- Whether the first character that case rules do not look past is cased. -/
def meetsCased (chars : List Char) : Bool :=
  match chars.dropWhile isCaseIgnorable with
  | [] => false
  | c :: _ => isCased c

/-- The lower case of `chars`, given the characters before them, nearest first. -/
def lowerAfter (before : List Char) : List Char → List Char
  | [] => []
  | c :: rest =>
    let mapped :=
      if c = 'Σ' then if meetsCased before && !meetsCased rest then ['ς'] else ['σ'] else lowerChar c
    mapped ++ lowerAfter (c :: before) rest

/-- The whole text in lower case. -/
def lowerCase (text : String) : String := String.ofList (lowerAfter [] text.toList)

/-- The whole text in upper case. -/
def upperCase (text : String) : String := String.ofList (text.toList.flatMap upperChar)

end RecordQuery
