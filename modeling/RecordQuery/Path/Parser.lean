import RecordQuery.Error
import RecordQuery.Number.Reading
import RecordQuery.Path.Basic
import RecordQuery.Text.Blank
import RecordQuery.Text.Letter
/-! Reading accessor paths: a name or a bracket, then brackets and names after dots, blanks allowed around the
parts. A fault is placed by the characters left where it was found. -/

namespace RecordQuery

/-- What cannot be read, and the characters from there on. -/
structure PathProblem where
  fault : PathFault
  rest : List Char

/-- Letters, numerals, `_` and `$` make up names. -/
def isNameChar (c : Char) : Bool := isAlphanumeric c || c == '_' || c == '$'

/-- Closes a bracket around a segment. -/
def closeBracket (segment : Segment) (chars : List Char) : Except PathProblem (Segment × List Char) :=
  match chars.dropWhile isBlank with
  | ']' :: rest => .ok (segment, rest)
  | rest => .error ⟨.closingExpected, rest⟩

/-- The segment of a bracket's bare literal: an index if it is an integer of 64 bits, a key otherwise. -/
def literalSegment (literal : String) : Segment :=
  match readInt64? literal with
  | some i => .index i
  | none => .key literal

/-- Reads a bracket from behind its opening: a quoted key, or the literal up to the closing. -/
def readBracket (chars : List Char) : Except PathProblem (Segment × List Char) :=
  match chars.dropWhile isBlank with
  | [] => .error ⟨.openBrackets, []⟩
  | first :: rest =>
    if first = '\'' ∨ first = '"' then
      match rest.dropWhile (· != first) with
      | [] => .error ⟨.openString, []⟩
      | _ :: after => closeBracket (.key (String.ofList (rest.takeWhile (· != first)))) after
    else
      let literal := trimBlanks ((first :: rest).takeWhile (· != ']'))
      let after := (first :: rest).dropWhile (· != ']')
      if literal.isEmpty then .error ⟨.emptyBrackets, after⟩
      else closeBracket (literalSegment (String.ofList literal)) after

theorem length_dropWhile_le {α : Type} (p : α → Bool) (items : List α) :
    (items.dropWhile p).length ≤ items.length :=
  (List.dropWhile_suffix p).length_le

theorem closeBracket_length {segment found : Segment} {chars rest : List Char}
    (closed : closeBracket segment chars = .ok (found, rest)) : rest.length < chars.length := by
  unfold closeBracket at closed
  split at closed
  · rename_i after same
    have bound := length_dropWhile_le isBlank chars
    rw [same] at bound
    cases closed
    simp only [List.length_cons] at bound
    omega
  · cases closed

theorem readBracket_length {segment : Segment} {chars rest : List Char}
    (read : readBracket chars = .ok (segment, rest)) : rest.length < chars.length := by
  unfold readBracket at read
  split at read
  · cases read
  · rename_i first after same
    have bound := length_dropWhile_le isBlank chars
    rw [same] at bound
    split at read
    · split at read
      · cases read
      · rename_i quote behind found
        have inner := length_dropWhile_le (· != first) after
        rw [found] at inner
        have closed := closeBracket_length read
        simp only [List.length_cons] at *
        omega
    · dsimp only at read
      split at read
      · cases read
      · have inner := length_dropWhile_le (· != ']') (first :: after)
        have closed := closeBracket_length read
        simp only [List.length_cons] at *
        omega

set_option linter.unusedVariables false in
/-- Reads the brackets and dotted names that follow a first segment. -/
def readContinuation (chars : List Char) : Except PathProblem (List Segment) :=
  match behind : chars.dropWhile isBlank with
  | [] => .ok []
  | c :: rest =>
    if c = '[' then
      match read : readBracket rest with
      | .error problem => .error problem
      | .ok (segment, after) => (readContinuation after).map (segment :: ·)
    else if c = '.' then
      let named := rest.dropWhile isBlank
      if (named.takeWhile isNameChar).isEmpty then .error ⟨.nameExpected, named⟩
      else (readContinuation (named.dropWhile isNameChar)).map
        (.name (String.ofList (named.takeWhile isNameChar)) :: ·)
    else .error ⟨.unexpected c, c :: rest⟩
termination_by chars.length
decreasing_by
  · have bound := length_dropWhile_le isBlank chars
    have shorter := readBracket_length read
    rw [behind] at bound
    simp only [List.length_cons] at bound
    omega
  · have bound := length_dropWhile_le isBlank chars
    have blank := length_dropWhile_le isBlank rest
    have name := length_dropWhile_le isNameChar (rest.dropWhile isBlank)
    rw [behind] at bound
    simp only [List.length_cons] at bound
    omega

/-- Reads the segments of a whole path. -/
def readSegments (chars : List Char) : Except PathProblem (List Segment) :=
  match chars.dropWhile isBlank with
  | [] => .error ⟨.empty, []⟩
  | c :: rest =>
    if isNameChar c then
      (readContinuation ((c :: rest).dropWhile isNameChar)).map
        (.name (String.ofList ((c :: rest).takeWhile isNameChar)) :: ·)
    else if c = '[' then readContinuation (c :: rest)
    else .error ⟨.unexpected c, c :: rest⟩

/-- Reads a path; a fault is placed by the number of bytes before it. -/
def AccessorPath.parse (text : String) : Except Error AccessorPath :=
  match readSegments text.toList with
  | .ok segments => .ok ⟨trim text, segments⟩
  | .error ⟨fault, rest⟩ =>
    .error (.invalidPath text fault (text.utf8ByteSize - (String.ofList rest).utf8ByteSize))

end RecordQuery
