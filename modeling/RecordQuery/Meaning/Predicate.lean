import RecordQuery.Meaning.Basic
import RecordQuery.Value.Comparison
/-! Meanings of range, pattern and membership tests. What is the same for every row is worked out once: the bounds
of a range, and compiled patterns. -/

namespace RecordQuery

def NodeState.lower? : NodeState → Option Value
  | bounds lower _ => lower
  | _ => none

def NodeState.upper? : NodeState → Option Value
  | bounds _ upper => upper
  | _ => none

/-- The compiled pattern kept for a place. -/
def NodeState.pattern? (state : NodeState) (place : Nat) : Option LikePattern :=
  match state with
  | patterns compiled => compiled.lookup place
  | _ => none

/-- Keeps a compiled pattern for a place. -/
def NodeState.keepPattern (state : NodeState) (place : Nat) (pattern : LikePattern) : NodeState :=
  match state with
  | patterns compiled => patterns ((place, pattern) :: compiled)
  | _ => patterns [(place, pattern)]

namespace Meaning

/-- The value of a part, remembered at its first evaluation if the part is fixed. -/
def remembered (part : Meaning) (read : NodeState → Option Value) (write : Value → NodeState → NodeState)
    (environment : Environment) (frame : Frame) : EvalM Value := do
  if !part.isFixed (← get).memory then part.evaluate environment frame
  else
    match read (← EvalM.node) with
    | some kept => return kept
    | none =>
      let value ← part.evaluate environment frame
      EvalM.setNode (write value (← EvalM.node))
      return value

/-- Resolves the parts and forgets what was worked out before. -/
def prepareAnew (parts : List Meaning) (setting : Setting) : EvalM Unit := do
  forEach parts (·.prepare setting)
  EvalM.setNode .fresh

/-- A range test, both bounds included. -/
def between (negated : Bool) (subject lower upper : Meaning) : Meaning :=
  let text := subject.text ++ (if negated then " NOT" else "") ++ " BETWEEN " ++ lower.text ++ " AND " ++ upper.text
  let test := predicate text [subject, lower, upper] fun environment frame => do
    let value ← subject.evaluate environment frame
    let low ← remembered lower (·.lower?) (fun v state => .bounds (some v) state.upper?) environment frame
    let high ← remembered upper (·.upper?) (fun v state => .bounds state.lower? (some v)) environment frame
    return (CompareOp.ge.test (compareValues false value low) && CompareOp.le.test (compareValues false value high))
      != negated
  { test with prepare := prepareAnew [subject, lower, upper] }

/-- The pattern of a place: the one kept there, or one compiled from a text and then kept. -/
def keptPattern (place : Nat) (ignoreCase : Bool) (text : String) : EvalM LikePattern := do
  match (← EvalM.node).pattern? place with
  | some pattern => return pattern
  | none =>
    let pattern := LikePattern.compile text ignoreCase
    EvalM.setNode ((← EvalM.node).keepPattern place pattern)
    return pattern

/-- A pattern test. Neither a null subject nor a null pattern matches, negated or not. -/
def like (negated ignoreCase : Bool) (subject pattern : Meaning) : Meaning :=
  let text := subject.text ++ " " ++ (if negated then "NOT " else "") ++ (if ignoreCase then "$" else "")
    ++ "LIKE " ++ pattern.text
  let test := predicate text [subject, pattern] fun environment frame => do
    let value ← subject.evaluate environment frame
    if value.isNull then return false
    let fixed := pattern.isFixed (← get).memory
    match (← EvalM.node).pattern? 0, fixed with
    | some compiled, true => return compiled.accepts value.text != negated
    | _, _ =>
      let written ← pattern.evaluate environment frame
      if written.isNull then return false
      let compiled ←
        if fixed then keptPattern 0 ignoreCase written.text
        else pure (LikePattern.compile written.text ignoreCase)
      return compiled.accepts value.text != negated
  { test with prepare := prepareAnew [subject, pattern] }

/-- What an item of a list of alternatives contributes: its elements, its keys, or itself. -/
def alternatives : Value → List Value
  | .list items => items
  | .map entries => entries.map (·.1)
  | other => [other]

/-- How a membership test compares. -/
structure Membership where
  negated : Bool
  ignoreCase : Bool
  like : Bool
  all : Bool

/-- Whether the subject matches one alternative; the pattern of a fixed single item is kept at its place. -/
def Membership.hits (membership : Membership) (subject alternative : Value) (place : Option Nat) : EvalM Bool :=
  if !membership.like then
    pure (CompareOp.eq.test (compareValues membership.ignoreCase subject alternative))
  else if subject.isNull || alternative.isNull then pure false
  else do
    let pattern ← match place with
      | some place => keptPattern place membership.ignoreCase alternative.text
      | none => pure (LikePattern.compile alternative.text membership.ignoreCase)
    return pattern.accepts subject.text

/-- Goes through alternatives until one decides: a miss where all have to match, a hit otherwise. -/
def Membership.decideAmong (membership : Membership) (subject : Value) (place : Option Nat) :
    List Value → EvalM (Option Bool)
  | [] => return none
  | alternative :: rest => do
    let hit ← membership.hits subject alternative place
    let every := membership.all && !membership.negated
    if every && !hit then return some false
    else if !every && hit then return some true
    else membership.decideAmong subject place rest

/-- Goes through items until one decides; without a decision all or none have matched. -/
def Membership.decide (membership : Membership) (subject : Value) (environment : Environment) (frame : Frame) :
    List (Nat × Meaning) → EvalM Bool
  | [] => return membership.all && !membership.negated
  | (place, item) :: rest => do
    let value ← item.evaluate environment frame
    let scalar := match value with
      | .list _ | .map _ => false
      | _ => true
    let kept := if scalar && item.isFixed (← get).memory then some place else none
    match ← membership.decideAmong subject kept (alternatives value) with
    | some decision => return decision
    | none => membership.decide subject environment frame rest

/-- A membership test. -/
def among (membership : Membership) (subject : Meaning) (items : List Meaning) : Meaning :=
  let text := subject.text ++ " " ++ (if membership.negated then "NOT " else "")
    ++ (if membership.ignoreCase then "$" else "") ++ "IN " ++ (if membership.like then "LIKE " else "")
    ++ (if membership.all then "ALL " else "") ++ "(" ++ ", ".intercalate (items.map (·.text)) ++ ")"
  let test := predicate text (subject :: items) fun environment frame => do
    let value ← subject.evaluate environment frame
    return (← membership.decide value environment frame (items.mapIdx fun place item => (place, item)))
      != membership.negated
  { test with prepare := prepareAnew (subject :: items) }

end Meaning

end RecordQuery
