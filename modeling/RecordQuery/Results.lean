import RecordQuery.Statement.Grouping
/-! What an execution gives back: the results, the rows that were left after each filter, groups, save values, and
the time that each stage took. -/

namespace RecordQuery

inductive Stage where
  | executeOnAll
  | filter
  | executeOnResults
  | having
  | groupBy
  | orderBy
  | limit
  | select
deriving DecidableEq

def Stage.text : Stage → String
  | executeOnAll => "execute on all"
  | filter => "where"
  | executeOnResults => "execute on results"
  | having => "having"
  | groupBy => "group by"
  | orderBy => "order by"
  | limit => "limit"
  | select => "select"

structure Timing where
  stage : Stage
  elapsed : Nat

structure Results where
  rows : List Value
  filtered : List Value
  having : List Value
  groups : Option (Grouped (List Value))
  saves : NameTable Value
  groupSaves : Option (Grouped (NameTable Value))
  timings : List Timing

/-- A save value as it was at the end of the execution. -/
def Results.saveValue? (results : Results) (name : String) : Option Value :=
  results.saves.get? (normalizeName name)

/-- The last reading of a clock, and the times taken so far. -/
structure Stopwatch where
  clock : Option (Nat → Nat)
  last : Nat
  timings : List Timing

namespace Stopwatch

/-- The next reading of a clock. -/
def readClock (clock : Nat → Nat) : EvalM Nat := do
  let reading := (← get).readings + 1
  modify fun world => { world with readings := reading }
  return clock reading

def start (clock : Option (Nat → Nat)) : EvalM Stopwatch := do
  match clock with
  | some shows => return ⟨clock, ← readClock shows, []⟩
  | none => return ⟨none, 0, []⟩

/-- Notes the time since the last reading; a clock that goes back takes none. -/
def lap (watch : Stopwatch) (stage : Stage) : EvalM Stopwatch := do
  match watch.clock with
  | some shows =>
    let now ← readClock shows
    return { watch with last := now, timings := watch.timings ++ [⟨stage, now - watch.last⟩] }
  | none => return watch

end Stopwatch

end RecordQuery
