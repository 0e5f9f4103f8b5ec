import RecordQuery.Proofs.Evaluation.Carrying
import RecordQuery.Proofs.Evaluation.View
import RecordQuery.Proofs.Meaning.Conduct
/-! Computations that come out the same when a part of what they are about is varied: the rows around the row at hand,
say, or the text of the statement. -/

namespace RecordQuery

open EvalM

/-- A way in which what an evaluation is about can be varied, by what it is varied to. -/
structure Frame.Variation where
  Index : Type
  vary : Index → Frame → Frame
  own (frame : Frame) : ∃ index, vary index frame = frame
  scope (index : Index) (frame : Frame) : (vary index frame).scope = frame.scope
  /-- A change of something else leaves it a variation. -/
  shifts {change : Frame → Frame} (shifts : Frame.Shifts change) (index : Index) (frame : Frame) :
    ∃ index', change (vary index frame) = vary index' (change frame)

namespace Frame.Variation

/-- The row at hand is among other rows. -/
def rows : Frame.Variation where
  Index := List Value
  vary rows frame := { frame with rows }
  own frame := ⟨frame.rows, rfl⟩
  scope _ _ := rfl
  shifts shifts rows frame := shifts.rows frame rows

/-- The statement has another text. -/
def text : Frame.Variation where
  Index := String
  vary statementText frame := { frame with statementText }
  own frame := ⟨frame.statementText, rfl⟩
  scope _ _ := rfl
  shifts shifts text frame := ⟨text, shifts.statementText frame text⟩

/-- The row at hand is in another group, or in none, and the statement has another text. -/
def group : Frame.Variation where
  Index := Option (List Value) × String
  vary | (groupKey, statementText), frame => { frame with groupKey, statementText }
  own frame := ⟨(frame.groupKey, frame.statementText), rfl⟩
  scope _ _ := rfl
  shifts := by
    rintro change shifts ⟨key, text⟩ frame
    obtain ⟨key', same⟩ := shifts.groupKey frame key
    exact ⟨(key', text), (shifts.statementText { frame with groupKey := key } text).trans (by rw [same])⟩

end Frame.Variation

/-- The variables of a scope are these, and what is remembered is valid. -/
structure World.Holds (scope : Scope) (binds saves : NameTable Value) (valid : Memory → Prop) (world : World) :
    Prop where
  binds : world.heap.Binds scope binds
  saves : world.saves scope = saves
  memory : valid world.memory

theorem World.Holds.mono {scope : Scope} {binds saves : NameTable Value} {valid valid' : Memory → Prop} {world : World}
    (holds : world.Holds scope binds saves valid) (weaker : ∀ memory, valid memory → valid' memory) :
    world.Holds scope binds saves valid' :=
  ⟨holds.binds, holds.saves, weaker _ holds.memory⟩

/-- Numbering a variable leaves the variables as they are. -/
theorem World.Holds.numbered {scope : Scope} {binds saves : NameTable Value} {valid : Memory → Prop} {world : World}
    (holds : world.Holds scope binds saves valid) {memory : Memory} (remembered : valid memory) :
    World.Holds scope binds saves valid { world with heap := (world.heap.nextAnonymous scope).2, memory } :=
  ⟨holds.binds.numbered, (world.heap.table_nextAnonymous scope .save).trans holds.saves, remembered⟩

/-- With given variables, a computation has one outcome however what it is about is varied, and leaves the variables as
they are. -/
def Conduct.unvarying (variation : Frame.Variation) (scope : Scope) (binds saves : NameTable Value)
    (valid : Memory → Prop) : Conduct where
  Of run := ∀ frame : Frame, frame.scope = scope → ∃ outcome, ∀ index world, world.Holds scope binds saves valid →
    ∃ left, left.Holds scope binds saves valid ∧ run (variation.vary index frame) world = EvalM.ofExcept outcome left
  pure value frame _ := ⟨.ok value, fun _ world holds => ⟨world, holds, rfl⟩⟩
  throw error frame _ := ⟨.error error, fun _ world holds => ⟨world, holds, rfl⟩⟩
  bindReturned := by
    intro α β property first next head returned rest frame inside
    obtain ⟨outcome, head⟩ := head frame inside
    cases outcome with
    | error error =>
      refine ⟨.error error, fun index world holds => ?_⟩
      obtain ⟨left, holds', ran⟩ := head index world holds
      exact ⟨left, holds', bind_of_error ran⟩
    | ok value =>
      by_cases allowed : property value
      · obtain ⟨outcome, later⟩ := rest value allowed frame inside
        refine ⟨outcome, fun index world holds => ?_⟩
        obtain ⟨middle, holds', ran⟩ := head index world holds
        obtain ⟨left, holds'', ended⟩ := later index middle holds'
        exact ⟨left, holds'', (bind_of_ok ran).trans ended⟩
      · -- A value that is never returned is the outcome only where no world has these variables.
        refine ⟨.error (noSuchFunction ""), fun index world holds => ?_⟩
        obtain ⟨left, -, ran⟩ := head index world holds
        exact absurd (returned _ _ _ _ ran) allowed
  recast := by
    intro α β run change part frame inside
    obtain ⟨outcome, constant⟩ := part frame inside
    refine ⟨change outcome, fun index world holds => ?_⟩
    obtain ⟨left, holds', ran⟩ := constant index world holds
    refine ⟨left, holds', ?_⟩
    cases outcome <;> simp only [EvalM.recast, ran] <;> rfl
  about := by
    intro α run change shifts part frame inside
    obtain ⟨outcome, constant⟩ := part (change frame) (by rw [shifts.scope, inside])
    refine ⟨outcome, fun index world holds => ?_⟩
    obtain ⟨index', same⟩ := variation.shifts shifts index frame
    obtain ⟨left, holds', ran⟩ := constant index' world holds
    exact ⟨left, holds', (congrArg (run · world) same).trans ran⟩

section Unvarying

variable {variation : Frame.Variation} {scope : Scope} {binds saves : NameTable Value} {valid : Memory → Prop}

theorem Conduct.unvarying_within (variation : Frame.Variation) (scope : Scope) (binds saves : NameTable Value)
    (valid : Memory → Prop) : (Conduct.unvarying variation scope binds saves valid).Within valid where
  congr same part frame inside := by
    obtain ⟨outcome, constant⟩ := part frame inside
    refine ⟨outcome, fun index world holds => ?_⟩
    rw [same _ world holds.memory]
    exact constant index world holds
  constantly outcome constant frame _ := by
    refine ⟨outcome, fun index world holds => ?_⟩
    obtain ⟨memory, left, ran⟩ := constant (variation.vary index frame) world holds.memory
    exact ⟨{ world with memory }, ⟨holds.binds, holds.saves, left⟩, ran⟩
  bindConstantly constant rest frame inside := by
    obtain ⟨outcome, later⟩ := rest frame inside
    refine ⟨outcome, fun index world holds => ?_⟩
    obtain ⟨memory, left, ran⟩ := constant (variation.vary index frame) world holds.memory
    obtain ⟨left', holds', ended⟩ := later index { world with memory := memory } ⟨holds.binds, holds.saves, left⟩
    exact ⟨left', holds', (bind_of_ok ran).trans ended⟩

theorem Conduct.unvarying_on {own : NodeState → Prop} {below : Branch → Memory → Prop} {branch : Branch} {α : Type}
    {run : Frame → EvalM α} (part : (Conduct.unvarying variation scope binds saves (below branch)).Of run) :
    (Conduct.unvarying variation scope binds saves (Memory.Within own below)).Of fun frame =>
      (run frame).on branch := by
  intro frame inside
  obtain ⟨outcome, constant⟩ := part frame inside
  refine ⟨outcome, fun index world holds => ?_⟩
  obtain ⟨left, holds', ran⟩ := constant index (world.down branch) ⟨holds.binds, holds.saves, holds.memory.2 branch⟩
  refine ⟨{ left with memory := world.memory.setChild branch left.memory },
    ⟨holds'.binds, holds'.saves, holds.memory.setChild holds'.memory⟩, ?_⟩
  cases outcome <;> simp only [EvalM.on, ran] <;> rfl

/-- A bind variable that does not vary has the value that it has now. -/
theorem bindValue_unvarying {name : String}
    (same : ∀ index frame, Meaning.bindValue name (variation.vary index frame) = Meaning.bindValue name frame) :
    (Conduct.unvarying variation scope binds saves valid).Of (Meaning.bindValue name) := by
  rintro frame rfl
  have given (value : Value) (reads : Meaning.bindValue name frame = pure value) :
      ∃ outcome, ∀ index world, world.Holds frame.scope binds saves valid →
        ∃ left, left.Holds frame.scope binds saves valid ∧
          Meaning.bindValue name (variation.vary index frame) world = EvalM.ofExcept outcome left := by
    refine ⟨.ok value, fun index world holds => ⟨world, holds, ?_⟩⟩
    rw [same, reads]
    rfl
  by_cases reserved : name ∈ reservedNames
  · obtain ⟨value, known⟩ := Meaning.bindValue_of_reserved reserved frame
    exact given value known
  · refine ⟨.ok ((binds.get? (normalizeName name)).getD .null), fun index world holds => ⟨world, holds, ?_⟩⟩
    rw [same, ← holds.binds.binds, Meaning.bindValue_of_other reserved]
    rfl

theorem saveValue_unvarying (name : String) :
    (Conduct.unvarying variation scope binds saves valid).Of fun frame =>
      EvalM.readHeap (·.saveValue? frame.scope name) := by
  rintro frame rfl
  refine ⟨.ok (saves.get? (normalizeName name)), fun index world holds => ⟨world, holds, ?_⟩⟩
  change EvalM.readHeap (·.saveValue? (variation.vary index frame).scope name) world = _
  rw [← holds.saves, variation.scope]
  rfl

end Unvarying

/-- What is about one frame is about another that varies it. -/
theorem unvarying_carries {variation : Frame.Variation} {scope : Scope} {binds saves : NameTable Value}
    {valid : Memory → Prop} {α : Type} {run : Frame → EvalM α}
    (part : (Conduct.unvarying variation scope binds saves valid).Of run) {frame : Frame} (inside : frame.scope = scope)
    (index : variation.Index) :
    Carries (Both (World.Holds scope binds saves valid)) (run frame) (run (variation.vary index frame)) Eq := by
  rintro world world' value left ⟨begins, begins'⟩ ran
  obtain ⟨outcome, constant⟩ := part frame inside
  obtain ⟨own, unvaried⟩ := variation.own frame
  obtain ⟨last, ends, same⟩ := constant own world begins
  obtain ⟨last', ends', same'⟩ := constant index world' begins'
  rw [unvaried, ran] at same
  cases outcome with
  | error error => cases same
  | ok found =>
    cases same
    exact ⟨value, last', same', ⟨ends, ends'⟩, rfl⟩

/-- Worlds are alike however often a clock has been read in them. -/
def World.Timeless (alike : World → World → Prop) : Prop :=
  ∀ ⦃world world'⦄, alike world world' → ∀ readings readings',
    alike { world with readings } { world' with readings := readings' }

/-- What conducts itself so carries over from one frame to another one over the same rows, from worlds that are alike. -/
structure Conduct.CarriesOver (conduct : Conduct) (alike : World → World → Prop) (frame frame' : Frame) : Prop where
  rows : frame'.rows = frame.rows
  carries {α : Type} {run : Frame → EvalM α} (part : conduct.Of run) : Carries alike (run frame) (run frame') Eq
  timed : World.Timeless alike

theorem Conduct.unvarying_carriesOver {variation : Frame.Variation}
    (leaves : ∀ index frame, (variation.vary index frame).rows = frame.rows) {scope : Scope}
    {binds saves : NameTable Value} {valid : Memory → Prop} {frame : Frame} (inside : frame.scope = scope)
    (index : variation.Index) :
    (Conduct.unvarying variation scope binds saves valid).CarriesOver (Both (World.Holds scope binds saves valid)) frame
      (variation.vary index frame) where
  rows := leaves index frame
  carries part := unvarying_carries part inside index
  timed _ _ same _ _ := ⟨⟨same.1.binds, same.1.saves, same.1.memory⟩, ⟨same.2.binds, same.2.saves, same.2.memory⟩⟩

/-- What agrees carries over about the same frame. -/
theorem Conduct.agrees_carriesOver {related : World → World → Prop} {scopes : Scope → Prop} {frame : Frame}
    (inside : scopes frame.scope) (timed : World.Timeless related) :
    (Conduct.agrees related scopes).CarriesOver related frame frame where
  rows := rfl
  carries part := (part frame inside).carries
  timed := timed

end RecordQuery
