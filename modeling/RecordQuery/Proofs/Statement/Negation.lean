import RecordQuery.Meaning.Operator
import RecordQuery.Proofs.Statement.Ordering
import RecordQuery.Proofs.Value.Negation
/-! Ordering rows by the negation of a number. Two sorts whose keys compare in opposite orders, one ascending and the
other descending, decide every comparison alike, and so keep in step with each other whatever evaluating a key does to
the world. -/

namespace RecordQuery

/-- Two sorts in step: in worlds that are alike they remember corresponding keys, and no failure. -/
structure InStep (alike : World → World → Prop) (paired : Value → Value → Prop) (state : SortState) (world : World)
    (state' : SortState) (world' : World) : Prop where
  alike : alike world world'
  keys : ∀ spot : Nat × Nat, Option.Rel paired state.keys[spot]? state'.keys[spot]?
  failure : state.failure = none
  failure' : state'.failure = none

/-- Two sorting steps that keep in step, with related results. -/
def Alongside {α β : Type} (alike : World → World → Prop) (paired : Value → Value → Prop) (action : SortM α)
    (other : SortM β) (related : α → β → Prop) : Prop :=
  ∀ state world state' world', InStep alike paired state world state' world' →
    ∃ result later left result' later' left', related result result' ∧
      InStep alike paired later left later' left' ∧ action state world = .ok (result, later) left ∧
      other state' world' = .ok (result', later') left'

section Steps

variable {α β γ δ : Type} {alike : World → World → Prop} {paired : Value → Value → Prop}

theorem inStep_start {world world' : World} (same : alike world world') :
    InStep alike paired .start world .start world' :=
  ⟨same, fun spot => by simp [SortState.start], rfl, rfl⟩

theorem InStep.insert {state state' : SortState} {world world' : World} {key key' : Value}
    (step : InStep alike paired state world state' world') (spot : Nat × Nat) (same : paired key key') :
    InStep alike paired { state with keys := state.keys.insert spot key } world
      { state' with keys := state'.keys.insert spot key' } world' where
  alike := step.alike
  keys other := by
    simp only [Std.HashMap.getElem?_insert]
    split
    · exact .some same
    · exact step.keys other
  failure := step.failure
  failure' := step.failure'

theorem alongside_pure {value : α} {value' : β} {related : α → β → Prop} (same : related value value') :
    Alongside alike paired (pure value) (pure value') related :=
  fun state world state' world' step => ⟨value, state, world, value', state', world', same, step, rfl, rfl⟩

theorem Alongside.bind {action : SortM α} {other : SortM β} {related : α → β → Prop} {next : α → SortM γ}
    {next' : β → SortM δ} {related' : γ → δ → Prop} (head : Alongside alike paired action other related)
    (rest : ∀ value value', related value value' → Alongside alike paired (next value) (next' value') related') :
    Alongside alike paired (action >>= next) (other >>= next') related' := by
  intro state world state' world' step
  obtain ⟨value, later, left, value', later', left', same, step, ran, ran'⟩ := head state world state' world' step
  obtain ⟨result, last, stop, result', last', stop', same, step, ended, ended'⟩ := rest _ _ same _ _ _ _ step
  exact ⟨result, last, stop, result', last', stop', same, step, (SortM.bind_of_ok ran).trans ended,
    (SortM.bind_of_ok ran').trans ended'⟩

end Steps

/-- Two evaluations that, from worlds that are alike, have corresponding values and leave worlds that are alike. -/
def Corresponding (alike : World → World → Prop) (paired : Value → Value → Prop) (run run' : EvalM Value) : Prop :=
  ∀ world world', alike world world' → ∃ key left key' left', paired key key' ∧ alike left left' ∧
    run world = .ok key left ∧ run' world' = .ok key' left'

namespace RowOrder

section InStep

variable {alike : World → World → Prop} {paired : Value → Value → Prop} {meaning meaning' : Meaning} {caching : Bool}
  {environment environment' : Environment} {frame frame' : Frame}

theorem key_alongside {row : Nat × Value}
    (keys : Corresponding alike paired (meaning.evaluate environment (frame.onRow row.2))
      (meaning'.evaluate environment' (frame'.onRow row.2))) :
    Alongside alike paired
      ((byOne meaning .ascending caching).key 0 (.expression meaning) row environment frame)
      ((byOne meaning' .descending caching).key 0 (.expression meaning') row environment' frame') paired := by
  have evaluated : Alongside alike paired (evaluateKey meaning row.2 environment frame)
      (evaluateKey meaning' row.2 environment' frame') paired := by
    intro state world state' world' step
    obtain ⟨key, left, key', left', same, ends, ran, ran'⟩ := keys world world' step.alike
    refine ⟨key, state, left, key', state', left', same, { step with alike := ends }, ?_, ?_⟩
    · simp only [evaluateKey, ran]
    · simp only [evaluateKey, ran']
  unfold key byOne
  cases caching with
  | false => exact evaluated
  | true =>
    intro state world state' world' step
    have kept := step.keys (row.1, 0)
    cases found : state.keys[(row.1, 0)]? <;> cases found' : state'.keys[(row.1, 0)]? <;> rw [found, found'] at kept
    case none.none =>
      obtain ⟨value, later, left, value', later', left', same, step, ran, ran'⟩ :=
        evaluated state world state' world' step
      refine ⟨value, _, left, value', _, left', same, step.insert (row.1, 0) same,
        (SortM.bind_of_ok (SortM.get_ok state world)).trans ?_,
        (SortM.bind_of_ok (SortM.get_ok state' world')).trans ?_⟩
      · simp only [found]
        exact SortM.bind_of_ok ran
      · simp only [found']
        exact SortM.bind_of_ok ran'
    case some.some value value' =>
      have same : paired value value' := by
        cases kept
        assumption
      refine ⟨value, state, world, value', state', world', same, step,
        (SortM.bind_of_ok (SortM.get_ok state world)).trans ?_,
        (SortM.bind_of_ok (SortM.get_ok state' world')).trans ?_⟩
      · simp only [found]
        rfl
      · simp only [found']
        rfl
    all_goals cases kept

/-- Keys that correspond compare in opposite orders. -/
def Reverses (paired : Value → Value → Prop) : Prop :=
  ∀ a a' b b', paired a a' → paired b b' → a.compare b = (a'.compare b').swap

variable (reverses : Reverses paired) {rows : List Value}
  (keys : ∀ row ∈ rows, Corresponding alike paired (meaning.evaluate environment (frame.onRow row))
    (meaning'.evaluate environment' (frame'.onRow row)))
include reverses keys

theorem compare_alongside {a b : Nat × Value} (left : a.2 ∈ rows) (right : b.2 ∈ rows) :
    Alongside alike paired ((byOne meaning .ascending caching).compare a b environment frame)
      ((byOne meaning' .descending caching).compare a b environment' frame') Eq := by
  refine (key_alongside (keys a.2 left)).bind fun own own' same => ?_
  refine (key_alongside (keys b.2 right)).bind fun other other' same' => ?_
  rw [reverses own own' other other' same same']
  cases own'.compare other' <;> exact alongside_pure rfl

/-- The same list of some of the rows. -/
def SameRows (rows : List Value) (sorted sorted' : List (Nat × Value)) : Prop :=
  sorted = sorted' ∧ ∀ row ∈ sorted, row.2 ∈ rows

theorem merge_alongside {left right : List (Nat × Value)} (inside : ∀ row ∈ left ++ right, row.2 ∈ rows) :
    Alongside alike paired ((byOne meaning .ascending caching).merge environment frame left right)
      ((byOne meaning' .descending caching).merge environment' frame' left right) (SameRows rows) := by
  induction left generalizing right with
  | nil =>
    simp only [merge]
    exact alongside_pure ⟨rfl, inside⟩
  | cons a left ihLeft =>
    induction right with
    | nil =>
      simp only [merge]
      exact alongside_pure ⟨rfl, by simpa using inside⟩
    | cons b right ihRight =>
      simp only [merge]
      have first : a.2 ∈ rows := inside a (by simp)
      have second : b.2 ∈ rows := inside b (by simp)
      refine (compare_alongside reverses keys first second).bind fun order _ same => ?_
      subst same
      have takesLeft := @ihLeft (b :: right) fun row member => inside row (List.mem_cons_of_mem _ member)
      have takesRight := ihRight fun row member => inside row (by grind)
      split
      · refine takesRight.bind fun merged merged' same => alongside_pure ⟨congrArg (b :: ·) same.1, ?_⟩
        exact List.forall_mem_cons.mpr ⟨second, same.2⟩
      · refine takesLeft.bind fun merged merged' same => alongside_pure ⟨congrArg (a :: ·) same.1, ?_⟩
        exact List.forall_mem_cons.mpr ⟨first, same.2⟩

theorem sortHalves_alongside (depth : Nat) {part : List (Nat × Value)} (inside : ∀ row ∈ part, row.2 ∈ rows) :
    Alongside alike paired ((byOne meaning .ascending caching).sortHalves environment frame depth part)
      ((byOne meaning' .descending caching).sortHalves environment' frame' depth part) (SameRows rows) := by
  induction depth generalizing part with
  | zero => exact alongside_pure ⟨rfl, inside⟩
  | succ depth ih =>
    match part with
    | [] => exact alongside_pure ⟨rfl, inside⟩
    | [row] => exact alongside_pure ⟨rfl, inside⟩
    | first :: second :: rest =>
      simp only [sortHalves]
      refine (ih fun row member => inside row (List.mem_of_mem_take member)).bind fun left left' same => ?_
      refine (ih fun row member => inside row (List.mem_of_mem_drop member)).bind fun right right' same' => ?_
      obtain ⟨rfl, insideLeft⟩ := same
      obtain ⟨rfl, insideRight⟩ := same'
      refine merge_alongside reverses keys fun row member => ?_
      exact (List.mem_append.mp member).elim (insideLeft row) (insideRight row)

/-- Rows are in the same order by ascending keys of one expression and by descending keys of another one, if the keys of
the two compare in opposite orders. -/
theorem sort_alongside {world world' : World} (same : alike world world') :
    ∃ sorted left left', alike left left' ∧
      (byOne meaning .ascending caching).sort rows environment frame .start world = .ok (sorted, .start) left ∧
      (byOne meaning' .descending caching).sort rows environment' frame' .start world' =
        .ok (sorted, .start) left' := by
  by_cases short : rows.length < 2
  · refine ⟨rows, world, world', same, ?_, ?_⟩ <;>
      rw [sort, if_pos (by simp [short])] <;> rfl
  · have halves : Alongside alike paired
        ((byOne meaning .ascending caching).sortHalves environment frame rows.length (numbered rows))
        ((byOne meaning' .descending caching).sortHalves environment' frame' rows.length (numbered rows))
        (SameRows rows) := sortHalves_alongside reverses keys rows.length fun _ => mem_of_numbered
    obtain ⟨sorted, later, left, _, later', left', ⟨rfl, -⟩, step, ran, ran'⟩ :=
      halves .start world .start world' (inStep_start same)
    have sorts := sort_of_halves (by simp [byOne, short]) ran
    have sorts' := sort_of_halves (by simp [byOne, short]) ran'
    rw [step.failure] at sorts
    rw [step.failure'] at sorts'
    exact ⟨sorted.map (·.2), left, left', step.alike, sorts, sorts'⟩

end InStep

/-- Numbers of which negation reverses the order of any two. -/
def Turning (numbers : Value → Prop) : Prop :=
  ∀ a b, numbers a → numbers b → a.isKnown = true ∧ a.turns b = true

theorem Turning.reverses {numbers : Value → Prop} (turning : Turning numbers) :
    Reverses fun negated key => numbers key ∧ key.negate = .ok negated := by
  rintro negated a negated' b ⟨inside, ran⟩ ⟨inside', ran'⟩
  obtain ⟨_, x, negates⟩ := Value.exists_negates (turning a b inside inside').1
  obtain ⟨_, y, negates'⟩ := Value.exists_negates (turning b a inside' inside).1
  cases ran.symm.trans negates.ran
  cases ran'.symm.trans negates'.ran
  exact (Value.compare_negations_iff negates negates').mpr (turning a b inside inside').2

/-- Where the operand is a known number, its negation is evaluated in step with it. -/
theorem negate_corresponding {alike : World → World → Prop} {numbers : Value → Prop} (turning : Turning numbers)
    {operand : Meaning} {environment : Environment} {frame : Frame} {run : EvalM Value}
    (keys : Corresponding alike (fun key key' => key = key' ∧ numbers key') (operand.evaluate environment frame) run) :
    Corresponding alike (fun negated key => numbers key ∧ key.negate = .ok negated)
      ((Meaning.negate operand).evaluate environment frame) run := by
  intro world world' same
  obtain ⟨_, left, key, left', ⟨rfl, inside⟩, ends, ran, ran'⟩ := keys world world' same
  obtain ⟨negated, x, negates⟩ := Value.exists_negates (turning _ _ inside inside).1
  refine ⟨negated, left, _, left', ⟨inside, negates.ran⟩, ends, (EvalM.bind_of_ok ran).trans ?_, ran'⟩
  refine EvalM.inside_of_ok _ ?_
  rw [negates.ran]
  rfl

/-- Negations of known numbers compare the other way around exactly where neither is the least integer of its width, or
both are the same one, or one is and the other number or its negation lies below it. Ordering rows by `-e` then gives
the same list as ordering them by `e` in descending order, as long as this holds of any two values of `e` on them. -/
theorem negation_reverses_order :
    (∀ a b : Value, a.isKnown = true → b.isKnown = true → ∃ negated negated',
      a.negate = .ok negated ∧ b.negate = .ok negated' ∧
        (negated.compare negated' = (a.compare b).swap ↔ a.turns b = true)) ∧
    ∀ numbers : Value → Prop, Turning numbers →
      ∀ (alike : World → World → Prop) (operand operand' : Meaning) (environment environment' : Environment)
        (frame frame' : Frame) (rows : List Value),
        (∀ row ∈ rows, Corresponding alike (fun key key' => key = key' ∧ numbers key')
          (operand.evaluate environment (frame.onRow row)) (operand'.evaluate environment' (frame'.onRow row))) →
        ∀ caching world world', alike world world' → ∃ sorted left left', alike left left' ∧
          (byOne (.negate operand) .ascending caching).sort rows environment frame .start world =
            .ok (sorted, .start) left ∧
          (byOne operand' .descending caching).sort rows environment' frame' .start world' =
            .ok (sorted, .start) left' := by
  constructor
  · intro a b known known'
    obtain ⟨negated, x, negates⟩ := Value.exists_negates known
    obtain ⟨negated', y, negates'⟩ := Value.exists_negates known'
    exact ⟨negated, negated', negates.ran, negates'.ran, Value.compare_negations_iff negates negates'⟩
  · intro numbers turning alike operand operand' environment environment' frame frame' rows keys caching world world'
      same
    exact sort_alongside turning.reverses (fun row member => negate_corresponding turning (keys row member)) same

theorem currentRow_corresponding (environment : Environment) (frame : Frame) {numbers : Value → Prop} {row : Value}
    (inside : numbers row) :
    Corresponding (fun world world' => world = .start ∧ world' = .start) (fun key key' => key = key' ∧ numbers key')
      (currentRow.evaluate environment (frame.onRow row)) (currentRow.evaluate environment (frame.onRow row)) := by
  rintro _ _ ⟨rfl, rfl⟩
  exact ⟨row, .start, row, .start, ⟨rfl, inside⟩, ⟨rfl, rfl⟩, rfl, rfl⟩

/-- Numbers of three widths, among them the least integer of 32 bits with others beyond it. -/
theorem negation_reverses_order_of_mixed :
    let least : Value := .int32 Int32.minValue
    let rows : List Value := [.int64 3000000000, least, .float64 .infinity, .int64 (-3000000000)]
    let frame : Frame := ⟨none, rows, none, none, ⟨0, none⟩, ""⟩
    ((.float64 .zero : Value).isKnown = true ∧ least.isKnown = true ∧ Turning (· ∈ rows)) ∧
      (∃ negated negated', (.float64 .zero : Value).negate = .ok negated ∧ least.negate = .ok negated' ∧
        (negated.compare negated' = ((.float64 .zero : Value).compare least).swap ↔
          (.float64 .zero : Value).turns least = true)) ∧
      ∃ sorted left left', (left = World.start ∧ left' = World.start) ∧
        (byOne (.negate currentRow) .ascending true).sort rows ⟨.empty, .default⟩ frame .start .start =
          .ok (sorted, .start) left ∧
        (byOne currentRow .descending true).sort rows ⟨.empty, .default⟩ frame .start .start =
          .ok (sorted, .start) left' := by
  intro least rows frame
  have turning : Turning (· ∈ rows) := by
    have each : ∀ a ∈ rows, ∀ b ∈ rows, a.isKnown = true ∧ a.turns b = true := by decide
    exact fun a b inside inside' => each a inside b inside'
  refine ⟨⟨rfl, rfl, turning⟩, negation_reverses_order.1 _ _ rfl rfl, ?_⟩
  exact negation_reverses_order.2 (· ∈ rows) turning _ currentRow currentRow _ _ frame frame rows
    (fun row inside => currentRow_corresponding _ frame inside) true .start .start ⟨rfl, rfl⟩

/-- Two rows are sorted by one comparison. -/
theorem sort_pair {meaning : Meaning} {direction : Direction} {caching : Bool} {environment : Environment}
    {frame : Frame} {first second : Value} {world left : World} {state : SortState} (decided : Ordering)
    (compared : (byOne meaning direction caching).compare (0, first) (1, second) environment frame .start world =
      .ok (decided, state) left)
    (unnoted : state.failure = none) :
    (byOne meaning direction caching).sort [first, second] environment frame .start world =
      .ok (if decided = .gt then [second, first] else [first, second], .start) left := by
  have halves :
      (byOne meaning direction caching).sortHalves environment frame 2 [(0, first), (1, second)] .start world =
        .ok (if decided = .gt then [(1, second), (0, first)] else [(0, first), (1, second)], state) left := by
    simp only [sortHalves, List.take, List.drop, List.length_cons, List.length_nil, Nat.reduceAdd, Nat.reduceDiv,
      pure_bind]
    rw [merge, SortM.bind_of_ok compared]
    cases decided <;> simp only [merge] <;> rfl
  rw [sort_of_halves (by simp [byOne]) halves, unnoted]
  cases decided <;> rfl

/-- The least integer of 32 bits is its own negation, so that negating it and zero leaves their order as it is, and by
their negations they are not ordered as by themselves in descending order. -/
theorem negation_leaves_least :
    let least : Value := .int32 Int32.minValue
    let frame : Frame := ⟨none, [.int32 0, least], none, none, ⟨0, none⟩, ""⟩
    (least.isKnown = true ∧ (Value.int32 0).isKnown = true) ∧
      least.negate = .ok least ∧ (Value.int32 0).negate = .ok (.int32 0) ∧
      least.compare (.int32 0) ≠ (least.compare (.int32 0)).swap ∧
      (byOne (.negate currentRow) .ascending false).sort [.int32 0, least] ⟨.empty, .default⟩ frame .start .start =
        .ok ([least, .int32 0], .start) .start ∧
      (byOne currentRow .descending false).sort [.int32 0, least] ⟨.empty, .default⟩ frame .start .start =
        .ok ([.int32 0, least], .start) .start := by
  refine ⟨⟨rfl, rfl⟩, rfl, rfl, by decide, ?_, ?_⟩
  · exact sort_pair .gt rfl rfl
  · exact sort_pair .lt rfl rfl

end RowOrder

end RecordQuery
