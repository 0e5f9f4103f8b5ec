import RecordQuery.Proofs.Statement.Batches
import RecordQuery.Proofs.Statement.Reordering
/-! Ordering by column numbers. Rows are sorted by expressions that the columns of the results are worked out from
again, after the limit has been taken. Where these have one outcome on each row, the results are sorted by their own
columns. -/

namespace RecordQuery

open EvalM

/-- Nothing is varied. -/
def Frame.Variation.unchanged : Frame.Variation where
  Index := Unit
  vary _ frame := frame
  own _ := ⟨(), rfl⟩
  scope _ _ := rfl
  shifts _ _ _ := ⟨(), rfl⟩

namespace Meaning

variable {meaning : Meaning} {environment : Environment} {frame : Frame}

/-- An expression with one outcome, whatever is varied, settles. -/
theorem ConductsIn.settles {scope : Scope} {binds saves : NameTable Value} {valid : Memory → Prop}
    (part : meaning.ConductsIn (.unvarying .unchanged scope binds saves valid) environment)
    (inside : frame.scope = scope) :
    ∃ outcome, meaning.Settles (World.Holds scope binds saves valid) environment frame outcome := by
  obtain ⟨outcome, constant⟩ := part frame inside
  exact ⟨outcome, constant ()⟩

/-- What an expression that settles comes to is its one outcome. -/
theorem Settles.of_ok {settled : World → Prop} {outcome : Except Error Value}
    (settles : meaning.Settles settled environment frame outcome) {world left : World} {value : Value}
    (start : settled world) (ran : meaning.evaluate environment frame world = .ok value left) :
    outcome = .ok value ∧ settled left := by
  obtain ⟨left', stop, ran'⟩ := settles world start
  rw [ran] at ran'
  cases outcome with
  | error error => cases ran'
  | ok value' =>
    cases ran'
    exact ⟨rfl, stop⟩

theorem Settles.unique {settled : World → Prop} {outcome outcome' : Except Error Value}
    (settles : meaning.Settles settled environment frame outcome)
    (settles' : meaning.Settles settled environment frame outcome') {world : World} (start : settled world) :
    outcome = outcome' := by
  obtain ⟨left, -, ran⟩ := settles world start
  obtain ⟨left', -, ran'⟩ := settles' world start
  rw [ran] at ran'
  cases outcome <;> cases outcome' <;> cases ran' <;> rfl

end Meaning

/-! Sorting by expressions. -/

namespace RowOrder

/-- The keys of a row by entry, where they can be worked out. -/
def HasKeys (settled : World → Prop) (entries : List (SortSource × Direction)) (environment : Environment)
    (frame : Frame) (row : Value) (keyOf : Nat → Value) : Prop :=
  ∀ entry (meaning : Meaning) direction, entries[entry]? = some (.expression meaning, direction) →
    meaning.Settles settled environment (frame.onRow row) (.ok (keyOf entry))

/-- The order of two rows by their keys for each entry, the first difference deciding. -/
def compareEntries (entries : List (SortSource × Direction)) (keyOf keyOf' : Nat → Value) : Ordering :=
  firstDifference (entries.mapIdx fun entry source => source.2.apply ((keyOf entry).compare (keyOf' entry)))

section Sorted

variable {settled : World → Prop} {entries : List (SortSource × Direction)}

/-- A step whose result is the same for any failure before it yields this result. -/
theorem yields_of_takes {α : Type} {outcomes : Nat → Nat → Except Error Value} {action : SortM α}
    {course : Option Error → α × Option Error} (takes : Takes settled outcomes action course) {result : α}
    (same : ∀ failure, (course failure).1 = result) :
    Yields (fun state world => state.Exact outcomes ∧ settled world) action result := by
  rintro state world ⟨exact, start⟩
  obtain ⟨later, left, exact', stop, -, ran⟩ := takes state world exact start
  exact ⟨later, left, ⟨exact', stop⟩, same state.failure ▸ ran⟩

/-- What outcomes come to as keys, by entry and place; null stands for one with records. -/
def plainKeys (outcomes : Nat → Nat → Except Error Value) (entry place : Nat) : Value.Plain :=
  if plain : (keyOfOutcome (outcomes entry place)).records = [] then ⟨_, plain⟩ else ⟨.null, rfl⟩

theorem plainKeys_eq {outcomes : Nat → Nat → Except Error Value} {entry place : Nat}
    (plain : ∀ value, outcomes entry place = .ok value → value.records = []) :
    (plainKeys outcomes entry place).1 = keyOfOutcome (outcomes entry place) := by
  have none : (keyOfOutcome (outcomes entry place)).records = [] := by
    cases outcome : outcomes entry place with
    | error error => rfl
    | ok value => exact plain value outcome
  exact congrArg Subtype.val (dif_pos none)

/-- An entry with an outcome on a row yields the key that this outcome comes to, worked out or remembered. -/
theorem key_yields_outcome {environment : Environment} {frame : Frame} {outcomes : Nat → Nat → Except Error Value}
    {entry : Nat} {meaning : Meaning} {row : Nat × Value} (caching : Bool)
    (settles : meaning.Settles settled environment (frame.onRow row.2) (outcomes entry row.1)) :
    Yields (fun state world => state.Exact outcomes ∧ settled world)
      ((RowOrder.mk entries caching).key entry (.expression meaning) row environment frame)
      (keyOfOutcome (outcomes entry row.1)) := by
  cases caching with
  | false => exact yields_of_takes (evaluateKey_takes settles) fun _ => rfl
  | true => exact yields_of_takes (remembered_takes settles) fun _ => rfl

/-- Two places compare as the keys of their rows do, entry by entry. -/
theorem compareKeys_eq_compareEntries (order : RowOrder) {keyOf : Nat → Nat → Value.Plain} {a b : Nat}
    {keysA keysB : Nat → Value} (first : ∀ entry < order.entries.length, (keyOf entry a).1 = keysA entry)
    (second : ∀ entry < order.entries.length, (keyOf entry b).1 = keysB entry) :
    order.compareKeys keyOf a b = compareEntries order.entries keysA keysB := by
  rw [compareKeys, compareKeysFrom_eq_firstDifference]
  refine congrArg firstDifference (List.ext_getElem (by simp) fun entry inside _ => ?_)
  rw [List.length_mapIdx] at inside
  simp only [List.getElem_mapIdx, Nat.zero_add, Value.Plain.compare, first entry inside, second entry inside]

/-- A batch that is sorted by expressions with one outcome each, which are no records, is sorted by the keys that its
rows have. -/
theorem sort_settled {caching : Bool} {batch : Batch} (settles : SettlesOn settled entries batch)
    (expressions : ∀ source direction, (source, direction) ∈ entries → ∃ meaning, source = .expression meaning)
    (plain : ∀ row ∈ batch.rows, ∀ (meaning : Meaning) direction, (.expression meaning, direction) ∈ entries →
      ∀ value, meaning.Settles settled batch.environment (batch.frame.onRow row) (.ok value) → value.records = [])
    {world left : World} {sorted : List Value} {state : SortState} (start : settled world)
    (ran : (RowOrder.mk entries caching).sort batch.rows batch.environment batch.frame .start world =
      .ok (sorted, state) left) :
    settled left ∧ sorted.Perm batch.rows ∧ sorted.Pairwise fun a b => ∀ keyOf keyOf',
      HasKeys settled entries batch.environment batch.frame a keyOf →
      HasKeys settled entries batch.environment batch.frame b keyOf' → compareEntries entries keyOf keyOf' ≠ .gt := by
  obtain ⟨outcomes, each⟩ := settles.exists_outcomes
  have known {row : Nat × Value} (member : row ∈ numbered batch.rows) {entry : Nat} {meaning : Meaning}
      {direction : Direction} (present : entries[entry]? = some (.expression meaning, direction)) :
      (plainKeys outcomes entry row.1).1 = keyOfOutcome (outcomes entry row.1) :=
    plainKeys_eq fun value outcome => plain row.2 (mem_of_numbered member) meaning direction
      (List.mem_of_getElem? present) value (outcome ▸ each row member entry meaning direction present)
  have keys : ∀ row ∈ numbered batch.rows, (RowOrder.mk entries caching).YieldsKeys
      (fun state world => state.Exact outcomes ∧ settled world) batch.environment batch.frame (plainKeys outcomes)
      row := by
    intro row member entry source direction present
    obtain ⟨meaning, rfl⟩ := expressions source direction (List.mem_of_getElem? present)
    rw [known member present]
    exact key_yields_outcome caching (each row member entry meaning direction present)
  -- The keys that a row has are the outcomes of its place.
  have same {row : Nat × Value} (member : row ∈ numbered batch.rows) {keysOf : Nat → Value}
      (has : HasKeys settled entries batch.environment batch.frame row.2 keysOf) (entry : Nat)
      (inside : entry < entries.length) : (plainKeys outcomes entry row.1).1 = keysOf entry := by
    obtain ⟨meaning, source⟩ := expressions _ _ (List.getElem_mem inside)
    have present : entries[entry]? = some (.expression meaning, entries[entry].2) := by
      rw [List.getElem?_eq_getElem inside, ← source]
      rfl
    rw [known member present, (each row member entry meaning _ present).unique (has entry meaning _ present) start]
    rfl
  obtain ⟨placed, state', left', ⟨-, stop⟩, perm, ordered, ran'⟩ :=
    sort_of_keys keys ⟨SortState.exact_start outcomes, start⟩
  rw [ran] at ran'
  cases failure : state'.failure with
  | some error => simp [failure] at ran'
  | none =>
    simp only [failure, EStateM.Result.ok.injEq, Prod.mk.injEq] at ran'
    obtain ⟨⟨rfl, -⟩, rfl⟩ := ran'
    refine ⟨stop, numbered_map_snd batch.rows ▸ perm.map _, List.pairwise_map.mpr ?_⟩
    refine ordered.imp_of_mem fun {a b} first second before keysA keysB hasA hasB later => ?_
    have compared := compareKeys_eq_compareEntries (RowOrder.mk entries caching) (same (perm.subset first) hasA)
      (same (perm.subset second) hasB)
    rw [RowOrder.before, compared, later] at before
    cases before

end Sorted

end RowOrder

/-! Projecting to tuples. -/

section Tuples

variable {columns : List (Column Meaning)} {environment : Environment} {frame : Frame} {scope : Scope}
  {binds saves : NameTable Value} {valid : Memory → Prop}

/-- A tuple has the values of the columns on a row. -/
def IsTuple (settled : World → Prop) (columns : List (Column Meaning)) (environment : Environment) (frame : Frame)
    (row result : Value) : Prop :=
  ∃ items, result = .list items ∧ List.Forall₂ (fun column item =>
    column.expression.Settles settled environment (frame.onRow row) (.ok item)) columns items

variable (parts : ∀ column ∈ columns,
  column.expression.ConductsIn (.unvarying .unchanged scope binds saves valid) environment)
include parts

theorem columnValues_settle (inside : frame.scope = scope) {place : Nat} {world left : World} {values : List Value}
    (begins : world.Holds scope binds saves valid)
    (ran : columnValues columns place environment frame world = .ok values left) :
    left.Holds scope binds saves valid ∧ List.Forall₂ (fun column value =>
      column.expression.Settles (World.Holds scope binds saves valid) environment frame (.ok value)) columns values := by
  have each (items : List (Column Meaning × Nat)) (listed : ∀ item ∈ items, item.1 ∈ columns) {world left : World}
      {values : List Value} (begins : world.Holds scope binds saves valid)
      (ran : items.mapM (fun item => columnValue item.1 item.2 place environment frame) world = .ok values left) :
      left.Holds scope binds saves valid ∧ List.Forall₂ (fun column value =>
        column.expression.Settles (World.Holds scope binds saves valid) environment frame (.ok value))
        (items.map (·.1)) values := by
    induction items generalizing world values with
    | nil =>
      cases ran
      exact ⟨begins, .nil⟩
    | cons item rest ih =>
      obtain ⟨own, others⟩ := List.forall_mem_cons.mp listed
      rw [List.mapM_cons] at ran
      obtain ⟨value, middle, first, ran⟩ := ok_of_bind ran
      obtain ⟨values, last, rested, ran⟩ := ok_of_bind ran
      cases ran
      obtain ⟨outcome, settles⟩ := (parts item.1 own).settles inside
      obtain ⟨rfl, between⟩ := settles.of_ok begins (ok_of_inside first)
      obtain ⟨ends, all⟩ := ih others between rested
      exact ⟨ends, .cons settles all⟩
  have all := each columns.zipIdx (fun item member => List.mem_of_getElem? (List.mem_zipIdx_iff_getElem?.mp member))
    begins ran
  rwa [List.zipIdx_map_fst] at all

/-- Rows of plain columns are projected to their tuples. -/
theorem projectRows_tuples (unspliced : ∀ column ∈ columns, column.splice = false)
    (several : isSingleConstructor columns = false) (inside : frame.scope = scope) {rows : List (Value × Nat)}
    {world left : World} {results : List Value} (begins : world.Holds scope binds saves valid)
    (ran : projectRows columns environment frame rows world = .ok results left) :
    List.Forall₂ (IsTuple (World.Holds scope binds saves valid) columns environment frame) (rows.map (·.1)) results := by
  have whole : columns.head?.any (·.splice) = false := by
    cases columns with
    | nil => rfl
    | cons column rest => simpa using unspliced column (List.mem_cons_self ..)
  induction rows generalizing world results with
  | nil =>
    cases ran
    exact .nil
  | cons row rest ih =>
    obtain ⟨row, place⟩ := row
    obtain ⟨first, middle, own, ran⟩ := ok_of_bind ran
    obtain ⟨others, last, rested, ran⟩ := ok_of_bind ran
    cases ran
    obtain ⟨values, _, valued, own⟩ := ok_of_bind own
    rw [several, whole] at own
    cases own
    have onRow : (frame.onRow row).scope = scope := inside
    obtain ⟨between, settle⟩ := columnValues_settle parts onRow begins valued
    exact .cons ⟨values, rfl, settle⟩ (ih between rested)

end Tuples

/-- The item of a tuple for a column, counted from one. -/
def tupleItem (number : Nat) : Value → Value
  | .list items => (items[number - 1]?).getD .null
  | _ => .null

/-- The order of two tuples by some of their columns, counted from one, each in its direction. -/
def compareTuples (numbers : List (Nat × Direction)) (a b : Value) : Ordering :=
  firstDifference (numbers.map fun (number, direction) =>
    direction.apply ((tupleItem number a).compare (tupleItem number b)))

section Numbers

variable {columns : List (Column Meaning)} {numbers : List (Nat × Direction)}
  {entries : List (SortSource × Direction)}

/-- Column numbers stand for the expressions of the columns. -/
theorem sortSources_columnOrders
    (sources : sortSources (some columns) (Statement.columnOrders numbers) = .ok entries) :
    List.Forall₂ (fun listed entry => ∃ column, columns[listed.1 - 1]? = some column ∧
      entry = (.expression column.expression, listed.2)) numbers entries := by
  induction numbers generalizing entries with
  | nil =>
    cases sources
    exact .nil
  | cons listed rest ih =>
    obtain ⟨number, direction⟩ := listed
    change sortSources (some columns) (⟨.column number, direction⟩ :: Statement.columnOrders rest) = _ at sources
    unfold sortSources at sources
    dsimp only at sources
    split at sources
    · next column found =>
      obtain ⟨_, own, sources⟩ := Except.bind_eq_ok sources
      cases own
      obtain ⟨others, rested, sources⟩ := Except.bind_eq_ok sources
      cases sources
      refine .cons ⟨column, ?_, rfl⟩ (ih rested)
      split at found
      · cases found
      · exact found
    · cases sources

variable (named : List.Forall₂ (fun listed entry => ∃ column, columns[listed.1 - 1]? = some column ∧
  entry = (.expression column.expression, listed.2)) numbers entries)
include named

theorem named_getElem {entry : Nat} {source : SortSource} {direction : Direction}
    (present : entries[entry]? = some (source, direction)) :
    ∃ number column, numbers[entry]? = some (number, direction) ∧ columns[number - 1]? = some column ∧
      source = .expression column.expression := by
  obtain ⟨inside, same⟩ := List.getElem?_eq_some_iff.mp present
  have inside' : entry < numbers.length := named.length_eq ▸ inside
  obtain ⟨column, found, own⟩ := List.forall₂_iff_get.mp named |>.2 entry inside' inside
  rw [List.get_eq_getElem, List.get_eq_getElem, same] at own
  cases own
  exact ⟨numbers[entry].1, column, List.getElem?_eq_getElem inside', found, rfl⟩

theorem named_mem {source : SortSource} {direction : Direction} (member : (source, direction) ∈ entries) :
    ∃ listed ∈ numbers, ∃ column, columns[listed.1 - 1]? = some column ∧ source = .expression column.expression := by
  obtain ⟨place, present⟩ := List.mem_iff_getElem?.mp member
  obtain ⟨number, column, listed, found, own⟩ := named_getElem named present
  exact ⟨_, List.mem_of_getElem? listed, column, found, own⟩

/-- The items of its tuple are the keys of a row. -/
theorem IsTuple.hasKeys {settled : World → Prop} {environment : Environment} {frame : Frame} {row result : Value}
    (tuple : IsTuple settled columns environment frame row result) :
    RowOrder.HasKeys settled entries environment frame row
      fun entry => tupleItem ((numbers[entry]?).map (·.1) |>.getD 0) result := by
  intro entry meaning direction present
  obtain ⟨number, column, listed, found, own⟩ := named_getElem named present
  cases own
  obtain ⟨items, rfl, settle⟩ := tuple
  obtain ⟨inside, same⟩ := List.getElem?_eq_some_iff.mp found
  have inside' : number - 1 < items.length := settle.length_eq ▸ inside
  have settles := (List.forall₂_iff_get.mp settle).2 (number - 1) inside inside'
  rw [List.get_eq_getElem, List.get_eq_getElem, same] at settles
  simpa [listed, tupleItem, inside'] using settles

theorem compareEntries_eq_compareTuples (a b : Value) :
    RowOrder.compareEntries entries (fun entry => tupleItem ((numbers[entry]?).map (·.1) |>.getD 0) a)
      (fun entry => tupleItem ((numbers[entry]?).map (·.1) |>.getD 0) b) = compareTuples numbers a b := by
  refine congrArg firstDifference (List.ext_getElem (by simp [named.length_eq]) fun entry _ inside => ?_)
  rw [List.length_map] at inside
  have inside' : entry < entries.length := named.length_eq ▸ inside
  obtain ⟨number, column, listed, -, -⟩ := named_getElem named (List.getElem?_eq_getElem inside')
  have same := (List.getElem?_eq_some_iff.mp listed).2
  simp [listed, same]

end Numbers

/-- What holds of items in order carries over to what is made of them one by one. -/
theorem pairwise_of_forall₂ {α β : Type} {related : α → β → Prop} {before : α → α → Prop} {before' : β → β → Prop}
    {items : List α} {made : List β} (each : List.Forall₂ related items made)
    (carries : ∀ a b a' b', related a a' → related b b' → before a b → before' a' b')
    (ordered : items.Pairwise before) : made.Pairwise before' := by
  obtain ⟨counted, each⟩ := List.forall₂_iff_get.mp each
  rw [List.pairwise_iff_getElem] at ordered ⊢
  intro i j inside inside' less
  exact carries _ _ _ _ (each i (counted ▸ inside) inside) (each j (counted ▸ inside') inside')
    (ordered i j (counted ▸ inside) (counted ▸ inside') less)

theorem Limit.length_window {α : Type} (limit : Option Limit) {items others : List α}
    (same : items.length = others.length) : (window limit items).length = (window limit others).length := by
  rcases limit with _ | ⟨offset, _ | count⟩ <;> simp [window, apply, same]

section Statement

variable {statement : Statement Meaning} {columns : List (Column Meaning)} {numbers : List (Nat × Direction)}
  {environment : Environment} {frame : Frame} {scope : Scope} {binds saves : NameTable Value} {valid : Memory → Prop}

/-- Rows are sorted, and those in the limit are projected; between the two, nothing is changed but how often the clock
has been read. -/
theorem Statement.stages_of_finish {rows results : List Value} {entries : List (SortSource × Direction)}
    {watch watch' : Stopwatch} {world left : World}
    (ran : statement.finish entries environment frame rows watch world = .ok (results, watch') left) :
    ∃ sorted state middle readings after,
      (RowOrder.mk entries statement.cacheKeys).sort rows environment { frame with rows } .start world =
        .ok (sorted, state) middle ∧
      project statement environment { frame with rows } (Limit.window statement.limit sorted)
        { middle with readings } = .ok results after := by
  obtain ⟨⟨sorted, state⟩, middle, sorts, ran⟩ := ok_of_bind ran
  obtain ⟨_, _, lapped, ran⟩ := ok_of_bind ran
  obtain ⟨_, _, lapped', ran⟩ := ok_of_bind ran
  obtain ⟨_, after, projected, ran⟩ := ok_of_bind ran
  obtain ⟨_, _, -, ran⟩ := ok_of_bind ran
  cases ran
  obtain ⟨_, lap, same⟩ := Stopwatch.lap_ok _ .orderBy middle
  cases same.symm.trans lapped
  obtain ⟨_, lap', same⟩ := Stopwatch.lap_ok _ .limit { middle with readings := lap }
  cases same.symm.trans lapped'
  exact ⟨sorted, state, middle, lap', after, sorts, projected⟩

/-- Ordering rows by columns, limiting and projecting them makes one tuple of each row in the limit, and these are in
the order of their own columns. -/
theorem Statement.finish_ordered {rows results : List Value} {entries : List (SortSource × Direction)}
    {watch watch' : Stopwatch} {world left : World}
    (parts : statement.Every (Meaning.ConductsIn (.unvarying .unchanged scope binds saves valid) environment))
    (inside : frame.scope = scope) (selected : statement.select = some columns)
    (unspliced : ∀ column ∈ columns, column.splice = false) (several : isSingleConstructor columns = false)
    (repeated : statement.distinct = false) (sources : sortSources (some columns) (columnOrders numbers) = .ok entries)
    (plain : ∀ row ∈ rows, ∀ listed ∈ numbers, ∀ column value, columns[listed.1 - 1]? = some column →
      column.expression.Settles (World.Holds scope binds saves valid) environment ({ frame with rows }.onRow row)
        (.ok value) → value.records = [])
    (begins : world.Holds scope binds saves valid)
    (ran : statement.finish entries environment frame rows watch world = .ok (results, watch') left) :
    results.length = (Limit.window statement.limit rows).length ∧
      (∀ result ∈ results, ∃ items, result = .list items ∧ items.length = columns.length) ∧
      results.Pairwise fun a b => compareTuples numbers a b ≠ .gt := by
  let holds := World.Holds scope binds saves valid
  have own : ∀ column ∈ columns,
      column.expression.ConductsIn (.unvarying .unchanged scope binds saves valid) environment := by
    have parts := parts.columns
    rwa [Statement.columns, selected] at parts
  have named := sortSources_columnOrders sources
  obtain ⟨sorted, _, middle, readings, _, sorts, projected⟩ := stages_of_finish ran
  let around : Frame := { frame with rows }
  have within : around.scope = scope := inside
  let batch : RowOrder.Batch := ⟨rows, environment, around⟩
  have settles : RowOrder.SettlesOn holds entries batch := by
    intro row _ meaning direction member
    obtain ⟨_, -, column, found, same⟩ := named_mem named member
    cases same
    exact (own column (List.mem_of_getElem? found)).settles within
  have expressions (source : SortSource) (direction : Direction) (member : (source, direction) ∈ entries) :
      ∃ meaning, source = .expression meaning := by
    obtain ⟨_, -, column, -, same⟩ := named_mem named member
    exact ⟨column.expression, same⟩
  have plain' : ∀ row ∈ rows, ∀ (meaning : Meaning) direction, (.expression meaning, direction) ∈ entries →
      ∀ value, meaning.Settles holds environment (around.onRow row) (.ok value) → value.records = [] := by
    intro row member meaning direction present value settles
    obtain ⟨listed, own, column, found, same⟩ := named_mem named present
    cases same
    exact plain row member listed own column value found settles
  obtain ⟨between, perm, ordered⟩ := RowOrder.sort_settled settles expressions plain' begins sorts
  have limited : holds { middle with readings } := ⟨between.binds, between.saves, between.memory⟩
  simp only [project, selected, repeated, Bool.false_eq_true, if_false, bind_pure] at projected
  have tuples := projectRows_tuples own unspliced several within limited projected
  rw [List.zipIdx_map_fst] at tuples
  refine ⟨?_, fun result member => ?_, ?_⟩
  · rw [← tuples.length_eq]
    exact Limit.length_window statement.limit perm.length_eq
  · obtain ⟨place, inside, rfl⟩ := List.getElem_of_mem member
    obtain ⟨items, same, settle⟩ := (List.forall₂_iff_get.mp tuples).2 place (tuples.length_eq ▸ inside) inside
    exact ⟨items, same, settle.length_eq.symm⟩
  · refine pairwise_of_forall₂ tuples (fun a b a' b' first second before => ?_)
      (ordered.sublist (Limit.window_sublist statement.limit sorted))
    rw [← compareEntries_eq_compareTuples named]
    exact before _ _ (first.hasKeys named) (second.hasKeys named)

end Statement

/-- The value of a column of the query, counted from one, on a row among others. -/
def Query.columnOn (query : Query) (rows : List Value) (number : Nat) (row : Value) : EvalM Value := do
  let frame ← query.frame rows
  match query.statement.columns[number - 1]? with
  | some column => column.expression.evaluate query.environment (frame.onRow row)
  | none => return .null

/-- Once a query is ready, its columns are worked out about these rows. -/
theorem Query.columnOn_of_ready {query : Query} {scope : Scope} {world : World} (ready : world.IsReadyIn scope)
    {columns : List (Column Meaning)} (selected : query.statement.select = some columns) {number : Nat}
    {column : Column Meaning} (found : columns[number - 1]? = some column) (rows : List Value) (row : Value) :
    query.columnOn rows number row world =
      column.expression.evaluate query.environment ((query.statement.frame scope rows none).onRow row) world := by
  obtain ⟨rowType, nesting, opened⟩ := ready
  have framed : query.frame rows world = .ok (query.statement.frame scope rows none) world :=
    bind_of_ok (state_of_ready opened)
  have whole : query.statement.columns = columns := congrArg (Option.getD · []) selected
  rw [columnOn, bind_of_ok framed, whole, found]

/-- Column numbers have the same meaning wherever they stand. -/
theorem Statement.placed_columnOrders {statement : Statement Expr} {numbers : List (Nat × Direction)}
    (ordering : statement.orderBy = columnOrders numbers) :
    (statementMeaning statement).placed.orderBy = columnOrders numbers := by
  rw [placed_orderBy, ordering]
  exact columnOrders_mapIdx (fun index (expression : Expr) => expression.meaning.down (.orderBy index)) numbers

theorem isSingleConstructor_placed (columns : List (Column Expr)) :
    isSingleConstructor (columns.mapIdx fun index column => column.map (·.meaning.down (.column index))) =
      isSingleConstructor (columns.map (·.map Expr.meaning)) := by
  match columns with
  | [] => rfl
  | [column] => rfl
  | first :: second :: rest => simp [isSingleConstructor]

/-- A quiet statement of plain columns without groups that orders by column numbers returns one tuple for each row in its
limit, and these are in the order of their own columns, provided that none of these is a record on a row left after
HAVING. -/
theorem execute_sorts_columns {statement : Statement Expr} {columns : List (Column Expr)}
    {numbers : List (Nat × Direction)} {rows : List Value} {start ready world left : World} {results : Results}
    (ungrouped : statement.groupBy = []) (selected : statement.select = some columns)
    (unspliced : ∀ column ∈ columns, column.splice = false)
    (several : isSingleConstructor (columns.map (·.map Expr.meaning)) = false) (repeated : statement.distinct = false)
    (quiet : statement.IsQuiet []) (ordering : statement.orderBy = Statement.columnOrders numbers)
    (unused : start.memory = .empty) (prepared : (Query.ofStatement statement).prepare start = .ok () ready)
    (since : Query.Since statement ready world)
    (ran : (Query.ofStatement statement).execute rows world = .ok results left)
    (plain : ∀ row ∈ results.having, ∀ listed ∈ numbers, ∀ value after,
      (Query.ofStatement statement).columnOn results.having listed.1 row world = .ok value after → value.records = []) :
    results.rows.length = (Limit.window statement.limit results.having).length ∧
      (∀ result ∈ results.rows, ∃ items, result = .list items ∧ items.length = columns.length) ∧
      results.rows.Pairwise fun a b => compareTuples numbers a b ≠ .gt := by
  obtain ⟨scope, _, -, own⟩ := (Statement.Within.refl statement).prepare (List.nil_subset _) quiet
    (statement.sameBinds_self statement.brought) unused prepared
  have isReady := since.isReady own.isReady
  have holds := since.holds own.isReady own.binds.present
  obtain ⟨below, now, parts⟩ := own.settled.unvarying .unchanged (fun _ _ => rfl) (fun _ _ _ _ => rfl) scope
    (world.table .bind) (world.table .save)
  let placed := (statementMeaning statement).placed
  let frame := placed.frame scope rows none
  let columns' := columns.mapIdx fun index column => column.map (·.meaning.down (.column index))
  have begins := holds.mono now
  have selected' : placed.select = some columns' := by
    rw [Statement.placed_select, selected, Option.map_some]
  have ordered' : placed.orderBy = Statement.columnOrders numbers := Statement.placed_columnOrders ordering
  rw [Query.execute_of_ready isReady] at ran
  obtain ⟨watch, before, entries, watch', filters, sources, finished⟩ :=
    Statement.stages_of_execute (placed_groupBy_nil ungrouped) ran
  rw [selected', ordered'] at sources
  have carried : (Conduct.unvarying .unchanged frame.scope (world.table .bind) (world.table .save)
      (Memory.Within (fun _ => True) below)).CarriesOver _ frame (Frame.Variation.unchanged.vary () frame) :=
    Conduct.unvarying_carriesOver (fun _ _ => rfl) rfl ()
  obtain ⟨_, _, -, ⟨filled, -⟩, -⟩ := Statement.filterRows_carries parts carried ⟨begins, begins⟩ filters
  have unspliced' : ∀ column ∈ columns', column.splice = false := by
    intro column member
    obtain ⟨index, inside, rfl⟩ := List.mem_mapIdx.mp member
    exact unspliced columns[index] (List.getElem_mem inside)
  have several' : isSingleConstructor columns' = false := (isSingleConstructor_placed columns).trans several
  have repeated' : placed.distinct = false := statement.placed_distinct.trans repeated
  -- The columns are worked out about the rows left after HAVING.
  have plain' : ∀ row ∈ results.having, ∀ listed ∈ numbers, ∀ column value, columns'[listed.1 - 1]? = some column →
      column.expression.Settles (World.Holds scope (world.table .bind) (world.table .save)
        (Memory.Within (fun _ => True) below)) (Query.ofStatement statement).environment
          ({ frame with rows := results.having }.onRow row) (.ok value) → value.records = [] := by
    intro row member listed present column value found settles
    obtain ⟨after, -, evaluated⟩ := settles world begins
    exact plain row member listed present value after
      ((Query.columnOn_of_ready isReady selected' found results.having row).trans evaluated)
  obtain ⟨counted, tuples, sorted⟩ :=
    Statement.finish_ordered parts rfl selected' unspliced' several' repeated' sources plain' filled finished
  refine ⟨statement.placed_limit ▸ counted, fun result member => ?_, sorted⟩
  obtain ⟨items, same, length⟩ := tuples result member
  exact ⟨items, same, length.trans (by simp [columns'])⟩

/-- Whether a number exceeds how many there are, and the number: the second and third of all, by whether first and from
the greatest number on. -/
def exceeding : Statement Expr :=
  { Statement.all with
    select := some [⟨.compare .gt false (.bind (some "_currobj") none) (.call "count" []), none, false⟩,
      ⟨.bind (some "_currobj") none, none, false⟩]
    orderBy := Statement.columnOrders [(1, .ascending), (2, .descending)]
    limit := some ⟨1, some 2⟩ }

namespace Exceeding

def query : Query := .ofStatement exceeding

def rows : List Value := [.int32 1, .int32 5, .int32 2, .int32 10]

def world : World := query.prepare.after .start

theorem quiet : exceeding.IsQuiet [] := by
  have row : (Expr.bind (some "_currobj") none).Throughout fun part => part.isQuiet exceeding.handlers [] = true :=
    .whole (by decide +kernel) nofun
  have count : (Expr.call "count" []).Throughout fun part => part.isQuiet exceeding.handlers [] = true :=
    .whole (by decide +kernel) nofun
  change ∀ expression ∈ [_, _], _
  simp only [List.forall_mem_cons]
  refine ⟨.whole rfl ?_, row, nofun⟩
  simp [Expr.parts, row, count]

/-- Whether these are the rows. -/
def isRows : List Value → Bool
  | [.int32 first, .int32 second, .int32 third, .int32 fourth] => [first, second, third, fourth] == [1, 5, 2, 10]
  | _ => false

theorem eq_of_isRows {found : List Value} (checked : isRows found = true) : found = rows := by
  unfold isRows at checked
  split at checked
  · cases eq_of_beq checked
    rfl
  · cases checked

/-- Whether what an evaluation gives holds no record. -/
def isPlainResult : EStateM.Result Error World Value → Bool
  | .ok value _ => value.records.isEmpty
  | .error .. => true

end Exceeding

theorem execute_sorts_columns_of_exceeding :
    ∃ results left, Exceeding.query.execute Exceeding.rows Exceeding.world = .ok results left ∧
      results.rows.length = 2 ∧
      (∀ result ∈ results.rows, ∃ items, result = .list items ∧ items.length = 2) ∧
      results.rows.Pairwise fun a b => compareTuples [(1, .ascending), (2, .descending)] a b ≠ .gt := by
  obtain ⟨_, prepared⟩ := exists_ok Exceeding.query.prepare .start (by decide +kernel)
  obtain ⟨results, left, ran, checked⟩ := exists_ok_of (fun results => Exceeding.isRows results.having)
    (Exceeding.query.execute Exceeding.rows) Exceeding.world (by decide +kernel)
  have having := Exceeding.eq_of_isRows checked
  have plain : ∀ row ∈ Exceeding.rows, ∀ listed ∈ [(1, Direction.ascending), (2, .descending)],
      Exceeding.isPlainResult (Exceeding.query.columnOn Exceeding.rows listed.1 row Exceeding.world) = true := by
    decide +kernel
  obtain ⟨counted, tuples, sorted⟩ := execute_sorts_columns rfl rfl (by decide) rfl rfl Exceeding.quiet rfl rfl prepared
    (Query.since_refl exceeding _) ran fun row member listed inside value after evaluated => by
      have checked := plain row (having ▸ member) listed inside
      have evaluated : Exceeding.query.columnOn Exceeding.rows listed.1 row Exceeding.world = .ok value after :=
        having ▸ evaluated
      rw [evaluated] at checked
      exact List.isEmpty_iff.mp checked
  exact ⟨results, left, ran, by rw [counted, having]; rfl, tuples, sorted⟩

end RecordQuery
