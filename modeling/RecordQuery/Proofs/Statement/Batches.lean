import Mathlib.Data.List.Forall2
import Mathlib.Tactic.Choose
import RecordQuery.Proofs.Statement.Ordering
/-! Sorting batches of rows one after the other, with one memory for keys and failures. Where each key has one outcome,
it makes no difference what was sorted before, nor whether keys are remembered: a remembered key is the one that would
be worked out again, and if that failed, the failure has been noted already. -/

namespace RecordQuery

/-- Rows to be sorted, with what their keys are evaluated among and about. -/
structure RowOrder.Batch where
  rows : List Value
  environment : Environment
  frame : Frame

/-- An expression is free of side effects and has one outcome where, from any of a set of worlds, it ends so and leads
back into the set. -/
def Meaning.Settles (settled : World → Prop) (meaning : Meaning) (environment : Environment) (frame : Frame)
    (outcome : Except Error Value) : Prop :=
  ∀ world, settled world →
    ∃ left, settled left ∧ meaning.evaluate environment frame world = EvalM.ofExcept outcome left

/-- The key that an outcome stands for, null if it is a failure. -/
def keyOfOutcome : Except Error Value → Value
  | .error _ => .null
  | .ok value => value

/-- The first failure after a key has had an outcome. -/
def notedAfter (meaning : Meaning) (failure : Option Error) : Except Error Value → Option Error
  | .error error => failure.or (some (.within ("order by " ++ meaning.text) error))
  | .ok _ => failure

/-- Each key that is remembered is the one that its outcome stands for, and if that is a failure, one has been noted. -/
structure SortState.Exact (outcomes : Nat → Nat → Except Error Value) (state : SortState) : Prop where
  kept : ∀ place entry value, state.keys[(place, entry)]? = some value → value = keyOfOutcome (outcomes entry place)
  told : ∀ place entry value error, state.keys[(place, entry)]? = some value → outcomes entry place = .error error →
    state.failure.isSome

/-- From exact states and settled worlds a sorting step leads to such again; its result, and the first failure after it,
depend on the first failure before it alone. -/
def Takes {α : Type} (settled : World → Prop) (outcomes : Nat → Nat → Except Error Value) (action : SortM α)
    (course : Option Error → α × Option Error) : Prop :=
  ∀ state world, state.Exact outcomes → settled world →
    ∃ later left, later.Exact outcomes ∧ settled left ∧ later.failure = (course state.failure).2 ∧
      action state world = .ok ((course state.failure).1, later) left

/-- A sorting step takes the same course whether keys are remembered or not, to a result with a property. -/
def TakesAlike {α : Type} (settled : World → Prop) (outcomes : Nat → Nat → Except Error Value) (property : α → Prop)
    (action : Bool → SortM α) : Prop :=
  ∃ course, (∀ failure, property (course failure).1) ∧ ∀ caching, Takes settled outcomes (action caching) course

section Steps

variable {α β : Type} {settled : World → Prop} {outcomes : Nat → Nat → Except Error Value}

theorem takesAlike_pure {property : α → Prop} {result : α} (holds : property result) :
    TakesAlike settled outcomes property fun _ => pure result :=
  ⟨fun failure => (result, failure), fun _ => holds, fun _ state world exact start =>
    ⟨state, world, exact, start, rfl, rfl⟩⟩

theorem TakesAlike.bind {middle : α → Prop} {property : β → Prop} {first : Bool → SortM α} {next : Bool → α → SortM β}
    (head : TakesAlike settled outcomes middle first)
    (rest : ∀ value, middle value → TakesAlike settled outcomes property (next · value)) :
    TakesAlike settled outcomes property fun caching => first caching >>= next caching := by
  obtain ⟨course, holds, head⟩ := head
  choose courses held rest using rest
  refine ⟨fun failure => courses (course failure).1 (holds failure) (course failure).2, fun _ => held _ _ _,
    fun caching state world exact start => ?_⟩
  obtain ⟨later, left, exact, start, failure, ran⟩ := head caching state world exact start
  obtain ⟨last, stop, exact, stopped, failed, ended⟩ := rest _ (holds state.failure) caching later left exact start
  rw [failure] at failed ended
  exact ⟨last, stop, exact, stopped, failed, (SortM.bind_of_ok ran).trans ended⟩

end Steps

namespace SortState

variable {outcomes : Nat → Nat → Except Error Value} {state : SortState}

theorem exact_start (outcomes : Nat → Nat → Except Error Value) : SortState.start.Exact outcomes :=
  ⟨fun _ _ _ kept => by simp [SortState.start] at kept, fun _ _ _ _ kept => by simp [SortState.start] at kept⟩

/-- Noting an outcome forgets no failure. -/
theorem Exact.noted (exact : state.Exact outcomes) (meaning : Meaning) (outcome : Except Error Value) :
    SortState.Exact outcomes { state with failure := notedAfter meaning state.failure outcome } where
  kept := exact.kept
  told place entry value error kept failed := by
    have told := exact.told place entry value error kept failed
    cases outcome <;> simp [notedAfter, told]

/-- A key may be remembered once its outcome has been noted. -/
theorem Exact.insert (exact : state.Exact outcomes) (place entry : Nat)
    (told : ∀ error, outcomes entry place = .error error → state.failure.isSome) :
    SortState.Exact outcomes
      { state with keys := state.keys.insert (place, entry) (keyOfOutcome (outcomes entry place)) } where
  kept place' entry' value kept := by
    simp only [Std.HashMap.getElem?_insert, beq_iff_eq, Prod.mk.injEq] at kept
    split at kept
    · next same =>
      obtain ⟨rfl, rfl⟩ := same
      exact (Option.some.inj kept).symm
    · exact exact.kept place' entry' value kept
  told place' entry' value error kept failed := by
    simp only [Std.HashMap.getElem?_insert, beq_iff_eq, Prod.mk.injEq] at kept
    split at kept
    · next same =>
      obtain ⟨rfl, rfl⟩ := same
      exact told error failed
    · exact exact.told place' entry' value error kept failed

end SortState

namespace RowOrder

/-- Each entry that is an expression has its outcome on a row. -/
def Settles (settled : World → Prop) (entries : List (SortSource × Direction)) (environment : Environment)
    (frame : Frame) (outcomes : Nat → Nat → Except Error Value) (row : Nat × Value) : Prop :=
  ∀ entry (meaning : Meaning) direction, entries[entry]? = some (.expression meaning, direction) →
    meaning.Settles settled environment (frame.onRow row.2) (outcomes entry row.1)

section Keys

variable {settled : World → Prop} {environment : Environment} {frame : Frame}
  {outcomes : Nat → Nat → Except Error Value} {entries : List (SortSource × Direction)}

/-- Working a key out gives it, and notes its failure if it is the first. -/
theorem evaluateKey_takes {meaning : Meaning} {row : Value} {outcome : Except Error Value}
    (settles : meaning.Settles settled environment (frame.onRow row) outcome) :
    Takes settled outcomes (evaluateKey meaning row environment frame)
      fun failure => (keyOfOutcome outcome, notedAfter meaning failure outcome) := by
  intro state world exact start
  obtain ⟨left, stop, ran⟩ := settles world start
  refine ⟨{ state with failure := notedAfter meaning state.failure outcome }, left, exact.noted meaning outcome, stop,
    rfl, ?_⟩
  unfold evaluateKey
  cases outcome <;> simp only [ran] <;> rfl

/-- Where keys are remembered, one that is worked out is noted before, and one that is not has been. -/
theorem remembered_takes {entry : Nat} {meaning : Meaning} {row : Nat × Value}
    (settles : meaning.Settles settled environment (frame.onRow row.2) (outcomes entry row.1)) :
    Takes settled outcomes
      ((RowOrder.mk entries true).key entry (.expression meaning) row environment frame)
      fun failure => (keyOfOutcome (outcomes entry row.1), notedAfter meaning failure (outcomes entry row.1)) := by
  intro state world exact start
  cases kept : state.keys[(row.1, entry)]? with
  | some value =>
    refine ⟨state, world, exact, start, ?_, (SortM.bind_of_ok (SortM.get_ok state world)).trans ?_⟩
    · cases outcome : outcomes entry row.1 with
      | ok value => rfl
      | error error =>
        obtain ⟨first, noted⟩ := Option.isSome_iff_exists.mp (exact.told _ _ _ _ kept outcome)
        simp [notedAfter, noted]
    · simp only [kept, ← exact.kept _ _ _ kept]
      rfl
  | none =>
    obtain ⟨later, left, later_exact, stop, failure, ran⟩ := evaluateKey_takes settles state world exact start
    refine ⟨_, left, later_exact.insert row.1 entry fun error failed => ?_, stop, failure,
      (SortM.bind_of_ok (SortM.get_ok state world)).trans ?_⟩
    · rw [failure, failed]
      simp [notedAfter]
    · simp only [kept]
      exact SortM.bind_of_ok ran

theorem key_alike {entry : Nat} {source : SortSource} {row : Nat × Value}
    (settles : ∀ meaning, source = .expression meaning →
      meaning.Settles settled environment (frame.onRow row.2) (outcomes entry row.1)) :
    TakesAlike settled outcomes (fun _ => True) fun caching =>
      (RowOrder.mk entries caching).key entry source row environment frame := by
  cases source with
  | position place =>
    unfold key
    cases row.2 <;> exact takesAlike_pure trivial
  | expression meaning =>
    have own := settles meaning rfl
    exact ⟨_, fun _ => trivial, fun caching => caching.casesOn (evaluateKey_takes own) (remembered_takes own)⟩

theorem compareFrom_alike {a b : Nat × Value} {others : List (SortSource × Direction)} {first : Nat}
    (settles : ∀ entry (meaning : Meaning) direction, others[entry]? = some (.expression meaning, direction) →
      ∀ row ∈ [a, b], meaning.Settles settled environment (frame.onRow row.2) (outcomes (first + entry) row.1)) :
    TakesAlike settled outcomes (fun _ => True) fun caching =>
      (RowOrder.mk entries caching).compareFrom a b environment frame first others := by
  induction others generalizing first with
  | nil => exact takesAlike_pure trivial
  | cons head rest ih =>
    obtain ⟨source, direction⟩ := head
    have own (row : Nat × Value) (member : row ∈ [a, b]) := @key_alike settled environment frame outcomes entries first
      source row fun meaning same => settles 0 meaning direction (by rw [same]; rfl) row member
    have later := @ih (first + 1) fun entry meaning direction present row member => by
      have found := settles (entry + 1) meaning direction present row member
      rwa [Nat.add_assoc, Nat.add_comm 1]
    refine (own a (by simp)).bind fun left _ => (own b (by simp)).bind fun right _ => ?_
    cases left.compare right with
    | eq => exact later
    | lt | gt => exact takesAlike_pure trivial

theorem compare_alike {a b : Nat × Value}
    (left : Settles settled entries environment frame outcomes a)
    (right : Settles settled entries environment frame outcomes b) :
    TakesAlike settled outcomes (fun _ => True) fun caching =>
      (RowOrder.mk entries caching).compare a b environment frame := by
  refine compareFrom_alike fun entry meaning direction present row member => ?_
  rw [Nat.zero_add]
  rcases List.mem_cons.mp member with rfl | member
  · exact left entry meaning direction present
  · cases List.mem_singleton.mp member
    exact right entry meaning direction present

theorem merge_alike {left right : List (Nat × Value)}
    (settles : ∀ row ∈ left ++ right, Settles settled entries environment frame outcomes row) :
    TakesAlike settled outcomes (· ⊆ left ++ right) fun caching =>
      (RowOrder.mk entries caching).merge environment frame left right := by
  induction left generalizing right with
  | nil =>
    simp only [merge]
    exact takesAlike_pure (List.Subset.refl _)
  | cons a left ihLeft =>
    induction right with
    | nil =>
      simp only [merge]
      exact takesAlike_pure (by simp)
    | cons b right ihRight =>
      have takesLeft := @ihLeft (b :: right) fun row member => settles row (List.mem_cons_of_mem _ member)
      have takesRight := ihRight fun row member => settles row (by grind)
      simp only [merge]
      refine (compare_alike (settles a (by simp)) (settles b (by simp))).bind fun order _ => ?_
      cases order with
      | lt | eq => exact takesLeft.bind fun merged inside => takesAlike_pure (by grind)
      | gt => exact takesRight.bind fun merged inside => takesAlike_pure (by grind)

theorem sortHalves_alike {depth : Nat} {rows : List (Nat × Value)}
    (settles : ∀ row ∈ rows, Settles settled entries environment frame outcomes row) :
    TakesAlike settled outcomes (· ⊆ rows) fun caching =>
      (RowOrder.mk entries caching).sortHalves environment frame depth rows := by
  induction depth generalizing rows with
  | zero =>
    unfold sortHalves
    exact takesAlike_pure (List.Subset.refl _)
  | succ depth ih =>
    cases rows with
    | nil => exact takesAlike_pure (List.Subset.refl _)
    | cons first rest =>
      cases rest with
      | nil => exact takesAlike_pure (List.Subset.refl _)
      | cons second rest =>
        simp only [sortHalves]
        generalize first :: second :: rest = rows at *
        have taken := @ih (rows.take ((rows.length + 1) / 2)) fun row member =>
          settles row (List.mem_of_mem_take member)
        have dropped := @ih (rows.drop ((rows.length + 1) / 2)) fun row member =>
          settles row (List.mem_of_mem_drop member)
        refine taken.bind fun left fromLeft => dropped.bind fun right fromRight => ?_
        have inside : left ++ right ⊆ rows := List.append_subset.mpr
          ⟨fun row member => List.mem_of_mem_take (fromLeft member),
            fun row member => List.mem_of_mem_drop (fromRight member)⟩
        obtain ⟨course, holds, takes⟩ := merge_alike fun row member => settles row (inside member)
        exact ⟨course, fun failure row member => inside (holds failure member), takes⟩

end Keys

/-- Sorts rows; a failure is a result here, so that what is remembered after it shows. -/
def attempt (order : RowOrder) (rows : List Value) (environment : Environment) (frame : Frame) :
    SortM (Except Error (List Value)) := do
  if order.entries.isEmpty || rows.length < 2 then return .ok rows
  let sorted ← order.sortHalves environment frame rows.length (numbered rows)
  let failure := (← get).failure
  set SortState.start
  match failure with
  | some error => return .error error
  | none => return .ok (sorted.map (·.2))

/-- Sorting is attempting to sort, and failing if that fails. -/
theorem sort_eq (order : RowOrder) (rows : List Value) (environment : Environment) (frame : Frame) :
    order.sort rows environment frame = (do
      let result ← order.attempt rows environment frame
      liftM (EvalM.ofExcept result)) := by
  unfold sort attempt
  split
  · rfl
  · simp only [bind_assoc]
    refine bind_congr fun sorted => bind_congr fun state => bind_congr fun _ => ?_
    cases state.failure <;> rfl

/-- Sorts batches of rows one after the other, with one memory; those after a batch that fails are sorted too. -/
def sortBatches (order : RowOrder) : List Batch → SortM (List (Except Error (List Value)))
  | [] => return []
  | batch :: rest => do
    let result ← order.attempt batch.rows batch.environment batch.frame
    return result :: (← order.sortBatches rest)

section Batches

variable {settled : World → Prop} {entries : List (SortSource × Direction)}

/-- Each entry that is an expression has one outcome on each row of a batch. -/
def SettlesOn (settled : World → Prop) (entries : List (SortSource × Direction)) (batch : Batch) : Prop :=
  ∀ row ∈ batch.rows, ∀ (meaning : Meaning) direction, (.expression meaning, direction) ∈ entries →
    ∃ outcome, meaning.Settles settled batch.environment (batch.frame.onRow row) outcome

theorem SettlesOn.exists_outcomes {batch : Batch} (settles : SettlesOn settled entries batch) :
    ∃ outcomes, ∀ row ∈ numbered batch.rows, Settles settled entries batch.environment batch.frame outcomes row := by
  have each (entry place : Nat) : ∃ outcome, ∀ (meaning : Meaning) direction row,
      entries[entry]? = some (.expression meaning, direction) → batch.rows[place]? = some row →
        meaning.Settles settled batch.environment (batch.frame.onRow row) outcome := by
    by_cases known : ∃ (meaning : Meaning) (direction : Direction) (row : Value),
        entries[entry]? = some (.expression meaning, direction) ∧ batch.rows[place]? = some row
    · obtain ⟨meaning, direction, row, present, inside⟩ := known
      obtain ⟨outcome, found⟩ :=
        settles row (List.mem_of_getElem? inside) meaning direction (List.mem_of_getElem? present)
      refine ⟨outcome, fun meaning' direction' row' present' inside' => ?_⟩
      cases present.symm.trans present'
      cases inside.symm.trans inside'
      exact found
    · exact ⟨.ok .null, fun meaning direction row present inside =>
        absurd ⟨meaning, direction, row, present, inside⟩ known⟩
  choose outcomes found using each
  refine ⟨outcomes, fun row member entry meaning direction present => ?_⟩
  obtain ⟨place, inside, rfl⟩ := List.mem_mapIdx.mp member
  exact found entry place meaning direction _ present (List.getElem?_eq_getElem inside)

/-- A sort that starts with nothing remembered ends so, whatever comes of it; what comes of it depends neither on the
world nor on whether keys are remembered. -/
theorem SettlesOn.exists_result {batch : Batch} (settles : SettlesOn settled entries batch) :
    ∃ result, ∀ caching world, settled world → ∃ left, settled left ∧
      (RowOrder.mk entries caching).attempt batch.rows batch.environment batch.frame .start world =
        .ok (result, .start) left := by
  obtain ⟨outcomes, each⟩ := settles.exists_outcomes
  by_cases short : (entries.isEmpty || decide (batch.rows.length < 2)) = true
  · refine ⟨.ok batch.rows, fun caching world start => ⟨world, start, ?_⟩⟩
    rw [attempt, if_pos short]
    rfl
  · obtain ⟨course, -, takes⟩ := sortHalves_alike each
    let result : Except Error (List Value) :=
      match (course none).2 with
      | some error => .error error
      | none => .ok ((course none).1.map (·.2))
    refine ⟨result, fun caching world start => ?_⟩
    obtain ⟨later, left, -, stop, failure, ran⟩ := takes caching .start world (SortState.exact_start outcomes) start
    refine ⟨left, stop, ?_⟩
    rw [attempt, if_neg short, SortM.bind_of_ok ran, SortM.bind_of_ok (SortM.get_ok later left),
      SortM.bind_of_ok (SortM.set_ok .start _ _), failure]
    dsimp only [result, SortState.start]
    cases (course none).2 <;> rfl

end Batches

/-- A number has no weight. -/
theorem weight_fails (environment : Environment) (frame : Frame) (number : Int32) :
    Meaning.Settles Weighs (.member ⟨"weight", [.name "weight"]⟩) environment (frame.onRow (.int32 number))
      (.error (.accessorMismatch ("weight" ++ " at " ++ (Step.entry "weight").text) DataType.int32.text)) := by
  rintro ⟨heap, ⟨state, branches⟩, counters, readings, accessors⟩ resolved
  cases resolved
  exact ⟨⟨heap, .node (.operand none _) branches, counters, readings, accessors⟩, rfl, rfl⟩

/-- A batch that cannot be sorted, as one of its rows has no weight, before one that can. -/
def unevenBatches : List Batch :=
  [[weighing 7, .int32 1], [weighing 1, weighing 7, weighing 1]].map fun rows =>
    ⟨rows, ⟨.empty, .default⟩, ⟨none, rows, none, none, ⟨0, none⟩, ""⟩⟩

end RowOrder

end RecordQuery
