import RecordQuery.Meaning.Operand
import RecordQuery.Proofs.Evaluation.Outcome
import RecordQuery.Proofs.Value.Order
import RecordQuery.Statement.Ordering
/-! Sorting rows by keys that are free of side effects. The sort with its effects is the merge sort of the rows by
their keys and, among equal keys, by their places. -/

namespace RecordQuery

/-- Wherever it starts from in a set of states, a sorting step has this result and ends in the set. -/
def Yields {α : Type} (valid : SortState → World → Prop) (action : SortM α) (result : α) : Prop :=
  ∀ state world, valid state world →
    ∃ state' world', valid state' world' ∧ action state world = .ok (result, state') world'

theorem SortM.bind_of_ok {α β : Type} {first : SortM α} {next : α → SortM β} {state later : SortState}
    {world left : World} {value : α} (ran : first state world = .ok (value, later) left) :
    (first >>= next) state world = next value later left := by
  simp only [Bind.bind, StateT.bind, EStateM.bind, ran]

theorem SortM.get_ok (state : SortState) (world : World) :
    (get : SortM SortState) state world = .ok (state, state) world := rfl

theorem SortM.set_ok (new state : SortState) (world : World) :
    (set new : SortM PUnit) state world = .ok (⟨⟩, new) world := rfl

section Steps

variable {α β : Type} {valid : SortState → World → Prop}

theorem yields_pure (result : α) : Yields valid (pure result) result :=
  fun state world start => ⟨state, world, start, rfl⟩

theorem Yields.bind {first : SortM α} {next : α → SortM β} {middle : α} {result : β}
    (left : Yields valid first middle) (right : Yields valid (next middle) result) :
    Yields valid (first >>= next) result := by
  intro state world start
  obtain ⟨state', world', between, ran⟩ := left state world start
  obtain ⟨state'', world'', stop, ran'⟩ := right state' world' between
  refine ⟨state'', world'', stop, ?_⟩
  rw [← ran']
  show (first state >>= fun found => next found.1 found.2) world = _
  simp only [Bind.bind, EStateM.bind, ran]

end Steps

/-- The key that a sort source gives of a row. An expression is free of side effects where, from any of a set of
worlds, it has the same value and leads back into the set. -/
def SortSource.Gives (settled : World → Prop) (source : SortSource) (environment : Environment) (frame : Frame)
    (row key : Value) : Prop :=
  match source with
  | position place => key = match row with
    | .list items => (items[place]?).getD .null
    | _ => .null
  | expression meaning => ∀ world, settled world →
    ∃ after, settled after ∧ meaning.evaluate environment (frame.onRow row) world = .ok key after

/-- The order of two rows, known by their places, by their keys for entries from a given place on. -/
def compareKeysFrom (keyOf : Nat → Nat → Value.Plain) (a b : Nat) : Nat → List (SortSource × Direction) → Ordering
  | _, [] => .eq
  | entry, (_, direction) :: rest =>
    (direction.apply ((keyOf entry a).compare (keyOf entry b))).then (compareKeysFrom keyOf a b (entry + 1) rest)

/-- Each entry is free of side effects on a row, and has its key of it. -/
def GivesKeys (settled : World → Prop) (entries : List (SortSource × Direction)) (environment : Environment)
    (frame : Frame) (keyOf : Nat → Value → Value.Plain) (row : Value) : Prop :=
  ∀ entry (source : SortSource) direction, entries[entry]? = some (source, direction) →
    source.Gives settled environment frame row (keyOf entry row).1

namespace RowOrder

/-- An order by one expression. -/
def byOne (meaning : Meaning) (direction : Direction) (caching : Bool) : RowOrder :=
  ⟨[(.expression meaning, direction)], caching⟩

/-- Each entry of the order gives its key of a row. -/
def Gives (order : RowOrder) (settled : World → Prop) (environment : Environment) (frame : Frame)
    (keyOf : Nat → Nat → Value.Plain) (row : Nat × Value) : Prop :=
  ∀ entry (source : SortSource) direction, order.entries[entry]? = some (source, direction) →
    source.Gives settled environment frame row.2 (keyOf entry row.1).1

/-- The lexicographic order of two rows by their keys. -/
def compareKeys (order : RowOrder) (keyOf : Nat → Nat → Value.Plain) (a b : Nat) : Ordering :=
  compareKeysFrom keyOf a b 0 order.entries

/-- Whether a row comes before another one: by keys, and by place if those are equal. -/
def before (order : RowOrder) (keyOf : Nat → Nat → Value.Plain) (a b : Nat × Value) : Bool :=
  ((order.compareKeys keyOf a.1 b.1).then (Ord.compare a.1 b.1)).isLE

end RowOrder

/-- What a sort remembers agrees with the keys. -/
structure SortState.Agrees (keyOf : Nat → Nat → Value.Plain) (state : SortState) : Prop where
  kept : ∀ place entry value, state.keys[(place, entry)]? = some value → value = (keyOf entry place).1
  failure : state.failure = none

section Keys

variable {settled : World → Prop} {environment : Environment} {frame : Frame} {keyOf : Nat → Nat → Value.Plain}
  {order : RowOrder}

theorem SortState.agrees_start (keyOf : Nat → Nat → Value.Plain) : SortState.start.Agrees keyOf :=
  ⟨fun place entry value kept => by simp [SortState.start] at kept, rfl⟩

theorem SortState.Agrees.insert {state : SortState} (agrees : state.Agrees keyOf) (place entry : Nat) :
    SortState.Agrees keyOf { state with keys := state.keys.insert (place, entry) (keyOf entry place).1 } where
  kept place' entry' value kept := by
    simp only [Std.HashMap.getElem?_insert, beq_iff_eq, Prod.mk.injEq] at kept
    split at kept
    · rename_i same
      obtain ⟨rfl, rfl⟩ := same
      cases kept
      rfl
    · exact agrees.kept place' entry' value kept
  failure := agrees.failure

/-- The states that a sort goes through. -/
def Sorting (settled : World → Prop) (keyOf : Nat → Nat → Value.Plain) (state : SortState) (world : World) : Prop :=
  state.Agrees keyOf ∧ settled world

theorem RowOrder.evaluateKey_yields (keyOf : Nat → Nat → Value.Plain) {meaning : Meaning} {row key : Value}
    (gives : (SortSource.expression meaning).Gives settled environment frame row key) :
    Yields (Sorting settled keyOf) (RowOrder.evaluateKey meaning row environment frame) key := by
  intro state world ⟨agrees, start⟩
  obtain ⟨after, stop, ran⟩ := gives world start
  exact ⟨state, after, ⟨agrees, stop⟩, by simp only [RowOrder.evaluateKey, ran]⟩

/-- A key is the same worked out and remembered. -/
theorem RowOrder.key_yields {entry : Nat} {source : SortSource} {row : Nat × Value}
    (gives : source.Gives settled environment frame row.2 (keyOf entry row.1).1) :
    Yields (Sorting settled keyOf) (order.key entry source row environment frame) (keyOf entry row.1).1 := by
  cases source with
  | position place =>
    rw [gives]
    unfold RowOrder.key
    cases row.2 <;> exact yields_pure _
  | expression meaning =>
    have evaluated := RowOrder.evaluateKey_yields keyOf gives
    unfold RowOrder.key
    cases order.caching with
    | false => exact evaluated
    | true =>
      intro state world start
      cases kept : state.keys[(row.1, entry)]? with
      | some value =>
        rw [← start.1.kept _ _ _ kept]
        refine ⟨state, world, start, (SortM.bind_of_ok (SortM.get_ok state world)).trans ?_⟩
        simp only [kept]
        rfl
      | none =>
        obtain ⟨state', world', ⟨agrees, stop⟩, ran⟩ := evaluated state world start
        refine ⟨_, world', ⟨agrees.insert row.1 entry, stop⟩, (SortM.bind_of_ok (SortM.get_ok state world)).trans ?_⟩
        simp only [kept]
        exact SortM.bind_of_ok ran

end Keys

theorem mergeSort_halves {α : Type} (before : α → α → Bool) (first second : α) (rest : List α) :
    (first :: second :: rest).mergeSort before =
      (((first :: second :: rest).take ((rest.length + 3) / 2)).mergeSort before).merge
        (((first :: second :: rest).drop ((rest.length + 3) / 2)).mergeSort before) before := by
  rw [List.mergeSort]
  simp [List.MergeSort.Internal.splitInTwo]

namespace RowOrder

/-- Each entry of the order yields its key of a row, worked out or remembered. -/
def YieldsKeys (order : RowOrder) (valid : SortState → World → Prop) (environment : Environment) (frame : Frame)
    (keyOf : Nat → Nat → Value.Plain) (row : Nat × Value) : Prop :=
  ∀ entry (source : SortSource) direction, order.entries[entry]? = some (source, direction) →
    Yields valid (order.key entry source row environment frame) (keyOf entry row.1).1

section Yielding

variable {valid : SortState → World → Prop} {environment : Environment} {frame : Frame}
  {keyOf : Nat → Nat → Value.Plain} {order : RowOrder}

theorem Gives.yieldsKeys {settled : World → Prop} {row : Nat × Value}
    (gives : order.Gives settled environment frame keyOf row) :
    order.YieldsKeys (Sorting settled keyOf) environment frame keyOf row :=
  fun entry source direction present => key_yields (gives entry source direction present)

theorem compareFrom_yields {a b : Nat × Value} {entries : List (SortSource × Direction)} {first : Nat}
    (keys : ∀ entry (source : SortSource) direction, entries[entry]? = some (source, direction) → ∀ row ∈ [a, b],
      Yields valid (order.key (first + entry) source row environment frame) (keyOf (first + entry) row.1).1) :
    Yields valid (order.compareFrom a b environment frame first entries)
      (compareKeysFrom keyOf a.1 b.1 first entries) := by
  induction entries generalizing first with
  | nil => exact yields_pure _
  | cons head rest ih =>
    obtain ⟨source, direction⟩ := head
    have own := keys 0 source direction rfl
    have later := @ih (first + 1) fun entry source direction present row member => by
      have found := keys (entry + 1) source direction present row member
      rwa [Nat.add_assoc, Nat.add_comm 1]
    refine (own a (by simp)).bind ((own b (by simp)).bind ?_)
    rw [compareKeysFrom, Value.Plain.compare]
    cases (keyOf first a.1).1.compare (keyOf first b.1).1 with
    | eq => cases direction <;> exact later
    | lt | gt => cases direction <;> exact yields_pure _

theorem compare_yields {a b : Nat × Value} (left : order.YieldsKeys valid environment frame keyOf a)
    (right : order.YieldsKeys valid environment frame keyOf b) :
    Yields valid (order.compare a b environment frame) (order.compareKeys keyOf a.1 b.1) := by
  refine compareFrom_yields fun entry source direction present row member => ?_
  rw [Nat.zero_add]
  rcases List.mem_cons.mp member with rfl | member
  · exact left entry source direction present
  · cases List.mem_singleton.mp member
    exact right entry source direction present

/-- Of two rows in the order of their places, the later one comes first only if its keys say so. -/
theorem before_of_place {a b : Nat × Value} (place : a.1 < b.1) :
    order.before keyOf a b = (order.compareKeys keyOf a.1 b.1 != .gt) := by
  rw [before, Nat.compare_eq_lt.mpr place]
  cases order.compareKeys keyOf a.1 b.1 <;> rfl

theorem merge_yields {left right : List (Nat × Value)}
    (keys : ∀ row ∈ left ++ right, order.YieldsKeys valid environment frame keyOf row)
    (apart : ∀ a ∈ left, ∀ b ∈ right, a.1 < b.1) :
    Yields valid (order.merge environment frame left right)
      (left.merge right (order.before keyOf)) := by
  induction left generalizing right with
  | nil =>
    rw [merge, List.nil_merge]
    exact yields_pure _
  | cons a left ihLeft =>
    induction right with
    | nil =>
      rw [merge, List.merge_right]
      · exact yields_pure _
      · simp
    | cons b right ihRight =>
      have place := apart a (by simp) b (by simp)
      have compared := compare_yields (keys a (by simp)) (keys b (by simp))
      rw [merge, List.cons_merge_cons, before_of_place place]
      refine compared.bind ?_
      have takesLeft := @ihLeft (b :: right) (fun row member => keys row (List.mem_cons_of_mem _ member))
        fun a' member => apart a' (List.mem_cons_of_mem _ member)
      have takesRight := ihRight (fun row member => keys row (by grind))
        fun a' member b' member' => apart a' member b' (List.mem_cons_of_mem _ member')
      cases order.compareKeys keyOf a.1 b.1 with
      | lt | eq => exact takesLeft.bind (yields_pure _)
      | gt => exact takesRight.bind (yields_pure _)

theorem sortHalves_yields {depth : Nat} {rows : List (Nat × Value)}
    (keys : ∀ row ∈ rows, order.YieldsKeys valid environment frame keyOf row)
    (ascending : rows.Pairwise fun a b => a.1 < b.1) (deep : rows.length ≤ depth + 1) :
    Yields valid (order.sortHalves environment frame depth rows)
      (rows.mergeSort (order.before keyOf)) := by
  induction depth generalizing rows with
  | zero =>
    match rows with
    | [] => rw [List.mergeSort_nil]; exact yields_pure _
    | [row] => rw [List.mergeSort_singleton]; exact yields_pure _
    | first :: second :: rest => simp at deep
  | succ depth ih =>
    match rows with
    | [] => rw [List.mergeSort_nil]; exact yields_pure _
    | [row] => rw [List.mergeSort_singleton]; exact yields_pure _
    | first :: second :: rest =>
      rw [mergeSort_halves, sortHalves]
      generalize whole : first :: second :: rest = rows at *
      have size : rows.length = rest.length + 2 := by rw [← whole]; rfl
      rw [size]
      rw [← List.take_append_drop ((rest.length + 3) / 2) rows] at keys ascending
      obtain ⟨left, right, apart⟩ := List.pairwise_append.mp ascending
      have sortedLeft := @ih (rows.take ((rest.length + 3) / 2))
        (fun row member => keys row (List.mem_append_left _ member)) left (by grind)
      have sortedRight := @ih (rows.drop ((rest.length + 3) / 2))
        (fun row member => keys row (List.mem_append_right _ member)) right (by grind)
      refine sortedLeft.bind (sortedRight.bind (merge_yields ?_ ?_))
      · intro row member
        refine keys row ?_
        rcases List.mem_append.mp member with inLeft | inRight
        · exact List.mem_append_left _ (List.mem_mergeSort.mp inLeft)
        · exact List.mem_append_right _ (List.mem_mergeSort.mp inRight)
      · intro a inLeft b inRight
        exact apart a (List.mem_mergeSort.mp inLeft) b (List.mem_mergeSort.mp inRight)

end Yielding

end RowOrder

section Result

variable {keyOf : Nat → Nat → Value.Plain}

/-- Of several comparisons the first one that finds a difference decides. -/
def firstDifference (comparisons : List Ordering) : Ordering := comparisons.foldr Ordering.then .eq

theorem firstDifference_eq_iff (comparisons : List Ordering) :
    firstDifference comparisons = .eq ↔ ∀ comparison ∈ comparisons, comparison = .eq := by
  induction comparisons with
  | nil => simp [firstDifference]
  | cons head rest ih =>
    rw [List.forall_mem_cons, ← ih]
    exact Ordering.then_eq_eq

theorem firstDifference_swap (comparisons : List Ordering) :
    firstDifference (comparisons.map Ordering.swap) = (firstDifference comparisons).swap := by
  induction comparisons with
  | nil => rfl
  | cons head rest ih =>
    change head.swap.then (firstDifference (rest.map Ordering.swap)) = _
    rw [ih, ← Ordering.swap_then]
    rfl

theorem compareKeysFrom_eq_firstDifference (keyOf : Nat → Nat → Value.Plain) (a b first : Nat)
    (entries : List (SortSource × Direction)) :
    compareKeysFrom keyOf a b first entries = firstDifference (entries.mapIdx fun entry source =>
      source.2.apply ((keyOf (first + entry) a).compare (keyOf (first + entry) b))) := by
  induction entries generalizing first with
  | nil => rfl
  | cons head rest ih =>
    rw [compareKeysFrom, ih, List.mapIdx_cons]
    simp only [Nat.add_assoc first, Nat.add_comm 1]
    rfl

theorem Direction.apply_fits {left right whole : Ordering} (direction : Direction) (fits : Fits left right whole) :
    Fits (direction.apply left) (direction.apply right) (direction.apply whole) := by
  cases direction with
  | ascending => exact fits
  | descending =>
    obtain ⟨eqLeft, eqRight, less, more⟩ := fits
    refine ⟨fun same => ?_, fun same => ?_, fun a b => ?_, fun a b => ?_⟩
    · exact congrArg Ordering.swap (eqLeft (Ordering.swap_eq_eq.mp same))
    · exact congrArg Ordering.swap (eqRight (Ordering.swap_eq_eq.mp same))
    · exact Ordering.swap_eq_lt.mpr (more (Ordering.swap_eq_lt.mp a) (Ordering.swap_eq_lt.mp b))
    · exact Ordering.swap_eq_gt.mpr (less (Ordering.swap_eq_gt.mp a) (Ordering.swap_eq_gt.mp b))

theorem Direction.apply_swap (direction : Direction) (order : Ordering) :
    direction.apply order.swap = (direction.apply order).swap := by
  cases direction <;> rfl

theorem compareKeysFrom_fits (keyOf : Nat → Nat → Value.Plain) (a b c first : Nat)
    (entries : List (SortSource × Direction)) :
    Fits (compareKeysFrom keyOf a b first entries) (compareKeysFrom keyOf b c first entries)
      (compareKeysFrom keyOf a c first entries) := by
  induction entries generalizing first with
  | nil => exact fits_eq
  | cons head rest ih =>
    have keys := fits_of_transCmp Value.Plain.compare (keyOf first a) (keyOf first b) (keyOf first c)
    exact (head.2.apply_fits keys).andThen fun _ _ => ih (first + 1)

theorem compareKeysFrom_swap (keyOf : Nat → Nat → Value.Plain) (a b first : Nat)
    (entries : List (SortSource × Direction)) :
    compareKeysFrom keyOf b a first entries = (compareKeysFrom keyOf a b first entries).swap := by
  induction entries generalizing first with
  | nil => rfl
  | cons head rest ih =>
    have keys : (keyOf first b).compare (keyOf first a) = ((keyOf first a).compare (keyOf first b)).swap :=
      Std.OrientedCmp.eq_swap
    rw [compareKeysFrom, compareKeysFrom, Ordering.swap_then, ih, ← Direction.apply_swap, keys]

namespace RowOrder

variable {order : RowOrder}

theorem before_trans (a b c : Nat × Value)
    (first : order.before keyOf a b = true) (second : order.before keyOf b c = true) :
    order.before keyOf a c = true := by
  have keys := compareKeysFrom_fits keyOf a.1 b.1 c.1 0 order.entries
  exact (keys.andThen fun _ _ => fits_of_transCmp Ord.compare a.1 b.1 c.1).isLE first second

theorem before_total (a b : Nat × Value) :
    (order.before keyOf a b || order.before keyOf b a) = true := by
  have keys := compareKeysFrom_swap keyOf a.1 b.1 0 order.entries
  rw [before, before, compareKeys, compareKeys, keys, Std.OrientedOrd.eq_swap (a := b.1), ← Ordering.swap_then]
  cases (compareKeysFrom keyOf a.1 b.1 0 order.entries).then (Ord.compare a.1 b.1) <;> rfl

/-- What coming before means for rows at different places. -/
theorem before_iff {a b : Nat × Value} (apart : a.1 ≠ b.1) : order.before keyOf a b = true ↔
    order.compareKeys keyOf a.1 b.1 ≠ .gt ∧ (order.compareKeys keyOf a.1 b.1 = .eq → a.1 < b.1) := by
  unfold before
  cases order.compareKeys keyOf a.1 b.1 with
  | lt => simp
  | gt => simp
  | eq =>
    rw [Ordering.eq_then, Nat.isLE_compare]
    simp
    omega

theorem before_refl (a : Nat × Value) : order.before keyOf a a = true := by
  have total : (order.before keyOf a a || order.before keyOf a a) = true := before_total a a
  simpa using total

/-- Rows that come before each other are at one place. -/
theorem before_antisymm {a b : Nat × Value} (forth : order.before keyOf a b = true)
    (back : order.before keyOf b a = true) : a.1 = b.1 := by
  refine Decidable.byContradiction fun apart => ?_
  obtain ⟨least, tie⟩ := (before_iff apart).mp forth
  obtain ⟨least', tie'⟩ := (before_iff (Ne.symm apart)).mp back
  have turned : order.compareKeys keyOf b.1 a.1 = (order.compareKeys keyOf a.1 b.1).swap := compareKeysFrom_swap ..
  rw [turned] at least' tie'
  cases compared : order.compareKeys keyOf a.1 b.1 with
  | lt => exact least' (by rw [compared]; rfl)
  | gt => exact least compared
  | eq => exact absurd (tie compared) (Nat.lt_asymm (tie' (by rw [compared]; rfl)))

/-- Rows with their places. -/
def numbered (rows : List Value) : List (Nat × Value) := rows.mapIdx fun place row => (place, row)

theorem numbered_ascending (rows : List Value) : (numbered rows).Pairwise fun a b => a.1 < b.1 := by
  rw [List.pairwise_iff_getElem]
  intro i j inside inside' less
  simpa [numbered] using less

theorem numbered_map_snd (rows : List Value) : (numbered rows).map (·.2) = rows := by
  refine List.ext_getElem (by simp [numbered]) fun place _ _ => ?_
  simp [numbered]

theorem mem_of_numbered {rows : List Value} {row : Nat × Value} (listed : row ∈ numbered rows) : row.2 ∈ rows :=
  numbered_map_snd rows ▸ List.mem_map_of_mem listed

/-- Once sorted by halves, the rows come out without their places, unless a failure has been noted. -/
theorem sort_of_halves {environment : Environment} {frame : Frame} {rows : List Value} {sorted : List (Nat × Value)}
    {state : SortState} {world left : World}
    (long : ¬(order.entries.isEmpty || decide (rows.length < 2)) = true)
    (ran : order.sortHalves environment frame rows.length (numbered rows) .start world = .ok (sorted, state) left) :
    order.sort rows environment frame .start world = match state.failure with
      | none => .ok (sorted.map (·.2), .start) left
      | some error => .error error left := by
  rw [sort, if_neg long]
  simp only [numbered] at ran ⊢
  rw [SortM.bind_of_ok ran, SortM.bind_of_ok (SortM.get_ok state left), SortM.bind_of_ok (SortM.set_ok .start _ _)]
  cases state.failure <;> rfl

/-- A sort whose keys are known gives the rows in the order of their keys and places, unless a key has failed. -/
theorem sort_of_keys {valid : SortState → World → Prop} {environment : Environment} {frame : Frame} {rows : List Value}
    {world : World} (keys : ∀ row ∈ numbered rows, order.YieldsKeys valid environment frame keyOf row)
    (start : valid .start world) :
    ∃ (sorted : List (Nat × Value)) (state : SortState) (left : World), valid state left ∧
      sorted.Perm (numbered rows) ∧ (sorted.Pairwise fun a b => order.before keyOf a b = true) ∧
      order.sort rows environment frame .start world = match state.failure with
        | none => .ok (sorted.map (·.2), .start) left
        | some error => .error error left := by
  by_cases short : (order.entries.isEmpty || decide (rows.length < 2)) = true
  · refine ⟨numbered rows, .start, world, start, .rfl, ?_, ?_⟩
    · refine (numbered_ascending rows).imp_of_mem fun {a b} first second less => ?_
      rw [before_of_place less]
      rcases (Bool.or_eq_true _ _).mp short with none | few
      · rw [compareKeys, List.isEmpty_iff.mp none]
        rfl
      · simp only [numbered, List.mem_mapIdx] at first second
        have few := of_decide_eq_true few
        grind
    · rw [sort, if_pos short, numbered_map_snd]
      rfl
  · have deep : (numbered rows).length ≤ rows.length + 1 := by simp [numbered]
    obtain ⟨state, left, stop, ran⟩ :=
      sortHalves_yields keys (numbered_ascending rows) deep .start world start
    exact ⟨_, state, left, stop, List.mergeSort_perm .., List.pairwise_mergeSort before_trans before_total _,
      sort_of_halves short ran⟩

/-- Keys known of rows as keys known of the places the rows have. -/
def keysByPlace (rows : List Value) (ownKey : Nat → Value → Value.Plain) (entry place : Nat) : Value.Plain :=
  ownKey entry ((rows[place]?).getD .null)

theorem keysByPlace_eq {rows : List Value} {row : Nat × Value} (listed : row ∈ numbered rows)
    (ownKey : Nat → Value → Value.Plain) (entry : Nat) :
    keysByPlace rows ownKey entry row.1 = ownKey entry row.2 := by
  obtain ⟨place, inside, rfl⟩ := List.mem_mapIdx.mp listed
  simp [keysByPlace, inside]

/-- Where the keys are known of the rows themselves, a sort gives the rows in the order of their keys and places. -/
theorem sort_of_rows {settled : World → Prop} {entries : List (SortSource × Direction)} {environment : Environment}
    {frame : Frame} {ownKey : Nat → Value → Value.Plain} {rows : List Value} (caching : Bool)
    (gives : ∀ row ∈ rows, GivesKeys settled entries environment frame ownKey row) {world : World}
    (start : settled world) :
    ∃ (keyOf : Nat → Nat → Value.Plain) (sorted : List (Nat × Value)) (left : World), settled left ∧
      (∀ row ∈ numbered rows, ∀ entry, keyOf entry row.1 = ownKey entry row.2) ∧ sorted.Perm (numbered rows) ∧
      (sorted.Pairwise fun a b => (RowOrder.mk entries caching).before keyOf a b = true) ∧
      (RowOrder.mk entries caching).sort rows environment frame .start world = .ok (sorted.map (·.2), .start) left := by
  have keys : ∀ row ∈ numbered rows, (RowOrder.mk entries caching).YieldsKeys
      (Sorting settled (keysByPlace rows ownKey)) environment frame (keysByPlace rows ownKey) row := by
    refine fun row member => Gives.yieldsKeys fun entry source direction present => ?_
    rw [keysByPlace_eq member]
    exact gives row.2 (mem_of_numbered member) entry source direction present
  obtain ⟨sorted, state, left, ⟨agrees, stop⟩, perm, ordered, ran⟩ :=
    sort_of_keys keys ⟨SortState.agrees_start _, start⟩
  rw [agrees.failure] at ran
  exact ⟨_, sorted, left, stop, fun row member => keysByPlace_eq member ownKey, perm, ordered, ran⟩

/-- Sorting rows whose keys are free of side effects and hold no records gives all rows, each once, in the order of
their keys, rows with equal keys in the order they came in. -/
theorem sort_sorts {settled : World → Prop} {environment : Environment} {frame : Frame} {rows : List Value}
    {world : World} (start : settled world)
    (gives : ∀ row ∈ numbered rows, order.Gives settled environment frame keyOf row) :
    ∃ (sorted : List (Nat × Value)) (after : World), settled after ∧
      order.sort rows environment frame .start world = .ok (sorted.map (·.2), .start) after ∧
      sorted.Perm (numbered rows) ∧
      sorted.Pairwise fun a b => order.compareKeys keyOf a.1 b.1 ≠ .gt ∧
        (order.compareKeys keyOf a.1 b.1 = .eq → a.1 < b.1) := by
  obtain ⟨sorted, state, after, ⟨agrees, stop⟩, perm, ordered, ran⟩ :=
    sort_of_keys (fun row member => (gives row member).yieldsKeys) ⟨SortState.agrees_start keyOf, start⟩
  rw [agrees.failure] at ran
  -- Coming before says so much only of rows at different places.
  have apart : sorted.Pairwise fun a b => a.1 ≠ b.1 :=
    (perm.pairwise_iff fun other => Ne.symm other).mpr ((numbered_ascending rows).imp Nat.ne_of_lt)
  exact ⟨sorted, after, stop, ran, perm, (ordered.and apart).imp fun both => (before_iff both.2).mp both.1⟩

/-- The row at hand. -/
def currentRow : Meaning := .bind (some "_currobj") none

/-- No path has been resolved. -/
def Pathless (world : World) : Prop := world.memory.state.accessor? = none

theorem currentRow_gives (environment : Environment) (frame : Frame) (row : Value) :
    (SortSource.expression currentRow).Gives Pathless environment frame row row := by
  intro world none
  refine ⟨world, none, ?_⟩
  change Meaning.followPath row world = _
  rw [Meaning.followPath, EvalM.node_bind, none]
  rfl

/-- A map whose only entry is its weight. -/
def weighing (weight : Int32) : Value := .map [(.string "weight", .int32 weight)]

/-- The heaviest rows first, each weighed once. -/
def byWeight : RowOrder := ⟨[(.expression (.member ⟨"weight", [.name "weight"]⟩), .descending)], true⟩

/-- The path to the weight has been resolved. -/
def Weighs (world : World) : Prop :=
  world.memory.state = .operand none (some ⟨⟨"weight", [.name "weight"]⟩, .map, .any, [.entry "weight"]⟩)

/-- The weights of three rows, the middle one the heaviest. -/
def weightOf (_ place : Nat) : Value.Plain := ⟨.int32 (if place = 1 then 7 else 1), by simp [Value.records]⟩

theorem weight_gives (environment : Environment) (frame : Frame) (weight : Int32) :
    SortSource.Gives Weighs (.expression (.member ⟨"weight", [.name "weight"]⟩)) environment frame (weighing weight)
      (.int32 weight) := by
  rintro ⟨heap, ⟨state, branches⟩, counters, readings, accessors⟩ resolved
  cases resolved
  exact ⟨⟨heap, .node (.operand none _) branches, counters, readings, accessors⟩, rfl, rfl⟩

theorem sort_sorts_weights :
    ∃ (sorted : List (Nat × Value)) (after : World), Weighs after ∧
      byWeight.sort [weighing 1, weighing 7, weighing 1] ⟨.empty, .default⟩ ⟨none, [], none, none, ⟨0, none⟩, ""⟩
        .start { World.start with memory := .node (.operand none
          (some ⟨⟨"weight", [.name "weight"]⟩, .map, .any, [.entry "weight"]⟩)) [] } =
        .ok (sorted.map (·.2), .start) after ∧
      sorted.Perm (numbered [weighing 1, weighing 7, weighing 1]) ∧
      sorted.Pairwise fun a b => byWeight.compareKeys weightOf a.1 b.1 ≠ .gt ∧
        (byWeight.compareKeys weightOf a.1 b.1 = .eq → a.1 < b.1) := by
  refine sort_sorts (show Weighs _ from rfl) fun row member entry source direction present => ?_
  cases entry with
  | succ entry => simp [byWeight] at present
  | zero =>
    cases present
    simp only [numbered, List.mapIdx_cons, List.mapIdx_nil, List.mem_cons, List.not_mem_nil, or_false] at member
    rcases member with rfl | rfl | rfl
    · exact weight_gives _ _ 1
    · exact weight_gives _ _ 7
    · exact weight_gives _ _ 1

end RowOrder

end Result

end RecordQuery
