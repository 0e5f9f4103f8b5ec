import RecordQuery.Proofs.Statement.Ordering
/-! Sorting rows of which no two tie. What comes of it is the one list of them in the order of their keys, so the order
that the rows come in makes no difference, and reversing every direction reverses the list. -/

namespace RecordQuery

/-- The other direction. -/
def Direction.reverse : Direction → Direction
  | ascending => descending
  | descending => ascending

/-- Sort entries with every direction reversed. -/
def reverseEntries (entries : List (SortSource × Direction)) : List (SortSource × Direction) :=
  entries.map fun (source, direction) => (source, direction.reverse)

theorem Direction.apply_reverse (direction : Direction) (order : Ordering) :
    direction.reverse.apply order = (direction.apply order).swap := by
  cases direction with
  | ascending => rfl
  | descending => exact Ordering.swap_swap.symm

/-- Two rows tie where their keys are equal for each entry. -/
def Tie (entries : List (SortSource × Direction)) (keyOf : Nat → Value → Value.Plain) (a b : Value) : Prop :=
  ∀ entry < entries.length, (keyOf entry a).compare (keyOf entry b) = .eq

instance (entries : List (SortSource × Direction)) (keyOf : Nat → Value → Value.Plain) (a b : Value) :
    Decidable (Tie entries keyOf a b) :=
  inferInstanceAs (Decidable (∀ entry < entries.length, (keyOf entry a).compare (keyOf entry b) = .eq))

/-- The order of two rows by their keys for each entry, the first difference deciding. -/
def compareRows (entries : List (SortSource × Direction)) (keyOf : Nat → Value → Value.Plain) (a b : Value) :
    Ordering :=
  firstDifference (entries.mapIdx fun entry source => source.2.apply ((keyOf entry a).compare (keyOf entry b)))

section Comparison

variable {entries : List (SortSource × Direction)} {keyOf : Nat → Value → Value.Plain}

theorem Tie.symm {a b : Value} (tie : Tie entries keyOf a b) : Tie entries keyOf b a :=
  fun entry inside => Std.OrientedCmp.eq_comm.mp (tie entry inside)

theorem tie_of_compareRows {a b : Value} (equal : compareRows entries keyOf a b = .eq) : Tie entries keyOf a b := by
  intro entry inside
  have own := (firstDifference_eq_iff _).mp equal (entries[entry].2.apply _) (List.mem_mapIdx.mpr ⟨entry, inside, rfl⟩)
  cases direction : entries[entry].2 with
  | ascending => rwa [direction] at own
  | descending =>
    rw [direction] at own
    exact Ordering.swap_eq_eq.mp own

theorem compareRows_swap (a b : Value) : compareRows entries keyOf b a = (compareRows entries keyOf a b).swap := by
  rw [compareRows, compareRows, ← firstDifference_swap]
  refine congrArg firstDifference (List.ext_getElem (by simp) fun entry _ _ => ?_)
  have keys : (keyOf entry b).compare (keyOf entry a) = ((keyOf entry a).compare (keyOf entry b)).swap :=
    Std.OrientedCmp.eq_swap
  simp [keys, Direction.apply_swap]

theorem compareRows_reverse (a b : Value) :
    compareRows (reverseEntries entries) keyOf a b = (compareRows entries keyOf a b).swap := by
  rw [compareRows, compareRows, ← firstDifference_swap]
  refine congrArg firstDifference (List.ext_getElem (by simp [reverseEntries]) fun entry _ _ => ?_)
  simp [reverseEntries, Direction.apply_reverse]

theorem tie_reverse {a b : Value} : Tie (reverseEntries entries) keyOf a b ↔ Tie entries keyOf a b := by
  simp [Tie, reverseEntries]

/-- There is at most one list of given rows in which each comes before all later ones. -/
theorem eq_of_perm_of_compareRows {first second : List Value} (perm : first.Perm second)
    (ordered : first.Pairwise fun a b => compareRows entries keyOf a b = .lt)
    (ordered' : second.Pairwise fun a b => compareRows entries keyOf a b = .lt) : first = second := by
  refine perm.eq_of_pairwise (fun a b _ _ before after => ?_) ordered ordered'
  rw [compareRows_swap, before] at after
  cases after

end Comparison

section Sorted

variable {settled : World → Prop} {entries : List (SortSource × Direction)} {environment : Environment} {frame : Frame}
  {keyOf : Nat → Value → Value.Plain} {rows : List Value}

theorem GivesKeys.reverse {row : Value} (gives : GivesKeys settled entries environment frame keyOf row) :
    GivesKeys settled (reverseEntries entries) environment frame keyOf row := by
  intro entry source direction present
  simp only [reverseEntries, List.getElem?_map, Option.map_eq_some_iff, Prod.exists, Prod.mk.injEq] at present
  obtain ⟨_, direction', present, rfl, -⟩ := present
  exact gives entry _ direction' present

namespace RowOrder

/-- Rows of which no two tie are sorted into the order of their keys. -/
theorem sort_untied (caching : Bool) (gives : ∀ row ∈ rows, GivesKeys settled entries environment frame keyOf row)
    (apart : rows.Pairwise fun a b => ¬ Tie entries keyOf a b) {world : World} (start : settled world) :
    ∃ sorted left, settled left ∧
      (RowOrder.mk entries caching).sort rows environment frame .start world = .ok (sorted, .start) left ∧
      sorted.Perm rows ∧ sorted.Pairwise fun a b => compareRows entries keyOf a b = .lt := by
  obtain ⟨keyOf', sorted, left, stop, placed, perm, ordered, ran⟩ := sort_of_rows caching gives start
  have perm' : (sorted.map (·.2)).Perm rows := numbered_map_snd rows ▸ perm.map _
  refine ⟨sorted.map (·.2), left, stop, ran, perm', List.pairwise_map.mpr ?_⟩
  have untied : sorted.Pairwise fun a b => ¬ Tie entries keyOf a.2 b.2 :=
    List.pairwise_map.mp ((perm'.pairwise_iff fun other tie => other tie.symm).mpr apart)
  refine (ordered.and untied).imp_of_mem fun {a b} first second both => ?_
  have compared : (RowOrder.mk entries caching).compareKeys keyOf' a.1 b.1 = compareRows entries keyOf a.2 b.2 := by
    rw [compareKeys, compareKeysFrom_eq_firstDifference]
    simp only [Nat.zero_add, placed a (perm.subset first), placed b (perm.subset second)]
    rfl
  obtain ⟨before, other⟩ := both
  rw [RowOrder.before, compared] at before
  cases order : compareRows entries keyOf a.2 b.2 with
  | lt => rfl
  | eq => exact absurd (tie_of_compareRows order) other
  | gt =>
    rw [order] at before
    cases before

/-- Rows of which no two tie on all keys are sorted into one list of them, each before all later ones, in whatever order
they come; with every direction reversed they are sorted into the reverse of this list. -/
theorem sort_reverses (gives : ∀ row ∈ rows, GivesKeys settled entries environment frame keyOf row)
    (apart : rows.Pairwise fun a b => ¬ Tie entries keyOf a b) {start : World} (begins : settled start) :
    ∃ sorted : List Value, sorted.Perm rows ∧ (sorted.Pairwise fun a b => compareRows entries keyOf a b = .lt) ∧
      ∀ arranged : List Value, arranged.Perm rows → ∀ caching world, settled world →
        (∃ left, settled left ∧
          (RowOrder.mk entries caching).sort arranged environment frame .start world = .ok (sorted, .start) left) ∧
        ∃ left, settled left ∧ (RowOrder.mk (reverseEntries entries) caching).sort arranged environment frame .start
          world = .ok (sorted.reverse, .start) left := by
  obtain ⟨sorted, -, -, -, perm, ordered⟩ := sort_untied false gives apart begins
  refine ⟨sorted, perm, ordered, fun arranged arrangement caching world settles => ?_⟩
  have gives' : ∀ row ∈ arranged, GivesKeys settled entries environment frame keyOf row :=
    fun row member => gives row (arrangement.subset member)
  have apart' : arranged.Pairwise fun a b => ¬ Tie entries keyOf a b :=
    (arrangement.pairwise_iff fun other tie => other tie.symm).mpr apart
  constructor
  · obtain ⟨again, left, stop, ran, perm', ordered'⟩ := sort_untied caching gives' apart' settles
    rw [eq_of_perm_of_compareRows (perm'.trans (arrangement.trans perm.symm)) ordered' ordered] at ran
    exact ⟨left, stop, ran⟩
  · obtain ⟨reversed, left, stop, ran, perm', ordered'⟩ := sort_untied caching
      (fun row member => (gives' row member).reverse) (apart'.imp fun other tie => other (tie_reverse.mp tie))
      settles
    have forth : reversed.reverse.Pairwise fun a b => compareRows entries keyOf a b = .lt := by
      refine List.pairwise_reverse.mpr (ordered'.imp fun {a b} before => ?_)
      rw [compareRows_swap, ← compareRows_reverse]
      exact before
    have same : reversed.reverse = sorted :=
      eq_of_perm_of_compareRows ((List.reverse_perm _).trans (perm'.trans (arrangement.trans perm.symm))) forth ordered
    rw [← same, List.reverse_reverse]
    exact ⟨left, stop, ran⟩

/-- Entries of which the first tells no maps apart, and the second tells them by weight. -/
def placeThenWeight : List (SortSource × Direction) :=
  (.position 0, .ascending) :: byWeight.entries

theorem records_null : Value.null.records = [] := rfl

theorem records_int32 (weight : Int32) : (Value.int32 weight).records = [] := rfl

/-- The keys of a map by place and by weight. -/
def placeAndWeight : Nat → Value → Value.Plain
  | 1, .map [(_, .int32 weight)] => ⟨.int32 weight, records_int32 weight⟩
  | _, _ => ⟨.null, records_null⟩

theorem placeAndWeight_gives (environment : Environment) (frame : Frame) (weight : Int32) :
    GivesKeys Weighs placeThenWeight environment frame placeAndWeight (weighing weight)
  | 0, _, _, present => by cases present; rfl
  | 1, _, _, present => by cases present; exact weight_gives environment frame weight

/-- Three maps in either of two orders. -/
theorem sort_reverses_weights :
    let rows := [weighing 1, weighing 7, weighing 4]
    let world : World := { World.start with memory := .node (.operand none
      (some ⟨⟨"weight", [.name "weight"]⟩, .map, .any, [.entry "weight"]⟩)) [] }
    let frame : Frame := ⟨none, rows, none, none, ⟨0, none⟩, ""⟩
    ∃ sorted left left', sorted.Perm rows ∧
      (RowOrder.mk placeThenWeight true).sort [weighing 7, weighing 4, weighing 1] ⟨.empty, .default⟩ frame .start
        world = .ok (sorted, .start) left ∧
      (RowOrder.mk (reverseEntries placeThenWeight) true).sort rows ⟨.empty, .default⟩ frame .start world =
        .ok (sorted.reverse, .start) left' := by
  intro rows world frame
  have gives : ∀ row ∈ rows, GivesKeys Weighs placeThenWeight ⟨.empty, .default⟩ frame placeAndWeight row := by
    intro row member
    obtain ⟨weight, -, rfl⟩ : ∃ weight ∈ [1, 7, 4], weighing weight = row := List.mem_map.mp member
    exact placeAndWeight_gives _ _ weight
  have apart : rows.Pairwise fun a b => ¬ Tie placeThenWeight placeAndWeight a b := by decide
  obtain ⟨sorted, perm, -, sorts⟩ := sort_reverses gives apart (show Weighs world from rfl)
  have arrangement : ([weighing 7, weighing 4] ++ [weighing 1]).Perm rows := List.perm_append_comm
  obtain ⟨⟨left, -, ran⟩, -⟩ := sorts _ arrangement true world rfl
  obtain ⟨-, left', -, ran'⟩ := sorts rows .rfl true world rfl
  exact ⟨sorted, left, left', perm, ran, ran'⟩

end RowOrder

end Sorted

end RecordQuery
