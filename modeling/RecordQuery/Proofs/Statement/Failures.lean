import RecordQuery.Proofs.Evaluation.Outcome
import RecordQuery.Proofs.Statement.Batches
/-! Failures of sort keys. A comparison cannot fail, so a failing key counts as null, and its failure is noted. As every
one of at least two rows takes part in a comparison, a sort that nothing was noted in has found the first key of each
row; and what is noted comes from a key of a row that is being sorted. -/

namespace RecordQuery

namespace RowOrder

namespace Batch

/-- Evaluating an entry on a row of the batch leads back into a set of worlds, whatever comes of it. -/
def Closed (settled : World → Prop) (entries : List (SortSource × Direction)) (batch : Batch) : Prop :=
  ∀ row ∈ batch.rows, ∀ (meaning : Meaning) direction, (.expression meaning, direction) ∈ entries →
    ∀ world, settled world → settled (EvalM.after (meaning.evaluate batch.environment (batch.frame.onRow row)) world)

/-- An error is that of an entry on a row of the batch, told with the entry. -/
def Raises (settled : World → Prop) (entries : List (SortSource × Direction)) (batch : Batch) (error : Error) : Prop :=
  ∃ (meaning : Meaning) (direction : Direction), (.expression meaning, direction) ∈ entries ∧ ∃ row ∈ batch.rows,
    ∃ world cause left, settled world ∧
      meaning.evaluate batch.environment (batch.frame.onRow row) world = .error cause left ∧
      error = .within ("order by " ++ meaning.text) cause

/-- An expression has a value on a row of the batch, from any of a set of worlds the same one. -/
def Succeeds (settled : World → Prop) (batch : Batch) (meaning : Meaning) (row : Value) : Prop :=
  ∃ value, meaning.Settles settled batch.environment (batch.frame.onRow row) (.ok value)

/-- An expression has one outcome on each row of the batch. -/
def Decides (settled : World → Prop) (batch : Batch) (meaning : Meaning) : Prop :=
  ∀ row ∈ batch.rows, ∃ outcome, meaning.Settles settled batch.environment (batch.frame.onRow row) outcome

end Batch

end RowOrder

/-- While a batch is being sorted, a failure that is noted is one of this batch; and unless there is one, the first key
of a row is remembered only if the row has one. -/
structure SortState.Notes (settled : World → Prop) (entries : List (SortSource × Direction)) (first : Meaning)
    (batch : RowOrder.Batch) (state : SortState) (world : World) : Prop where
  inside : settled world
  raised : ∀ error, state.failure = some error → batch.Raises settled entries error
  kept : ∀ row ∈ RowOrder.numbered batch.rows, ∀ value, state.keys[(row.1, 0)]? = some value → state.failure = none →
    batch.Succeeds settled first row.2

/-- A sorting step always has a result, with a property; if no failure is noted after it, none was before, and each of
some rows has its first key. -/
def Tells {α : Type} (settled : World → Prop) (entries : List (SortSource × Direction)) (first : Meaning)
    (batch : RowOrder.Batch) (property : α → Prop) (told : List (Nat × Value)) (action : SortM α) : Prop :=
  ∀ state world, state.Notes settled entries first batch world →
    ∃ result later left, property result ∧ later.Notes settled entries first batch left ∧
      action state world = .ok (result, later) left ∧
      (later.failure = none → state.failure = none ∧ ∀ row ∈ told, batch.Succeeds settled first row.2)

section Steps

variable {α β : Type} {settled : World → Prop} {entries : List (SortSource × Direction)} {first : Meaning}
  {batch : RowOrder.Batch}

theorem tells_pure {property : α → Prop} {result : α} (holds : property result) :
    Tells settled entries first batch property [] (pure result) :=
  fun state world notes => ⟨result, state, world, holds, notes, rfl, fun none => ⟨none, nofun⟩⟩

theorem Tells.bind {middle : α → Prop} {property : β → Prop} {told told' : List (Nat × Value)} {action : SortM α}
    {next : α → SortM β} (head : Tells settled entries first batch middle told action)
    (rest : ∀ value, middle value → Tells settled entries first batch property told' (next value)) :
    Tells settled entries first batch property (told ++ told') (action >>= next) := by
  intro state world notes
  obtain ⟨value, later, left, holds, notes, ran, none⟩ := head state world notes
  obtain ⟨result, last, stop, holds, notes, ran', none'⟩ := rest value holds later left notes
  refine ⟨result, last, stop, holds, notes, (SortM.bind_of_ok ran).trans ran', fun still => ?_⟩
  obtain ⟨unnoted, sound'⟩ := none' still
  obtain ⟨unnoted, sound⟩ := none unnoted
  exact ⟨unnoted, fun row member => (List.mem_append.mp member).elim (sound row) (sound' row)⟩

/-- What follows need not tell of anything. -/
theorem Tells.andThen {middle : α → Prop} {property : β → Prop} {told : List (Nat × Value)} {action : SortM α}
    {next : α → SortM β} (head : Tells settled entries first batch middle told action)
    (rest : ∀ value, middle value → Tells settled entries first batch property [] (next value)) :
    Tells settled entries first batch property told (action >>= next) := by
  simpa using head.bind rest

theorem Tells.mono {property property' : α → Prop} {told told' : List (Nat × Value)} {action : SortM α}
    (tells : Tells settled entries first batch property told action)
    (weaker : ∀ result, property result → property' result) (fewer : told' ⊆ told) :
    Tells settled entries first batch property' told' action := by
  intro state world notes
  obtain ⟨result, later, left, holds, notes, ran, none⟩ := tells state world notes
  exact ⟨result, later, left, weaker result holds, notes, ran,
    fun still => ⟨(none still).1, fun row member => (none still).2 row (fewer member)⟩⟩

theorem Tells.fewer {property : α → Prop} {told told' : List (Nat × Value)} {action : SortM α}
    (tells : Tells settled entries first batch property told action) (fewer : told' ⊆ told) :
    Tells settled entries first batch property told' action :=
  tells.mono (fun _ => id) fewer

end Steps

namespace RowOrder

/-- The rows that a merge compares first, if it compares any. -/
def foremost : List (Nat × Value) → List (Nat × Value) → List (Nat × Value)
  | a :: _, b :: _ => [a, b]
  | _, _ => []

theorem eq_of_perm_of_few {rows rows' : List (Nat × Value)} (perm : rows'.Perm rows) (few : rows.length < 2) :
    rows' = rows := by
  match rows with
  | [] => exact perm.eq_nil
  | [row] => exact List.perm_singleton.mp perm

/-- A half of one row is among the rows that are compared first. -/
theorem alone_subset_foremost {left left' right right' : List (Nat × Value)} (perm : left'.Perm left)
    (perm' : right'.Perm right) (some : 0 < left.length) (some' : 0 < right.length) :
    (if left.length < 2 then left else []) ++ (if right.length < 2 then right else []) ⊆ foremost left' right' := by
  rw [← perm.length_eq] at some
  rw [← perm'.length_eq] at some'
  obtain ⟨a, rest, rfl⟩ := List.exists_cons_of_length_pos some
  obtain ⟨b, rest', rfl⟩ := List.exists_cons_of_length_pos some'
  refine List.append_subset.mpr ⟨?_, ?_⟩
  · split
    · next few =>
      have same := eq_of_perm_of_few perm few
      rw [← same] at few ⊢
      simp [foremost, List.length_eq_zero_iff.mp (Nat.lt_one_iff.mp (Nat.lt_of_succ_lt_succ few))]
    · exact List.nil_subset _
  · split
    · next few =>
      have same := eq_of_perm_of_few perm' few
      rw [← same] at few ⊢
      simp [foremost, List.length_eq_zero_iff.mp (Nat.lt_one_iff.mp (Nat.lt_of_succ_lt_succ few))]
    · exact List.nil_subset _

section Batch

variable {settled : World → Prop} {entries : List (SortSource × Direction)} {first : Meaning} {batch : Batch}

/-- Rows of a batch at one place are one row. -/
theorem numbered_inj {rows : List Value} {a b : Nat × Value} (listed : a ∈ numbered rows) (listed' : b ∈ numbered rows)
    (same : a.1 = b.1) : a = b := by
  obtain ⟨place, inside, rfl⟩ := List.mem_mapIdx.mp listed
  obtain ⟨place', inside', rfl⟩ := List.mem_mapIdx.mp listed'
  cases same
  rfl

/-- Working a key out notes its failure; without one the key is that of the row. -/
theorem evaluateKey_tells {meaning : Meaning} {direction : Direction} {row : Nat × Value}
    (closed : batch.Closed settled entries) (listed : (.expression meaning, direction) ∈ entries)
    (member : row ∈ numbered batch.rows) {told : List (Nat × Value)}
    (own : ∀ world value left, settled world →
      meaning.evaluate batch.environment (batch.frame.onRow row.2) world = .ok value left →
        ∀ row ∈ told, batch.Succeeds settled first row.2) :
    Tells settled entries first batch (fun _ => True) told
      (evaluateKey meaning row.2 batch.environment batch.frame) := by
  intro state world notes
  have inside := closed row.2 (mem_of_numbered member) meaning direction listed world notes.inside
  cases ran : meaning.evaluate batch.environment (batch.frame.onRow row.2) world with
  | ok value left =>
    rw [EvalM.after_of_ok ran] at inside
    refine ⟨value, state, left, trivial, ⟨inside, notes.raised, notes.kept⟩, ?_, fun none =>
      ⟨none, own world value left notes.inside ran⟩⟩
    simp only [evaluateKey, ran]
  | error cause left =>
    rw [EvalM.after_of_error ran] at inside
    let noted := state.failure.or (some (.within ("order by " ++ meaning.text) cause))
    have some (none : noted = none) : False := by
      cases failure : state.failure <;> simp [noted, failure] at none
    refine ⟨.null, { state with failure := noted }, left, trivial, ⟨inside, fun error failed => ?_, fun _ _ _ _ none =>
      (some none).elim⟩, ?_, fun none => (some none).elim⟩
    · cases failure : state.failure with
      | some earlier =>
        refine notes.raised error (failure.trans ?_)
        simpa [noted, failure] using failed
      | none =>
        have told : .within ("order by " ++ meaning.text) cause = error := by simpa [noted, failure] using failed
        exact ⟨meaning, direction, listed, row.2, mem_of_numbered member, world, cause, left, notes.inside, ran,
          told.symm⟩
    · simp only [evaluateKey, ran]
      rfl

/-- The first key may be remembered once it has been told of its row. -/
theorem notes_insert {state : SortState} {world : World} {row : Nat × Value}
    (notes : state.Notes settled entries first batch world) (member : row ∈ numbered batch.rows) (entry : Nat)
    (value : Value) (told : entry = 0 → state.failure = none → batch.Succeeds settled first row.2) :
    SortState.Notes settled entries first batch { state with keys := state.keys.insert (row.1, entry) value }
      world where
  inside := notes.inside
  raised := notes.raised
  kept row' member' value' kept none := by
    simp only [Std.HashMap.getElem?_insert, beq_iff_eq, Prod.mk.injEq] at kept
    by_cases same : row.1 = row'.1 ∧ entry = 0
    · rw [← numbered_inj member member' same.1]
      exact told same.2 none
    · rw [if_neg same] at kept
      exact notes.kept row' member' value' kept none

/-- A remembered key tells what working it out has told. -/
theorem remembered_tells {entry : Nat} {meaning : Meaning} {row : Nat × Value} (member : row ∈ numbered batch.rows)
    (evaluated : Tells settled entries first batch (fun _ => True) (if entry = 0 then [row] else [])
      (evaluateKey meaning row.2 batch.environment batch.frame)) :
    Tells settled entries first batch (fun _ => True) (if entry = 0 then [row] else [])
      ((RowOrder.mk entries true).key entry (.expression meaning) row batch.environment batch.frame) := by
  intro state world notes
  cases kept : state.keys[(row.1, entry)]? with
  | some value =>
    refine ⟨value, state, world, trivial, notes, (SortM.bind_of_ok (SortM.get_ok state world)).trans ?_,
      fun none => ⟨none, ?_⟩⟩
    · simp only [kept]
      rfl
    · split
      · next zero =>
        rw [zero] at kept
        exact List.forall_mem_singleton.mpr (notes.kept row member value kept none)
      · exact nofun
  | none =>
    obtain ⟨value, later, left, -, notes, ran, told⟩ := evaluated state world notes
    refine ⟨value, _, left, trivial, notes_insert notes member entry value fun zero none => ?_,
      (SortM.bind_of_ok (SortM.get_ok state world)).trans ?_, told⟩
    · exact (told none).2 row (by simp [zero])
    · simp only [kept]
      exact SortM.bind_of_ok ran

variable (caching : Bool) {direction : Direction} (closed : batch.Closed settled entries)
  (begins : entries[0]? = some (.expression first, direction)) (decides : batch.Decides settled first)

include closed begins decides

/-- The key for the first entry tells of its row, worked out or remembered. -/
theorem key_tells {entry : Nat} {source : SortSource} {direction' : Direction} {row : Nat × Value}
    (listed : entries[entry]? = some (source, direction')) (member : row ∈ numbered batch.rows) :
    Tells settled entries first batch (fun _ => True) (if entry = 0 then [row] else [])
      ((RowOrder.mk entries caching).key entry source row batch.environment batch.frame) := by
  cases source with
  | position place =>
    -- The first entry is an expression, so this one tells of no row.
    have later : entry ≠ 0 := by
      rintro rfl
      cases begins.symm.trans listed
    rw [if_neg later]
    unfold key
    cases row.2 <;> exact tells_pure trivial
  | expression meaning =>
    have evaluated : Tells settled entries first batch (fun _ => True) (if entry = 0 then [row] else [])
        (evaluateKey meaning row.2 batch.environment batch.frame) := by
      refine evaluateKey_tells closed (List.mem_of_getElem? listed) member fun world value left start ran => ?_
      split
      · next zero =>
        subst zero
        cases begins.symm.trans listed
        obtain ⟨outcome, settles⟩ := decides row.2 (mem_of_numbered member)
        obtain ⟨_, -, ran'⟩ := settles world start
        rw [ran] at ran'
        cases outcome with
        | error error => cases ran'
        | ok value => exact List.forall_mem_singleton.mpr ⟨value, settles⟩
      · exact nofun
    cases caching with
    | false => exact evaluated
    | true => exact remembered_tells member evaluated

/-- A comparison tells of both rows. -/
theorem compareFrom_tells {a b : Nat × Value} (left : a ∈ numbered batch.rows) (right : b ∈ numbered batch.rows)
    (entry : Nat) {rest : List (SortSource × Direction)} (suffix : entries.drop entry = rest) :
    Tells settled entries first batch (fun _ => True) (if entry = 0 then [a, b] else [])
      ((RowOrder.mk entries caching).compareFrom a b batch.environment batch.frame entry rest) := by
  induction rest generalizing entry with
  | nil =>
    have later : entry ≠ 0 := by
      rintro rfl
      rw [List.drop_zero] at suffix
      simp [suffix] at begins
    rw [if_neg later]
    exact tells_pure trivial
  | cons head rest ih =>
    obtain ⟨source, direction'⟩ := head
    have listed : entries[entry]? = some (source, direction') := by
      rw [← Nat.add_zero entry, ← List.getElem?_drop, suffix]
      rfl
    have later := ih (entry + 1) (by rw [← List.drop_drop, suffix]; rfl)
    have keys (row : Nat × Value) (member : row ∈ numbered batch.rows) :=
      key_tells caching closed begins decides listed member
    refine Tells.fewer ((keys a left).bind fun key _ => (keys b right).andThen fun key' _ => ?_) ?_
    · cases key.compare key' with
      | eq => exact later.fewer (List.nil_subset _)
      | lt | gt => exact tells_pure trivial
    · split <;> simp

theorem compare_tells {a b : Nat × Value} (left : a ∈ numbered batch.rows) (right : b ∈ numbered batch.rows) :
    Tells settled entries first batch (fun _ => True) [a, b]
      ((RowOrder.mk entries caching).compare a b batch.environment batch.frame) :=
  compareFrom_tells caching closed begins decides left right 0 rfl

/-- Merging tells of the rows that it compares first. -/
theorem merge_tells {left right : List (Nat × Value)} (inside : left ++ right ⊆ numbered batch.rows) :
    Tells settled entries first batch (·.Perm (left ++ right)) (foremost left right)
      ((RowOrder.mk entries caching).merge batch.environment batch.frame left right) := by
  induction left generalizing right with
  | nil =>
    rw [merge]
    exact tells_pure (.refl _)
  | cons a left ihLeft =>
    induction right with
    | nil =>
      rw [merge]
      · exact tells_pure (by simp)
      · simp
    | cons b right ihRight =>
      have takesLeft := (@ihLeft (b :: right) fun row member => inside (List.mem_cons_of_mem _ member)).fewer
        (List.nil_subset _)
      have takesRight := (ihRight fun row member => inside (by grind)).fewer (List.nil_subset _)
      rw [merge]
      refine (compare_tells caching closed begins decides (inside (by simp)) (inside (by simp))).andThen
        fun order _ => ?_
      cases order with
      | lt | eq => exact takesLeft.bind fun merged perm => tells_pure (perm.cons a)
      | gt =>
        refine takesRight.bind fun merged perm => tells_pure ((perm.cons b).trans ?_)
        exact List.perm_middle.symm

/-- Sorting at least two rows tells of every one: a half of one row is compared when the halves are merged. -/
theorem sortHalves_tells (depth : Nat) {rows : List (Nat × Value)} (inside : rows ⊆ numbered batch.rows)
    (deep : rows.length ≤ depth + 1) :
    Tells settled entries first batch (·.Perm rows) (if rows.length < 2 then [] else rows)
      ((RowOrder.mk entries caching).sortHalves batch.environment batch.frame depth rows) := by
  induction depth generalizing rows with
  | zero =>
    rw [if_pos (by omega)]
    unfold sortHalves
    exact tells_pure (.refl _)
  | succ depth ih =>
    rcases rows with _ | ⟨one, _ | ⟨other, rest⟩⟩
    · exact tells_pure (.refl _)
    · exact tells_pure (.refl _)
    · rw [if_neg (by simp), sortHalves]
      generalize whole : one :: other :: rest = rows at *
      have size : rows.length = rest.length + 2 := by rw [← whole]; rfl
      obtain ⟨taken, taking⟩ : ∃ taken, rows.take ((rows.length + 1) / 2) = taken := ⟨_, rfl⟩
      obtain ⟨dropped, dropping⟩ : ∃ dropped, rows.drop ((rows.length + 1) / 2) = dropped := ⟨_, rfl⟩
      have joined : rows = taken ++ dropped := by rw [← taking, ← dropping, List.take_append_drop]
      have many : 0 < taken.length ∧ taken.length ≤ depth + 1 := by
        rw [← taking, List.length_take]
        omega
      have many' : 0 < dropped.length ∧ dropped.length ≤ depth + 1 := by
        rw [← dropping, List.length_drop]
        omega
      rw [taking, dropping, joined]
      rw [joined] at inside
      have left := @ih taken (fun row member => inside (List.mem_append_left _ member)) many.2
      have right := @ih dropped (fun row member => inside (List.mem_append_right _ member)) many'.2
      have merged := left.bind fun half perm => right.bind fun half' perm' =>
        (merge_tells caching closed begins decides fun row member =>
          inside ((perm.append perm').subset member)).mono (fun result whole => whole.trans (perm.append perm'))
            (alone_subset_foremost perm perm' many.1 many'.1)
      refine merged.fewer fun row member => ?_
      simp only [List.mem_append] at member ⊢
      rcases member with member | member
      · by_cases few : taken.length < 2 <;> simp [few, member]
      · by_cases few : dropped.length < 2 <;> simp [few, member]

/-- Sorting a batch that starts with nothing remembered ends so. If it succeeds with at least two rows, each has its
first key, and if it fails, it does so with the failure of a key of one of the rows. -/
theorem attempt_tells {world : World} (start : settled world) :
    ∃ result left, settled left ∧
      (RowOrder.mk entries caching).attempt batch.rows batch.environment batch.frame .start world =
        .ok (result, .start) left ∧
      match result with
      | .ok _ => 2 ≤ batch.rows.length → ∀ row ∈ batch.rows, batch.Succeeds settled first row
      | .error error => batch.Raises settled entries error := by
  by_cases short : (entries.isEmpty || decide (batch.rows.length < 2)) = true
  · refine ⟨.ok batch.rows, world, start, ?_, fun many => ?_⟩
    · rw [attempt, if_pos short]
      rfl
    · rcases (Bool.or_eq_true _ _).mp short with none | few
      · simp [List.isEmpty_iff.mp none] at begins
      · exact absurd (of_decide_eq_true few) (by omega)
  · have notes : SortState.start.Notes settled entries first batch world :=
      ⟨start, fun _ kept => by simp [SortState.start] at kept, fun _ _ _ kept => by simp [SortState.start] at kept⟩
    obtain ⟨sorted, later, left, -, notes, ran, told⟩ := sortHalves_tells caching closed begins decides
      batch.rows.length (List.Subset.refl (numbered batch.rows)) (by simp [numbered]) .start world notes
    have attempted : (RowOrder.mk entries caching).attempt batch.rows batch.environment batch.frame .start world =
        .ok (later.failure.elim (.ok (sorted.map (·.2))) .error, .start) left := by
      rw [attempt, if_neg short, SortM.bind_of_ok ran, SortM.bind_of_ok (SortM.get_ok later left),
        SortM.bind_of_ok (SortM.set_ok .start _ _)]
      cases later.failure <;> rfl
    refine ⟨_, left, notes.inside, attempted, ?_⟩
    cases failure : later.failure with
    | some error => exact notes.raised error failure
    | none =>
      intro many row member
      obtain ⟨place, inside, rfl⟩ := List.mem_iff_getElem.mp member
      have same : (numbered batch.rows).length = batch.rows.length := by simp [numbered]
      have size : ¬ (numbered batch.rows).length < 2 := by
        rw [same]
        omega
      refine (told failure).2 (place, batch.rows[place]) ?_
      rw [if_neg size]
      exact List.mem_mapIdx.mpr ⟨place, inside, rfl⟩

end Batch

section Batches

variable {settled : World → Prop} {entries : List (SortSource × Direction)} {first : Meaning} {direction : Direction}

/-- What sorting a batch comes to, whatever was sorted before: one of at least two rows is sorted only if the first
expression has a value on every row, and one that is not sorted fails with the failure of an entry on one of its own
rows, told with the entry. -/
def Told (settled : World → Prop) (entries : List (SortSource × Direction)) (caching : Bool) (first : Meaning)
    (batch : Batch) (result : Except Error (List Value)) : Prop :=
  (∃ begun left, settled begun ∧
    (RowOrder.mk entries caching).sort batch.rows batch.environment batch.frame .start begun =
      EvalM.ofExcept (result.map (·, .start)) left) ∧
  match result with
  | .ok _ => 2 ≤ batch.rows.length → ∀ row ∈ batch.rows, batch.Succeeds settled first row
  | .error error => batch.Raises settled entries error

/-- Sorting batches one after the other, by entries of which the first is an expression with one outcome on each row,
swallows no failure of that expression, and tells none of another batch. -/
theorem sortBatches_tells {batches : List Batch} (caching : Bool)
    (begins : entries[0]? = some (.expression first, direction))
    (closed : ∀ batch ∈ batches, batch.Closed settled entries) (decides : ∀ batch ∈ batches, batch.Decides settled first)
    {world : World} (start : settled world) :
    ∃ results left, settled left ∧
      (RowOrder.mk entries caching).sortBatches batches .start world = .ok (results, .start) left ∧
      List.Forall₂ (Told settled entries caching first) batches results := by
  induction batches generalizing world with
  | nil => exact ⟨[], world, start, rfl, .nil⟩
  | cons batch rest ih =>
    rw [List.forall_mem_cons] at closed decides
    obtain ⟨result, middle, between, ran, tells⟩ := attempt_tells caching closed.1 begins decides.1 start
    obtain ⟨results, left, stop, rested, others⟩ := ih closed.2 decides.2 between
    refine ⟨result :: results, left, stop, (SortM.bind_of_ok ran).trans (SortM.bind_of_ok rested),
      .cons ⟨⟨world, middle, start, ?_⟩, tells⟩ others⟩
    rw [sort_eq, SortM.bind_of_ok ran]
    cases result <;> rfl

/-- A batch with a row without a weight, before one whose rows all have one. -/
theorem sortBatches_tells_of_unevenBatches :
    let world : World := { World.start with memory := .node (.operand none
      (some ⟨⟨"weight", [.name "weight"]⟩, .map, .any, [.entry "weight"]⟩)) [] }
    ∃ results left, Weighs left ∧ byWeight.sortBatches unevenBatches .start world = .ok (results, .start) left ∧
      List.Forall₂ (Told Weighs byWeight.entries true (.member ⟨"weight", [.name "weight"]⟩)) unevenBatches results := by
  intro world
  have kinds : ∀ batch ∈ unevenBatches, ∀ row ∈ batch.rows,
      (∃ weight, row = weighing weight) ∨ ∃ number, row = .int32 number := by
    intro batch member row inside
    obtain ⟨rows, listed, rfl⟩ := List.mem_map.mp member
    simp only [List.mem_cons, List.not_mem_nil, or_false] at listed
    rcases listed with rfl | rfl <;> simp only [List.mem_cons, List.not_mem_nil, or_false] at inside <;> grind
  have decides : ∀ batch ∈ unevenBatches, batch.Decides Weighs (.member ⟨"weight", [.name "weight"]⟩) := by
    intro batch member row inside
    rcases kinds batch member row inside with ⟨weight, rfl⟩ | ⟨number, rfl⟩
    · exact ⟨.ok (.int32 weight), weight_gives _ _ weight⟩
    · exact ⟨_, weight_fails _ _ number⟩
  refine sortBatches_tells true rfl (fun batch member row inside meaning direction present start weighs => ?_) decides
    (rfl : Weighs world)
  cases List.mem_singleton.mp present
  obtain ⟨outcome, settles⟩ := decides batch member row inside
  obtain ⟨left, stop, ran⟩ := settles start weighs
  cases outcome with
  | ok value => exact EvalM.after_of_ok ran ▸ stop
  | error error => exact EvalM.after_of_error ran ▸ stop

end Batches

end RowOrder

end RecordQuery
