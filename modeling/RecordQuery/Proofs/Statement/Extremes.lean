import RecordQuery.Proofs.Meaning.Aggregation
import RecordQuery.Proofs.Statement.Ordering
/-! The least and the greatest value of an expression on rows, and the rows in the order of that expression. Of equal
values the first is the least and the last the greatest, and a stable sort leaves equal rows as they came: so both are
values on the rows at the ends of the order. -/

namespace RecordQuery

section Picking

variable {α β : Type} {pick : β → β → β} {valueOf : α → β} {ahead : α → α → Prop}

/-- Of two elements the value of one is picked, which is ahead of the other. -/
def Picks (pick : β → β → β) (valueOf : α → β) (ahead : α → α → Prop) (a b : α) : Prop :=
  (pick (valueOf a) (valueOf b) = valueOf a ∧ ahead a b) ∨ (pick (valueOf a) (valueOf b) = valueOf b ∧ ahead b a)

section Order

variable (refl : ∀ a, ahead a a) (trans : ∀ a b c, ahead a b → ahead b c → ahead a c)
include refl trans

/-- Picking all along a list comes to the value of an element ahead of all. -/
theorem exists_picked {first : α} {rest : List α} (picks : (first :: rest).Pairwise (Picks pick valueOf ahead)) :
    ∃ chosen ∈ first :: rest, (rest.map valueOf).foldl pick (valueOf first) = valueOf chosen ∧
      ∀ other ∈ first :: rest, ahead chosen other := by
  induction rest generalizing first with
  | nil => exact ⟨first, List.mem_cons_self, rfl, by simpa using refl first⟩
  | cons second rest ih =>
    simp only [List.pairwise_cons, List.forall_mem_cons] at picks
    obtain ⟨⟨pair, own⟩, own', later⟩ := picks
    -- The value picked of the first two stands for both from here on.
    rcases pair with ⟨picked, before⟩ | ⟨picked, before⟩
    · obtain ⟨chosen, member, result, leads⟩ := ih (List.pairwise_cons.mpr ⟨own, later⟩)
      rw [List.forall_mem_cons] at leads
      refine ⟨chosen, by grind, by rwa [List.map_cons, List.foldl_cons, picked], ?_⟩
      simp only [List.forall_mem_cons]
      exact ⟨leads.1, trans _ _ _ leads.1 before, leads.2⟩
    · obtain ⟨chosen, member, result, leads⟩ := ih (List.pairwise_cons.mpr ⟨own', later⟩)
      rw [List.forall_mem_cons] at leads
      refine ⟨chosen, List.mem_cons_of_mem _ member, by rwa [List.map_cons, List.foldl_cons, picked], ?_⟩
      simp only [List.forall_mem_cons]
      exact ⟨trans _ _ _ leads.1 before, leads⟩

/-- Picking all along a list comes to the value of the first element of any arrangement of it by what is ahead. -/
theorem foldl_eq_head (antisymm : ∀ a b, ahead a b → ahead b a → valueOf a = valueOf b) {first : α}
    {rest sorted : List α} (picks : (first :: rest).Pairwise (Picks pick valueOf ahead))
    (perm : sorted.Perm (first :: rest)) (ordered : sorted.Pairwise ahead) :
    (sorted.map valueOf).head? = some ((rest.map valueOf).foldl pick (valueOf first)) := by
  obtain ⟨chosen, member, result, leads⟩ := exists_picked refl trans picks
  cases sorted with
  | nil => cases perm.nil_eq
  | cons head tail =>
    rw [result, List.map_cons, List.head?_cons, Option.some.injEq]
    rcases List.mem_cons.mp (perm.mem_iff.mpr member) with rfl | later
    · rfl
    · exact antisymm _ _ (List.rel_of_pairwise_cons ordered later) (leads head (perm.subset List.mem_cons_self))

end Order

end Picking

namespace RowOrder

section Ends

variable {operand : Meaning} {caching : Bool} {keyOf : Nat → Nat → Value.Plain} {rows sorted : List (Nat × Value)}

/-- Of two rows in the order of their places, the later one comes first exactly if the key of the earlier is greater. -/
theorem before_of_compare {a b : Nat × Value} (place : a.1 < b.1) :
    ((keyOf 0 a.1).1.compare (keyOf 0 b.1).1 = .gt ∧ (byOne operand .ascending caching).before keyOf b a = true) ∨
      ((keyOf 0 a.1).1.compare (keyOf 0 b.1).1 ≠ .gt ∧ (byOne operand .ascending caching).before keyOf a b = true) := by
  have keys : (byOne operand .ascending caching).compareKeys keyOf a.1 b.1 = (keyOf 0 a.1).1.compare (keyOf 0 b.1).1 :=
    Ordering.then_eq ..
  have total : ((byOne operand .ascending caching).before keyOf a b ||
      (byOne operand .ascending caching).before keyOf b a) = true := before_total a b
  rw [before_of_place place, keys] at *
  by_cases greater : (keyOf 0 a.1).1.compare (keyOf 0 b.1).1 = .gt
  · exact .inl ⟨greater, by simpa [greater] using total⟩
  · exact .inr ⟨greater, by simpa using greater⟩

variable (ascending : rows.Pairwise fun a b => a.1 < b.1) (perm : sorted.Perm rows)
  (ordered : sorted.Pairwise fun a b => (byOne operand .ascending caching).before keyOf a b = true)
include ascending perm ordered

/-- The least key is that of the first row in ascending order. -/
theorem least_eq_head : Aggregate.least (rows.map fun row => (keyOf 0 row.1).1) =
    (sorted.map fun row => (keyOf 0 row.1).1).headD .null := by
  cases rows with
  | nil =>
    cases perm.eq_nil
    rfl
  | cons first rest =>
    have same (a b : Nat × Value) (forth : (byOne operand .ascending caching).before keyOf a b = true)
        (back : (byOne operand .ascending caching).before keyOf b a = true) : (keyOf 0 a.1).1 = (keyOf 0 b.1).1 := by
      rw [before_antisymm forth back]
    rw [List.headD_eq_head?_getD,
      foldl_eq_head before_refl before_trans same (ascending.imp fun {a b} place => ?_) perm ordered]
    · rfl
    · rcases before_of_compare place with ⟨greater, before⟩ | ⟨least, before⟩
      · exact .inr ⟨if_pos (beq_iff_eq.mpr greater), before⟩
      · exact .inl ⟨if_neg fun same => least (beq_iff_eq.mp same), before⟩

/-- The greatest key is that of the last row in ascending order, the first one in the order turned around. -/
theorem greatest_eq_last : Aggregate.greatest (rows.map fun row => (keyOf 0 row.1).1) =
    (sorted.map fun row => (keyOf 0 row.1).1).getLastD .null := by
  cases rows with
  | nil =>
    cases perm.eq_nil
    rfl
  | cons first rest =>
    have same (a b : Nat × Value) (forth : (byOne operand .ascending caching).before keyOf b a = true)
        (back : (byOne operand .ascending caching).before keyOf a b = true) : (keyOf 0 a.1).1 = (keyOf 0 b.1).1 := by
      rw [before_antisymm forth back]
    rw [List.getLastD_eq_getLast?, ← List.head?_reverse, ← List.map_reverse,
      foldl_eq_head before_refl (fun a b c after after' => before_trans c b a after' after) same
        (ascending.imp fun {a b} place => ?_) ((List.reverse_perm _).trans perm) (List.pairwise_reverse.mpr ordered)]
    · rfl
    · rcases before_of_compare place with ⟨greater, before⟩ | ⟨least, before⟩
      · exact .inl ⟨if_pos (beq_iff_eq.mpr greater), before⟩
      · exact .inr ⟨if_neg fun same => least (beq_iff_eq.mp same), before⟩

end Ends

example : Aggregate.least [.int32 1, .int64 1] = .int32 1 ∧ Aggregate.greatest [.int32 1, .int64 1] = .int64 1 :=
  ⟨rfl, rfl⟩

/-- Keys known of places are the values of the rows there. -/
theorem map_keys {keyOf : Nat → Nat → Value.Plain} {valueOf : Value → Value.Plain} {rows : List (Nat × Value)}
    (placed : ∀ row ∈ rows, ∀ entry, keyOf entry row.1 = valueOf row.2) :
    (rows.map fun row => (keyOf 0 row.1).1) = (rows.map (·.2)).map fun row => (valueOf row).1 := by
  rw [List.map_map]
  exact List.map_congr_left fun row member => congrArg Subtype.val (placed row member 0)

/-- The rows on which a value is not null. -/
def present (valueOf : Value → Value.Plain) (rows : List Value) : List Value :=
  rows.filter fun row => !(valueOf row).1.isNull

/-- A call of `min` has the value of its operand on the first row, and one of `max` the value on the last row, of all
rows with a value other than null in ascending order of the operand, and null if there are no such rows. -/
theorem extremes_are_ends {settled settled' : World → Prop} {operand : Meaning} {environment : Environment}
    {frame frame' : Frame} {valueOf : Value → Value.Plain}
    (gives : ∀ row ∈ frame.rows,
      (SortSource.expression operand).Gives settled environment frame row (valueOf row).1)
    (gives' : ∀ row ∈ present valueOf frame.rows,
      (SortSource.expression operand).Gives settled' environment frame' row (valueOf row).1)
    (caching : Bool) {world : World} (start : settled' world) :
    ∃ sorted left, settled' left ∧ sorted.Perm (present valueOf frame.rows) ∧
      (byOne operand .ascending caching).sort (present valueOf frame.rows) environment frame' .start world =
        .ok (sorted, .start) left ∧
      ∀ name begun,
        (World.Aggregates settled environment .min begun → ∃ ended, ended.Aggregates settled environment .min ∧
          (Meaning.call name (Meaning.each [operand] .argument)).evaluate environment frame begun =
            .ok ((sorted.map fun row => (valueOf row).1).headD .null) ended) ∧
        (World.Aggregates settled environment .max begun → ∃ ended, ended.Aggregates settled environment .max ∧
          (Meaning.call name (Meaning.each [operand] .argument)).evaluate environment frame begun =
            .ok ((sorted.map fun row => (valueOf row).1).getLastD .null) ended) := by
  have keys : ∀ row ∈ present valueOf frame.rows,
      GivesKeys settled' [(.expression operand, .ascending)] environment frame' (fun _ => valueOf) row := by
    intro row member entry source direction found
    cases entry with
    | zero =>
      cases found
      exact gives' row member
    | succ entry => cases found
  obtain ⟨keyOf, sorted, left, stop, placed, perm, ordered, ran⟩ := sort_of_rows caching keys start
  have values : (frame.rows.map fun row => (valueOf row).1).filter (fun value => !value.isNull) =
      (numbered (present valueOf frame.rows)).map fun row => (keyOf 0 row.1).1 := by
    rw [map_keys placed, numbered_map_snd]
    exact List.filter_map
  have values' : (sorted.map fun row => (keyOf 0 row.1).1) = (sorted.map (·.2)).map fun row => (valueOf row).1 :=
    map_keys fun row member => placed row (perm.subset member)
  have ascending := numbered_ascending (present valueOf frame.rows)
  have arranged := perm.map (·.2)
  rw [numbered_map_snd] at arranged
  refine ⟨sorted.map Prod.snd, left, stop, arranged, ran, fun name begun =>
    ⟨Meaning.call_aggregates (by decide) gives name ?_, Meaning.call_aggregates (by decide) gives name ?_⟩⟩
  · rw [values, ← values']
    exact congrArg Except.ok (least_eq_head ascending perm ordered)
  · rw [values, ← values']
    exact congrArg Except.ok (greatest_eq_last ascending perm ordered)

theorem records_own (row : Value) : (if row.records.isEmpty then row else .null).records = [] := by
  split
  · next plain => exact List.isEmpty_iff.mp plain
  · rfl

/-- A value itself, unless there are records in it. -/
def ownValue (row : Value) : Value.Plain := ⟨if row.records.isEmpty then row else .null, records_own row⟩

theorem currentRow_gives_own (environment : Environment) (frame : Frame) {row : Value}
    (plain : row.records.isEmpty = true) :
    (SortSource.expression currentRow).Gives Pathless environment frame row (ownValue row).1 := by
  rw [show (ownValue row).1 = row from if_pos plain]
  exact currentRow_gives environment frame row

theorem currentRow_prepare (setting : Setting) (world : World) : ∃ left,
    currentRow.prepare setting world = .ok () left ∧ Pathless left := by
  have allowed : ("_currobj".startsWith "_" && !isReserved "_currobj") = false := by decide +kernel
  refine ⟨{ world with memory := world.memory.withState (.operand world.memory.state.name? none) }, ?_, rfl⟩
  unfold currentRow Meaning.bind
  dsimp only
  rw [allowed]
  rfl

/-- Numbers of three widths, two of them least and two greatest, and a row without a value. -/
theorem extremes_are_ends_of_mixed :
    let rows : List Value := [.int32 2, .null, .float64 (.ofInt 1), .int64 1, .float64 (.ofInt 2)]
    let setting : Setting := ⟨.any, ⟨.empty, .default⟩, ⟨0, none⟩⟩
    let frame : Frame := ⟨none, rows, none, none, ⟨0, none⟩, ""⟩
    let least := Meaning.call "min" (Meaning.each [currentRow] .argument)
    let greatest := Meaning.call "max" (Meaning.each [currentRow] .argument)
    ∃ sorted left begun begun' ended ended', sorted.Perm (present ownValue rows) ∧
      (byOne currentRow .ascending true).sort (present ownValue rows) setting.environment frame .start .start =
        .ok (sorted, .start) left ∧
      least.prepare setting .start = .ok () begun ∧
      least.evaluate setting.environment frame begun =
        .ok ((sorted.map fun row => (ownValue row).1).headD .null) ended ∧
      greatest.prepare setting .start = .ok () begun' ∧
      greatest.evaluate setting.environment frame begun' =
        .ok ((sorted.map fun row => (ownValue row).1).getLastD .null) ended' := by
  intro rows setting frame least greatest
  have gives : ∀ row ∈ frame.rows,
      (SortSource.expression currentRow).Gives Pathless setting.environment frame row (ownValue row).1 := by
    have plain : ∀ row ∈ rows, row.records.isEmpty = true := by simp [rows, Value.records]
    exact fun row member => currentRow_gives_own _ _ (plain row member)
  have gives' : ∀ row ∈ present ownValue frame.rows,
      (SortSource.expression currentRow).Gives Pathless setting.environment frame row (ownValue row).1 :=
    fun row member => gives row (List.mem_of_mem_filter member)
  obtain ⟨sorted, left, -, perm, ran, ends⟩ := extremes_are_ends gives gives' true (show Pathless .start from rfl)
  have standard : setting.environment.functions.IsStandard := ⟨rfl, rfl⟩
  obtain ⟨prepared, ready, pathless⟩ := currentRow_prepare setting (World.start.down (.argument 0))
  obtain ⟨begun, began, calls⟩ := Meaning.call_prepares_aggregate (show Aggregate.min ≠ .concat by decide)
    (show FunctionRegistry.sameName _ "min" = true from beq_self_eq_true _) standard ready pathless
  obtain ⟨begun', began', calls'⟩ := Meaning.call_prepares_aggregate (show Aggregate.max ≠ .concat by decide)
    (show FunctionRegistry.sameName _ "max" = true from beq_self_eq_true _) standard ready pathless
  obtain ⟨ended, -, answered⟩ := (ends "min" begun).1 calls
  obtain ⟨ended', -, answered'⟩ := (ends "max" begun').2 calls'
  exact ⟨sorted, left, begun, begun', ended, ended', perm, ran, began, answered, began', answered'⟩

end RowOrder

end RecordQuery
