import RecordQuery.Proofs.Evaluation.Outcome
import RecordQuery.Proofs.Meaning.Bracketing
import RecordQuery.Proofs.Statement.Placed
import RecordQuery.Statement.Grouping
/-! GROUP BY ORDER BY expressions that stand for a place in the key. Texts decide which do, so that a place is taken for
every expression of the same words, however it is bracketed. -/

namespace RecordQuery

/-- The first place of a list whose item has a property. -/
def FirstPlace {α : Type} (property : α → Prop) (items : List α) (place : Nat) : Prop :=
  (∃ item ∈ items[place]?, property item) ∧ ∀ earlier < place, ∀ item ∈ items[earlier]?, ¬property item

/-- An expression written over again: the same tree, without variables that have no name, since each of those is a
variable of its own. -/
def Expr.Repeats (again first : Expr) : Prop := again = first ∧ again.script.places = []

section FirstPlace

variable {α : Type} {items : List α} {place : Nat}

theorem FirstPlace.congr {property other : α → Prop} (same : ∀ item ∈ items, (property item ↔ other item)) :
    FirstPlace property items place ↔ FirstPlace other items place := by
  have here (index : Nat) (item : α) (found : item ∈ items[index]?) : property item ↔ other item :=
    same item (List.mem_of_getElem? found)
  refine and_congr (exists_congr fun item => and_congr_right fun found => here place item found) ?_
  exact forall₂_congr fun earlier _ => forall₂_congr fun item found => not_congr (here earlier item found)

theorem findIdx?_eq_some_iff_firstPlace {decides : α → Bool} :
    items.findIdx? decides = some place ↔ FirstPlace (decides · = true) items place := by
  rw [List.findIdx?_eq_some_iff_getElem, FirstPlace]
  constructor
  · rintro ⟨inside, decided, earlier⟩
    refine ⟨⟨items[place], List.getElem?_eq_getElem inside, decided⟩, fun index before item found => ?_⟩
    obtain ⟨_, rfl⟩ := List.getElem?_eq_some_iff.mp found
    exact earlier index before
  · rintro ⟨⟨item, found, decided⟩, earlier⟩
    obtain ⟨inside, rfl⟩ := List.getElem?_eq_some_iff.mp found
    exact ⟨inside, decided, fun index before =>
      earlier index before _ (List.getElem?_eq_getElem (Nat.lt_trans before inside))⟩

end FirstPlace

/-- What a GROUP BY ORDER BY expression stands for: the first place of the key whose expression has its text, or
itself. -/
def sourceOf (groupBy : List Meaning) (meaning : Meaning) : SortSource :=
  match groupBy.findIdx? (·.text == meaning.text) with
  | some place => .position place
  | none => .expression meaning

theorem groupSources_cons {groupBy : List Meaning} {order : OrderBy Meaning} {rest : List (OrderBy Meaning)}
    {entries : List (SortSource × Direction)} (sources : groupSources groupBy (order :: rest) = .ok entries) :
    ∃ source others, groupSources groupBy rest = .ok others ∧ entries = (source, order.direction) :: others ∧
      ∀ meaning, order.key = .expression meaning → source = sourceOf groupBy meaning := by
  obtain ⟨key, direction⟩ := order
  have others {source : SortSource}
      (found : (do return (source, direction) :: (← groupSources groupBy rest)) = Except.ok entries) :
      ∃ others, groupSources groupBy rest = .ok others ∧ entries = (source, direction) :: others := by
    obtain ⟨others, rested, built⟩ := Except.bind_eq_ok found
    cases built
    exact ⟨others, rested, rfl⟩
  unfold groupSources at sources
  cases key with
  | column number =>
    dsimp only at sources
    split at sources
    · obtain ⟨rest, rested, rfl⟩ := others sources
      refine ⟨_, rest, rested, rfl, ?_⟩
      rintro _ ⟨⟩
    · cases sources
  | expression meaning =>
    dsimp only at sources
    split at sources
    · next place found =>
      obtain ⟨rest, rested, rfl⟩ := others sources
      refine ⟨_, rest, rested, rfl, ?_⟩
      rintro _ ⟨⟩
      rw [sourceOf, found]
    · next missing =>
      obtain ⟨rest, rested, rfl⟩ := others sources
      refine ⟨_, rest, rested, rfl, ?_⟩
      rintro _ ⟨⟩
      rw [sourceOf, missing]

theorem groupSources_expression {groupBy : List Meaning} {orders : List (OrderBy Meaning)}
    {entries : List (SortSource × Direction)} (sources : groupSources groupBy orders = .ok entries) {index : Nat}
    {meaning : Meaning} {direction : Direction} (entry : orders[index]? = some ⟨.expression meaning, direction⟩) :
    entries[index]? = some (sourceOf groupBy meaning, direction) := by
  induction orders generalizing entries index with
  | nil => cases entry
  | cons order rest ih =>
    obtain ⟨source, others, rested, rfl, expressed⟩ := groupSources_cons sources
    cases index with
    | zero =>
      cases entry
      exact congrArg (fun source => some (source, direction)) (expressed meaning rfl)
    | succ index => exact ih rested entry

/-- The expressions of the key, with the texts that they have on their branches. -/
theorem sourceOf_placed (groupBy : List Expr) (order : Meaning) (place : Nat) :
    sourceOf (Meaning.each (meanings groupBy) .groupBy) order = .position place ↔
      FirstPlace (·.meaning.text = order.text) groupBy place := by
  have texts : (Meaning.each (meanings groupBy) .groupBy).findIdx? (·.text == order.text) =
      groupBy.findIdx? (·.meaning.text == order.text) := by
    have all := congrArg (List.findIdx? (· == order.text)) (Meaning.texts_each (meanings groupBy) .groupBy)
    rw [List.findIdx?_map, meanings_eq_map, List.map_map, List.findIdx?_map] at all
    rw [meanings_eq_map]
    exact all
  have first : groupBy.findIdx? (·.meaning.text == order.text) = some place ↔
      FirstPlace (·.meaning.text = order.text) groupBy place := by
    rw [findIdx?_eq_some_iff_firstPlace]
    exact FirstPlace.congr fun _ _ => beq_iff_eq
  rw [sourceOf, texts, ← first]
  cases groupBy.findIdx? (·.meaning.text == order.text) <;> simp

/-- A GROUP BY ORDER BY expression stands for the first place of the key whose expression has its text. Where the names
and literals of both are told from the words around them, both have the same words; where moreover one grammar reads
both, they are one tree, and the first is written over again unless it has variables without a name. -/
theorem groupSources_repeats {statement : Statement Expr} {entries : List (SortSource × Direction)}
    (sources : groupSources (Query.ofStatement statement).statement.groupBy
      (Query.ofStatement statement).statement.groupOrder = .ok entries)
    {index : Nat} {order : Expr} {direction : Direction}
    (entry : statement.groupOrder[index]? = some ⟨.expression order, direction⟩) :
    ∃ source, entries[index]? = some (source, direction) ∧ ∀ place,
      (source = .position place ↔ FirstPlace (·.meaning.text = order.meaning.text) statement.groupBy place) ∧
      (source = .position place → ∃ group, statement.groupBy[place]? = some group ∧
        (order.isLegible = true → group.isLegible = true → group.words = order.words ∧
          ∀ grammar : Grammar, grammar.Reads order → grammar.Reads group →
            group = order ∧ (order.Repeats group ↔ order.script.places = []))) := by
  have placed : (Query.ofStatement statement).statement.groupOrder[index]? =
      some ⟨.expression (order.meaning.down (.groupOrder index)), direction⟩ := by
    rw [Query.ofStatement, Statement.placed_groupOrder, List.getElem?_mapIdx, entry]
    rfl
  have keys : (Query.ofStatement statement).statement.groupBy = Meaning.each (meanings statement.groupBy) .groupBy := by
    rw [Query.ofStatement, statementMeaning_eq_map, meanings_eq_map]
    rfl
  rw [keys] at sources
  refine ⟨_, groupSources_expression sources placed, fun place => ?_⟩
  have byText := sourceOf_placed statement.groupBy (order.meaning.down (.groupOrder index)) place
  rw [Meaning.text_down] at byText
  refine ⟨byText, fun found => ?_⟩
  obtain ⟨⟨group, listed, same⟩, -⟩ := byText.mp found
  refine ⟨group, listed, fun legible groupLegible => ?_⟩
  have words := (Expr.text_eq_iff_words groupLegible legible).mp same
  refine ⟨words, fun grammar reads groupReads => ?_⟩
  have tree := groupReads.eq_of_words reads words
  exact ⟨tree, and_iff_right tree.symm⟩

namespace ByRest

def row : Expr := .bind (some "_currobj") none

def one : Expr := .constant (.int32 1)

/-- The total less one, and less one again. -/
def rest : Expr := .arithmetic .sub (.arithmetic .sub (.call "sum" [row]) one) one

/-- The total less the difference of one and one. -/
def regrouped : Expr := .arithmetic .sub (.call "sum" [row]) (.arithmetic .sub one one)

/-- Groups rows by themselves and by what is left of their total, and orders the groups by an expression. -/
def statement (order : Expr) : Statement Expr :=
  { Statement.all with
    groupBy := [row, rest]
    groupOrder := [⟨.expression order, .ascending⟩] }

/-- No sign reaches past a later one, so that the last one is outermost. -/
def grammar : Grammar where
  reaches _ _ := false
  operand text := if text = "1" then one else row

theorem reads_row : grammar.Reads row := by
  have apart : row.meaning.text ≠ "1" := by decide +kernel
  refine .whole ?_ nofun nofun nofun nofun nofun nofun
  rintro _ ⟨⟩
  change (if row.meaning.text = "1" then one else row) = row
  rw [if_neg apart]

theorem reads_one : grammar.Reads one := by
  have written : one.meaning.text = "1" := by decide +kernel
  refine .whole ?_ nofun nofun nofun nofun nofun nofun
  rintro _ ⟨⟩
  change (if one.meaning.text = "1" then one else row) = one
  rw [if_pos written]

theorem reads_total : grammar.Reads (.call "sum" [row]) :=
  .whole nofun nofun nofun (List.forall_mem_singleton.mpr reads_row) nofun nofun nofun

theorem reads_less_one {left : Expr} (reads : grammar.Reads left) : grammar.Reads (.arithmetic .sub left one) := by
  refine .whole nofun ?_ ?_ nofun (fun _ _ _ _ _ _ => rfl) ?_ nofun
  · rintro _ ⟨⟩
    exact reads
  · rintro _ ⟨⟩
    exact reads_one
  · rintro _ _ _ ⟨⟩ _ ⟨⟩

end ByRest

/-- What is left of the total is written over again. -/
theorem groupSources_repeats_of_rest :
    groupSources (Query.ofStatement (ByRest.statement ByRest.rest)).statement.groupBy
        (Query.ofStatement (ByRest.statement ByRest.rest)).statement.groupOrder = .ok [(.position 1, .ascending)] ∧
      (ByRest.statement ByRest.rest).groupOrder[0]? = some ⟨.expression ByRest.rest, .ascending⟩ ∧
      ByRest.rest.isLegible = true ∧ ByRest.grammar.Reads ByRest.rest ∧ ByRest.rest.script.places = [] ∧
      ∃ group, (ByRest.statement ByRest.rest).groupBy[1]? = some group ∧ ByRest.rest.Repeats group := by
  have sources : groupSources (Query.ofStatement (ByRest.statement ByRest.rest)).statement.groupBy
      (Query.ofStatement (ByRest.statement ByRest.rest)).statement.groupOrder = .ok [(.position 1, .ascending)] := rfl
  have entry : (ByRest.statement ByRest.rest).groupOrder[0]? = some ⟨.expression ByRest.rest, .ascending⟩ := rfl
  have legible : ByRest.rest.isLegible = true := by decide +kernel
  have reads : ByRest.grammar.Reads ByRest.rest := ByRest.reads_less_one (ByRest.reads_less_one ByRest.reads_total)
  have named : ByRest.rest.script.places = [] := rfl
  obtain ⟨source, found, places⟩ := groupSources_repeats sources entry
  cases found
  obtain ⟨group, listed, told⟩ := (places 1).2 rfl
  cases listed
  exact ⟨sources, entry, legible, reads, named, _, rfl, ((told legible legible).2 _ reads reads).2.mpr named⟩

/-- Ordering by the total less the difference of one and one takes the place of another expression. -/
theorem groupSources_takes_regrouped :
    groupSources (Query.ofStatement (ByRest.statement ByRest.regrouped)).statement.groupBy
        (Query.ofStatement (ByRest.statement ByRest.regrouped)).statement.groupOrder = .ok [(.position 1, .ascending)] ∧
      (ByRest.statement ByRest.regrouped).groupOrder[0]? = some ⟨.expression ByRest.regrouped, .ascending⟩ ∧
      ∀ group, (ByRest.statement ByRest.regrouped).groupBy[1]? = some group → group ≠ ByRest.regrouped := by
  refine ⟨rfl, rfl, ?_⟩
  rintro _ ⟨⟩ same
  cases same

end RecordQuery
