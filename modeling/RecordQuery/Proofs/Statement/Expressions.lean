import Mathlib.Data.List.Basic
import RecordQuery.Meaning.OfExpr
import RecordQuery.Proofs.Evaluation.Outcome
/-! Properties that all expressions of a statement have, clause by clause, and the sort keys made from them. -/

namespace RecordQuery

variable {property : Meaning → Prop}

/-- All expressions of a statement, its source included, have the property. -/
def Statement.Every (property : Meaning → Prop) (statement : Statement Meaning) : Prop :=
  ∀ expression ∈ statement.expressions none, property expression

/-- The expressions among sort sources have the property. -/
def SourcesEvery (property : Meaning → Prop) (entries : List (SortSource × Direction)) : Prop :=
  ∀ meaning direction, (SortSource.expression meaning, direction) ∈ entries → property meaning

theorem SourcesEvery.cons {own : SortSource} {direction : Direction} {entries : List (SortSource × Direction)}
    (holds : ∀ meaning, own = .expression meaning → property meaning) (others : SourcesEvery property entries) :
    SourcesEvery property ((own, direction) :: entries) := by
  intro meaning direction' member
  rcases List.mem_cons.mp member with same | other
  · cases same
    exact holds meaning rfl
  · exact others meaning direction' other

/-- The sources collected after one more. -/
theorem SourcesEvery.collected {own : SortSource} {direction : Direction}
    {rest : Except Error (List (SortSource × Direction))} {entries : List (SortSource × Direction)}
    (found : (do return (own, direction) :: (← rest)) = .ok entries)
    (holds : ∀ meaning, own = .expression meaning → property meaning)
    (others : ∀ entries, rest = .ok entries → SourcesEvery property entries) : SourcesEvery property entries := by
  obtain ⟨later, rested, found⟩ := Except.bind_eq_ok found
  cases found
  exact .cons holds (others later rested)

theorem orderExpressions_subset_cons (order : OrderBy Meaning) (rest : List (OrderBy Meaning)) :
    orderExpressions rest ⊆ orderExpressions (order :: rest) :=
  (List.Sublist.filterMap _ (List.sublist_cons_self order rest)).subset

theorem sortSources_every {columns : Option (List (Column Meaning))} {orders : List (OrderBy Meaning)}
    {entries : List (SortSource × Direction)} (found : sortSources columns orders = .ok entries)
    (selected : ∀ column ∈ columns.getD [], property column.expression)
    (ordered : ∀ expression ∈ orderExpressions orders, property expression) : SourcesEvery property entries := by
  induction orders generalizing entries with
  | nil =>
    cases found
    simp [SourcesEvery]
  | cons order rest ih =>
    have others (entries) (rested : sortSources columns rest = .ok entries) : SourcesEvery property entries :=
      ih rested fun expression member => ordered expression (orderExpressions_subset_cons order rest member)
    unfold sortSources at found
    obtain ⟨key, direction⟩ := order
    cases key with
    | expression meaning =>
      refine .collected found ?_ others
      rintro _ ⟨⟩
      exact ordered meaning (by simp [orderExpressions])
    | column number =>
      cases columns with
      | none => cases found
      | some columns =>
        dsimp only at found
        split at found
        · rename_i column present
          refine .collected found ?_ others
          rintro _ ⟨⟩
          refine selected column ?_
          split at present
          · cases present
          · exact List.mem_of_getElem? present
        · cases found

theorem groupSources_every {groupBy : List Meaning} {orders : List (OrderBy Meaning)}
    {entries : List (SortSource × Direction)} (found : groupSources groupBy orders = .ok entries)
    (ordered : ∀ expression ∈ orderExpressions orders, property expression) : SourcesEvery property entries := by
  induction orders generalizing entries with
  | nil =>
    cases found
    simp [SourcesEvery]
  | cons order rest ih =>
    have others (entries) (rested : groupSources groupBy rest = .ok entries) : SourcesEvery property entries :=
      ih rested fun expression member => ordered expression (orderExpressions_subset_cons order rest member)
    unfold groupSources at found
    obtain ⟨key, direction⟩ := order
    cases key with
    | expression meaning =>
      dsimp only at found
      split at found
      · exact .collected found (by simp) others
      · refine .collected found ?_ others
        rintro _ ⟨⟩
        exact ordered meaning (by simp [orderExpressions])
    | column number =>
      dsimp only at found
      split at found
      · exact .collected found (by simp) others
      · cases found

namespace Statement

variable {statement : Statement Meaning}

namespace Every

theorem clause (every : statement.Every property) {clause : List Meaning}
    (part : ∀ expression ∈ clause, expression ∈ statement.expressions none) :
    ∀ expression ∈ clause, property expression :=
  fun expression member => every expression (part expression member)

theorem columns (every : statement.Every property) : ∀ column ∈ statement.columns, property column.expression :=
  fun column member => every _ (by
    have : column.expression ∈ statement.columns.map (·.expression) := List.mem_map_of_mem member
    simp [Statement.expressions, this])

theorem source (every : statement.Every property) : ∀ part ∈ statement.sourceExpression?, property part :=
  fun _ member => every _ (by simp [Statement.expressions, Option.mem_def.mp member])

theorem filter (every : statement.Every property) : ∀ part ∈ statement.filter, property part :=
  fun _ member => every _ (by simp [Statement.expressions, Option.mem_def.mp member])

theorem having (every : statement.Every property) : ∀ part ∈ statement.having, property part :=
  fun _ member => every _ (by simp [Statement.expressions, Option.mem_def.mp member])

theorem groupBy (every : statement.Every property) : ∀ expression ∈ statement.groupBy, property expression :=
  every.clause fun _ member => by simp [Statement.expressions, member]

theorem groupOrder (every : statement.Every property) :
    ∀ expression ∈ orderExpressions statement.groupOrder, property expression :=
  every.clause fun _ member => by simp [Statement.expressions, member]

theorem orderBy (every : statement.Every property) :
    ∀ expression ∈ orderExpressions statement.orderBy, property expression :=
  every.clause fun _ member => by simp [Statement.expressions, member]

theorem onAll (every : statement.Every property) : ∀ expression ∈ statement.onAll, property expression :=
  every.clause fun _ member => by simp [Statement.expressions, member]

theorem onResults (every : statement.Every property) : ∀ expression ∈ statement.onResults, property expression :=
  every.clause fun _ member => by simp [Statement.expressions, member]

theorem entries (every : statement.Every property) {entries : List (SortSource × Direction)}
    (found : sortSources statement.select statement.orderBy = .ok entries) : SourcesEvery property entries :=
  sortSources_every found every.columns every.orderBy

end Every

theorem every_of_clauses (columns : ∀ column ∈ statement.columns, property column.expression)
    (source : ∀ part ∈ statement.sourceExpression?, property part) (filter : ∀ part ∈ statement.filter, property part)
    (having : ∀ part ∈ statement.having, property part)
    (groupBy : ∀ expression ∈ statement.groupBy, property expression)
    (groupOrder : ∀ expression ∈ orderExpressions statement.groupOrder, property expression)
    (orderBy : ∀ expression ∈ orderExpressions statement.orderBy, property expression)
    (onAll : ∀ expression ∈ statement.onAll, property expression)
    (onResults : ∀ expression ∈ statement.onResults, property expression) : statement.Every property := by
  intro expression member
  simp only [Statement.expressions, List.mem_append, List.mem_map, Option.none_or, Option.mem_toList] at member
  rcases member with
    (((((((⟨column, inside, rfl⟩ | inside) | inside) | inside) | inside) | inside) | inside) | inside) | inside
  · exact columns column inside
  · exact source expression inside
  · exact filter expression inside
  · exact groupBy expression inside
  · exact groupOrder expression inside
  · exact having expression inside
  · exact orderBy expression inside
  · exact onAll expression inside
  · exact onResults expression inside

/-! Placing the expressions of a statement. -/

variable {below : Meaning → Prop}

theorem each_every {parts : List Meaning} (holds : ∀ part ∈ parts, property part)
    (down : ∀ meaning branch, property meaning → below (meaning.down branch)) (branch : Nat → Branch) :
    ∀ part ∈ Meaning.each parts branch, below part := by
  intro part member
  obtain ⟨index, inside, rfl⟩ := List.mem_mapIdx.mp member
  exact down _ _ (holds _ (List.getElem_mem inside))

theorem placedOrders_every {orders : List (OrderBy Meaning)}
    (holds : ∀ expression ∈ orderExpressions orders, property expression)
    (down : ∀ meaning branch, property meaning → below (meaning.down branch)) (branch : Nat → Branch) :
    ∀ expression ∈ orderExpressions (orders.mapIdx fun index order => order.down (branch index)),
      below expression := by
  intro expression member
  obtain ⟨order, inside, keyed⟩ := List.mem_filterMap.mp member
  obtain ⟨index, bound, rfl⟩ := List.mem_mapIdx.mp inside
  have own : ∀ meaning, orders[index].key = .expression meaning → property meaning := fun meaning same =>
    holds meaning (List.mem_filterMap.mpr ⟨orders[index], List.getElem_mem bound, by rw [same]⟩)
  cases key : orders[index].key with
  | column number => simp [OrderBy.down, OrderBy.map, SortKey.map, key] at keyed
  | expression meaning =>
    simp only [OrderBy.down, OrderBy.map, SortKey.map, key, Option.some.injEq] at keyed
    exact keyed ▸ down _ _ (own meaning key)

/-- What holds of all expressions and comes down a branch holds of the placed expressions. -/
theorem Every.placed (every : statement.Every property)
    (down : ∀ meaning branch, property meaning → below (meaning.down branch)) : statement.placed.Every below := by
  refine every_of_clauses ?_ ?_ ?_ ?_ (each_every every.groupBy down _) (placedOrders_every every.groupOrder down _)
    (placedOrders_every every.orderBy down _) (each_every every.onAll down _) (each_every every.onResults down _)
  · intro column member
    cases selected : statement.select with
    | none => simp [Statement.columns, Statement.placed, selected] at member
    | some columns =>
      simp only [Statement.columns, Statement.placed, selected, Option.map_some, Option.getD_some] at member
      obtain ⟨index, bound, rfl⟩ := List.mem_mapIdx.mp member
      exact down _ _ (every.columns columns[index] (by simp [Statement.columns, selected]))
  · intro part member
    cases source : statement.source with
    | rows type => simp [Statement.sourceExpression?, Statement.placed, source, Source.map] at member
    | expression own =>
      simp only [Statement.sourceExpression?, Statement.placed, source, Source.map, Option.mem_def,
        Option.some.injEq] at member
      exact member ▸ down _ _ (every.source own (by simp [Statement.sourceExpression?, source]))
  · intro part member
    obtain ⟨own, present, rfl⟩ := Option.map_eq_some_iff.mp member
    exact down _ _ (every.filter own present)
  · intro part member
    obtain ⟨own, present, rfl⟩ := Option.map_eq_some_iff.mp member
    exact down _ _ (every.having own present)

/-! Taking the source of a statement away. -/

theorem expressions_withoutSource (statement : Statement Meaning) :
    statement.withoutSource.expressions statement.sourceExpression? = statement.expressions none := by
  unfold Statement.withoutSource
  cases source : statement.source <;>
    simp [Statement.expressions, Statement.columns, Statement.sourceExpression?, source]

theorem Every.withoutSource (every : statement.Every property) : statement.withoutSource.Every property := by
  intro expression member
  refine every expression ?_
  have bare : statement.withoutSource.sourceExpression? = none := by
    unfold Statement.withoutSource
    cases source : statement.source <;> simp [Statement.sourceExpression?, source]
  rw [← expressions_withoutSource]
  simp only [Statement.expressions, bare, List.mem_append] at member ⊢
  grind

end Statement

/-! The meaning of a statement. -/

theorem meanings_eq_map (expressions : List Expr) : meanings expressions = expressions.map Expr.meaning := by
  induction expressions with
  | nil => rfl
  | cons expression rest ih => rw [meanings, ih, List.map_cons]

theorem setterMeanings_eq_map (setters : List (Expr × String)) :
    setterMeanings setters = setters.map (Prod.map Expr.meaning id) := by
  induction setters with
  | nil => rfl
  | cons setter rest ih => rw [setterMeanings, ih, List.map_cons]; rfl

theorem columnMeanings_eq_map (columns : List (Column Expr)) :
    columnMeanings columns = columns.map (·.map Expr.meaning) := by
  induction columns with
  | nil => rfl
  | cons column rest ih => rw [columnMeanings, ih, List.map_cons]; rfl

theorem orderMeanings_eq_map (orders : List (OrderBy Expr)) :
    orderMeanings orders = orders.map (·.map Expr.meaning) := by
  induction orders with
  | nil => rfl
  | cons order rest ih =>
    obtain ⟨key, direction⟩ := order
    cases key <;> rw [orderMeanings, ih, List.map_cons] <;> rfl

/-- The meaning of a statement is the statement over the meanings of its expressions. -/
theorem statementMeaning_eq_map (statement : Statement Expr) :
    statementMeaning statement = statement.map Expr.meaning := by
  obtain ⟨select, source, filter, having⟩ := statement
  have selected : selectMeaning select = select.map (·.map (·.map Expr.meaning)) := by
    cases select with
    | none => rfl
    | some columns => rw [selectMeaning, columnMeanings_eq_map]; rfl
  have optional (expression : Option Expr) : meaningOf? expression = expression.map Expr.meaning := by
    cases expression <;> rfl
  have sourced : sourceMeaning source = source.map Expr.meaning := by
    cases source <;> rfl
  simp only [statementMeaning, Statement.map, selected, optional, sourced, meanings_eq_map, orderMeanings_eq_map]

theorem orderExpressions_map {ε δ : Type} (f : ε → δ) (orders : List (OrderBy ε)) :
    orderExpressions (orders.map (·.map f)) = (orderExpressions orders).map f := by
  rw [orderExpressions, orderExpressions, List.filterMap_map, List.map_filterMap]
  refine List.filterMap_congr fun order _ => ?_
  obtain ⟨key, direction⟩ := order
  cases key <;> rfl

namespace Statement

variable {ε δ : Type} (f : ε → δ) (statement : Statement ε)

theorem columns_map :
    (statement.map f).columns.map (·.expression) = (statement.columns.map (·.expression)).map f := by
  cases selected : statement.select <;>
    simp [Statement.map, Statement.columns, selected, Column.map, Function.comp_def]

theorem sourceExpression?_map :
    (statement.map f).sourceExpression? = statement.sourceExpression?.map f := by
  cases found : statement.source <;> simp [Statement.map, sourceExpression?, found, Source.map]

theorem expressions_map : (statement.map f).expressions none = (statement.expressions none).map f := by
  simp only [expressions, Option.none_or, columns_map, sourceExpression?_map, List.map_append, Option.toList_map]
  simp [Statement.map, orderExpressions_map, Option.toList_map]

end Statement

end RecordQuery
