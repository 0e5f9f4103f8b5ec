import RecordQuery.Proofs.Meaning.Conduct
import RecordQuery.Proofs.Statement.Expressions
/-! What passes from the expressions of a statement to its clauses: to sorting, projecting and grouping rows, and to
ordering groups. -/

namespace RecordQuery

variable {conduct : Conduct} {environment : Environment}

/-- Evaluating the expression conducts itself so. -/
def Meaning.ConductsIn (conduct : Conduct) (environment : Environment) (meaning : Meaning) : Prop :=
  conduct.Of (meaning.evaluate environment)

theorem Frame.shifts_aside : Frame.Shifts fun frame => { frame with row := none } where
  scope _ := rfl
  rows _ rows := ⟨rows, rfl⟩
  groupKey _ groupKey := ⟨groupKey, rfl⟩
  statementText _ _ := rfl

theorem Frame.shifts_group (row : Option Value) (key members : List Value) :
    Frame.Shifts fun frame => { frame with row, rows := members, groupKey := some key } where
  scope _ := rfl
  rows _ _ := ⟨members, rfl⟩
  groupKey _ _ := ⟨some key, rfl⟩
  statementText _ _ := rfl

/-- A step of a sort conducts itself so, whatever has been remembered. -/
def SortM.Conducts {α : Type} (conduct : Conduct) (action : Frame → SortM α) : Prop :=
  ∀ state, conduct.Of fun frame => action frame state

theorem SortM.conducts_pure {α : Type} (value : α) : SortM.Conducts conduct fun _ => pure value :=
  fun state => conduct.pure (value, state)

theorem SortM.Conducts.bind {α β : Type} {first : Frame → SortM α} {next : α → Frame → SortM β}
    (head : SortM.Conducts conduct first) (rest : ∀ value, SortM.Conducts conduct (next value)) :
    SortM.Conducts conduct fun frame => first frame >>= fun value => next value frame :=
  fun state => conduct.bind (head state) fun (value, later) => rest value later

/-- A computation on the world takes no part in what a sort remembers. -/
theorem SortM.conducts_lift {α : Type} {action : Frame → EvalM α} (part : conduct.Of action) :
    SortM.Conducts conduct fun frame => (liftM (action frame) : SortM α) :=
  fun _ => conduct.bind part fun _ => conduct.pure _

theorem SortM.conducts_get : SortM.Conducts conduct fun _ => (get : SortM SortState) := fun _ => conduct.pure _

theorem SortM.conducts_set (state : SortState) : SortM.Conducts conduct fun _ => (set state : SortM PUnit) :=
  fun _ => conduct.pure _

theorem runAll_conducts (conduct : Conduct) (clause : String) {expressions : List Meaning}
    (parts : ∀ expression ∈ expressions, expression.ConductsIn conduct environment) :
    conduct.Of (runAll clause expressions environment) :=
  conduct.forM fun expression member =>
    conduct.inside (conduct.map (conduct.about Frame.shifts_aside (parts expression member)) (Function.const Value ()))
      _

theorem keepFrom_conducts (clause : String) {condition : Meaning} (part : condition.ConductsIn conduct environment)
    (place : Nat) (rows : List Value) :
    conduct.Of fun frame => keepFrom clause condition environment frame place rows := by
  induction rows generalizing place with
  | nil => exact conduct.pure []
  | cons row rest ih =>
    have own := conduct.about (Frame.shifts_onRow row) (Meaning.test_conducts conduct part)
    exact conduct.bind (conduct.inside own _) fun _ => conduct.bind (ih (place + 1)) fun _ => conduct.pure _

theorem keepWhere_conducts (conduct : Conduct) (clause : String) {condition : Option Meaning}
    (parts : ∀ part ∈ condition, part.ConductsIn conduct environment) (rows : List Value) :
    conduct.Of fun frame => keepWhere clause condition environment frame rows := by
  cases condition with
  | none => exact conduct.pure rows
  | some condition => exact keepFrom_conducts clause (parts condition rfl) 0 rows

/-! Sorting. -/

theorem evaluateKey_conducts {meaning : Meaning} (part : meaning.ConductsIn conduct environment) (row : Value) :
    SortM.Conducts conduct fun frame => RowOrder.evaluateKey meaning row environment frame := by
  intro state
  have caught (frame : Frame) : RowOrder.evaluateKey meaning row environment frame state =
      (meaning.evaluate environment (frame.onRow row)).recast fun
        | .ok value => .ok (value, state)
        | .error error => .ok (.null,
            { state with failure := state.failure.or (some (.within ("order by " ++ meaning.text) error)) }) := by
    funext world
    unfold RowOrder.evaluateKey EvalM.recast
    cases meaning.evaluate environment (frame.onRow row) world <;> rfl
  simp only [caught]
  exact conduct.recast _ (conduct.about (Frame.shifts_onRow row) part)

variable {order : RowOrder}

theorem key_conducts {source : SortSource} {direction : Direction}
    (parts : SourcesEvery (Meaning.ConductsIn conduct environment) order.entries)
    (present : (source, direction) ∈ order.entries) (entry : Nat) (row : Nat × Value) :
    SortM.Conducts conduct fun frame => order.key entry source row environment frame := by
  unfold RowOrder.key
  cases source with
  | position place =>
    dsimp only
    split <;> exact SortM.conducts_pure _
  | expression meaning =>
    have evaluated := evaluateKey_conducts (parts meaning direction present) row.2
    dsimp only
    split
    · exact evaluated
    · refine SortM.conducts_get.bind fun state => ?_
      split
      · exact SortM.conducts_pure _
      · exact evaluated.bind fun value =>
          SortM.Conducts.bind (fun state => conduct.pure _) fun _ => SortM.conducts_pure value

theorem compareFrom_conducts (parts : SourcesEvery (Meaning.ConductsIn conduct environment) order.entries)
    (a b : Nat × Value) (first : Nat) {entries : List (SortSource × Direction)} (part : entries ⊆ order.entries) :
    SortM.Conducts conduct fun frame => order.compareFrom a b environment frame first entries := by
  induction entries generalizing first with
  | nil => exact SortM.conducts_pure _
  | cons head rest ih =>
    obtain ⟨source, direction⟩ := head
    have present : (source, direction) ∈ order.entries := part (List.mem_cons_self ..)
    refine (key_conducts parts present first a).bind fun left => ?_
    refine (key_conducts parts present first b).bind fun right => ?_
    split
    · exact ih (first + 1) fun entry member => part (List.mem_cons_of_mem _ member)
    · exact SortM.conducts_pure _

theorem merge_conducts (parts : SourcesEvery (Meaning.ConductsIn conduct environment) order.entries)
    (left right : List (Nat × Value)) :
    SortM.Conducts conduct fun frame => order.merge environment frame left right := by
  induction left generalizing right with
  | nil =>
    simp only [RowOrder.merge]
    exact SortM.conducts_pure right
  | cons a left ihLeft =>
    induction right with
    | nil =>
      simp only [RowOrder.merge]
      exact SortM.conducts_pure _
    | cons b right ihRight =>
      simp only [RowOrder.merge]
      refine (compareFrom_conducts parts a b 0 (List.Subset.refl _)).bind fun decided => ?_
      split
      · exact ihRight.bind fun _ => SortM.conducts_pure _
      · exact (ihLeft (b :: right)).bind fun _ => SortM.conducts_pure _

theorem sortHalves_conducts (parts : SourcesEvery (Meaning.ConductsIn conduct environment) order.entries)
    (depth : Nat) (rows : List (Nat × Value)) :
    SortM.Conducts conduct fun frame => order.sortHalves environment frame depth rows := by
  induction depth generalizing rows with
  | zero => exact SortM.conducts_pure rows
  | succ depth ih =>
    match rows with
    | [] => exact SortM.conducts_pure []
    | [row] => exact SortM.conducts_pure [row]
    | first :: second :: rest =>
      exact (ih _).bind fun left => (ih _).bind fun right => merge_conducts parts left right

theorem sort_conducts (conduct : Conduct) (parts : SourcesEvery (Meaning.ConductsIn conduct environment) order.entries)
    (rows : List Value) : SortM.Conducts conduct fun frame => order.sort rows environment frame := by
  unfold RowOrder.sort
  split
  · exact SortM.conducts_pure rows
  · refine (sortHalves_conducts parts _ _).bind fun sorted => SortM.conducts_get.bind fun state => ?_
    refine (SortM.conducts_set _).bind fun _ => ?_
    split
    · exact fun _ => conduct.throw _
    · exact SortM.conducts_pure _

/-! Projection. -/

theorem columnValues_conducts {columns : List (Column Meaning)}
    (parts : ∀ column ∈ columns, column.expression.ConductsIn conduct environment) (place : Nat) :
    conduct.Of fun frame => columnValues columns place environment frame :=
  conduct.mapM fun (column, _) member =>
    conduct.inside (parts column (List.mem_of_getElem? (List.mem_zipIdx_iff_getElem?.mp member))) _

theorem projectRows_conducts {columns : List (Column Meaning)}
    (parts : ∀ column ∈ columns, column.expression.ConductsIn conduct environment) (rows : List (Value × Nat)) :
    conduct.Of fun frame => projectRows columns environment frame rows := by
  induction rows with
  | nil => exact conduct.pure []
  | cons row rest ih =>
    obtain ⟨row, place⟩ := row
    have own : conduct.Of fun frame => projectRow columns place environment frame :=
      conduct.bind (columnValues_conducts parts place) fun _ => conduct.pure _
    exact conduct.bind (conduct.about (Frame.shifts_onRow row) own) fun _ => conduct.bind ih fun _ => conduct.pure _

theorem project_conducts (conduct : Conduct) {statement : Statement Meaning}
    (parts : ∀ column ∈ statement.columns, column.expression.ConductsIn conduct environment) (rows : List Value) :
    conduct.Of fun frame => project statement environment frame rows := by
  unfold project
  cases selected : statement.select with
  | none => exact conduct.bind (conduct.pure rows) fun _ => conduct.pure _
  | some columns =>
    have parts : ∀ column ∈ columns, column.expression.ConductsIn conduct environment := by
      simpa [Statement.columns, selected] using parts
    exact conduct.bind (projectRows_conducts parts _) fun _ => conduct.pure _

/-! Grouping. -/

theorem groupKey_conducts (conduct : Conduct) {expressions : List Meaning}
    (parts : ∀ expression ∈ expressions, expression.ConductsIn conduct environment) (row : Value) :
    conduct.Of fun frame => groupKey expressions environment frame row :=
  conduct.mapM fun expression member =>
    conduct.inside (conduct.about (Frame.shifts_onRow row) (parts expression member)) _

theorem groupRows_conducts (conduct : Conduct) {expressions : List Meaning}
    (parts : ∀ expression ∈ expressions, expression.ConductsIn conduct environment) (rows : List Value) :
    conduct.Of fun frame => groupRows expressions environment frame rows := by
  have all : conduct.Of fun frame => withKeys expressions environment frame rows := by
    induction rows with
    | nil => exact conduct.pure []
    | cons row rest ih =>
      exact conduct.bind (groupKey_conducts conduct parts row) fun _ => conduct.bind ih fun _ => conduct.pure _
  exact conduct.map all _

theorem groupSortKeys_conducts (conduct : Conduct) {entries : List (SortSource × Direction)}
    (parts : SourcesEvery (Meaning.ConductsIn conduct environment) entries) (group : List Value × List Value) :
    conduct.Of fun frame => groupSortKeys entries environment frame group := by
  refine conduct.mapM fun (source, direction) member => ?_
  cases source with
  | position place => exact conduct.pure _
  | expression meaning =>
    exact conduct.inside (conduct.about (Frame.shifts_group (some (.list group.1)) group.1 group.2)
      (parts meaning direction member)) _

theorem sortGroups_conducts (conduct : Conduct) {entries : List (SortSource × Direction)}
    (parts : SourcesEvery (Meaning.ConductsIn conduct environment) entries) (groups : Grouped (List Value)) :
    conduct.Of fun frame => sortGroups entries environment frame groups :=
  conduct.bind (conduct.mapM fun group _ =>
    conduct.bind (groupSortKeys_conducts conduct parts group) fun _ => conduct.pure _) fun _ => conduct.pure _

theorem Statement.projectGroup_conducts (conduct : Conduct) {statement : Statement Meaning}
    (parts : statement.Every (Meaning.ConductsIn conduct environment))
    (sources : SourcesEvery (Meaning.ConductsIn conduct environment) order.entries) (members : List Value) :
    SortM.Conducts conduct fun frame => statement.projectGroup order environment frame members :=
  (SortM.conducts_lift (runAll_conducts conduct _ parts.onResults)).bind fun _ =>
    (sort_conducts conduct sources members).bind fun sorted =>
      SortM.conducts_lift (project_conducts conduct parts.columns sorted)

end RecordQuery
