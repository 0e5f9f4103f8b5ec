import Mathlib.Data.List.Forall2
import RecordQuery.Proofs.Evaluation.Outcome
import RecordQuery.Statement.Execution
/-! The course of an execution: what happens before rows are grouped or ordered is one for all statements, and what
happens then is grouping, or ordering, limiting and projecting. -/

namespace RecordQuery

open EvalM

/-- The items of a window, all of them without one. -/
def Limit.window {α : Type} (limit : Option Limit) (items : List α) : List α :=
  (limit.map (·.apply items)).getD items

section Window

variable {α β : Type} (limit : Option Limit) (items : List α)

theorem Limit.window_map (f : α → β) : window limit (items.map f) = (window limit items).map f := by
  rcases limit with _ | ⟨offset, _ | count⟩ <;> simp [window, apply]

theorem Limit.window_sublist : (window limit items).Sublist items := by
  rcases limit with _ | ⟨offset, _ | count⟩
  · exact .refl _
  · exact List.drop_sublist ..
  · exact (List.take_sublist ..).trans (List.drop_sublist ..)

/-- What is related item by item is so in a window. -/
theorem Limit.window_forall₂ {related : α → β → Prop} {others : List β} (each : List.Forall₂ related items others) :
    List.Forall₂ related (window limit items) (window limit others) := by
  rcases limit with _ | ⟨offset, _ | count⟩
  · exact each
  · exact List.forall₂_drop offset each
  · exact List.forall₂_take count (List.forall₂_drop offset each)

end Window

namespace Statement

variable {statement : Statement Meaning} {environment : Environment} {frame : Frame}

/-- What happens before rows are grouped or ordered: the rows left after WHERE, those left after HAVING, and the clock
then. -/
def filterRows (statement : Statement Meaning) (environment : Environment) (frame : Frame) :
    EvalM (List Value × List Value × Stopwatch) := do
  let watch ← Stopwatch.start statement.clock
  runAll "execute on all" statement.onAll environment frame
  let watch ← watch.lap .executeOnAll
  let filtered ← keepWhere "where" statement.filter environment frame frame.rows
  let watch ← watch.lap .filter
  runAll "execute on results" statement.onResults environment { frame with rows := filtered }
  let watch ← watch.lap .executeOnResults
  let having ← keepWhere "having" statement.having environment { frame with rows := filtered } filtered
  let watch ← watch.lap .having
  return (filtered, having, watch)

theorem execute_grouped (grouped : statement.groupBy ≠ []) : statement.execute environment frame = (do
    let (filtered, having, watch) ← statement.filterRows environment frame
    let (groups, groupSaves) ← statement.groupStage environment { frame with rows := having } having
    let watch ← watch.lap .groupBy
    let saves ← EvalM.readHeap fun heap => (heap.rootStore frame.scope).saves
    return ⟨groups.filterMap (·.2.head?), filtered, having, some groups, saves, some groupSaves, watch.timings⟩) := by
  have branch : statement.groupBy.isEmpty = false := by simpa using grouped
  unfold execute filterRows
  simp only [branch, Bool.false_eq_true, if_false, bind_assoc, pure_bind]

theorem execute_ungrouped (ungrouped : statement.groupBy = []) : statement.execute environment frame = (do
    let (filtered, having, watch) ← statement.filterRows environment frame
    let entries ← EvalM.ofExcept (sortSources statement.select statement.orderBy)
    let (rows, watch) ← statement.finish entries environment frame having watch
    let saves ← EvalM.readHeap fun heap => (heap.rootStore frame.scope).saves
    return ⟨rows, filtered, having, none, saves, none, watch.timings⟩) := by
  unfold execute filterRows
  simp only [ungrouped, List.isEmpty_nil, if_true, bind_assoc, pure_bind]

/-- What a statement without groups returns, from its stages. -/
theorem execute_of_stages {world before left : World} {filtered having rows : List Value} {watch watch' : Stopwatch}
    {entries : List (SortSource × Direction)} (ungrouped : statement.groupBy = [])
    (filters : statement.filterRows environment frame world = .ok (filtered, having, watch) before)
    (sources : sortSources statement.select statement.orderBy = .ok entries)
    (finished : statement.finish entries environment frame having watch before = .ok (rows, watch') left) :
    statement.execute environment frame world =
      .ok ⟨rows, filtered, having, none, (left.heap.rootStore frame.scope).saves, none, watch'.timings⟩ left := by
  rw [execute_ungrouped ungrouped, bind_of_ok filters]
  dsimp only
  rw [sources, ofExcept_ok_bind, bind_of_ok finished]
  rfl

/-- The stages that a statement without groups went through. -/
theorem stages_of_execute {world left : World} {results : Results} (ungrouped : statement.groupBy = [])
    (ran : statement.execute environment frame world = .ok results left) :
    ∃ watch before entries watch',
      statement.filterRows environment frame world = .ok (results.filtered, results.having, watch) before ∧
      sortSources statement.select statement.orderBy = .ok entries ∧
      statement.finish entries environment frame results.having watch before = .ok (results.rows, watch') left := by
  rw [execute_ungrouped ungrouped] at ran
  obtain ⟨⟨filtered, having, watch⟩, before, filters, ran⟩ := ok_of_bind ran
  obtain ⟨entries, sources, ran⟩ := ok_of_ofExcept_bind ran
  obtain ⟨⟨rows, watch'⟩, last, finished, ran⟩ := ok_of_bind ran
  cases ran
  exact ⟨watch, before, entries, watch', filters, sources, finished⟩

end Statement

end RecordQuery
