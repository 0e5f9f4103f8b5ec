import Mathlib.Data.List.Perm.Basic
import RecordQuery.Proofs.Record.Reflexivity
import RecordQuery.Proofs.Statement.Execution
import RecordQuery.Proofs.Statement.Grouping
import RecordQuery.Proofs.Statement.GroupStage
/-! What becomes of groups once they are projected: they are put in order, cut, and entered into a table of their own,
where a key that equals one before it takes its place. -/

namespace RecordQuery

open EvalM

/-- Items that are worked out in turn keep their labels. -/
theorem EvalM.labels_of_mapM {α β γ : Type} {label : α → γ} {step : α → EvalM β} {items : List α}
    {pairs : List (γ × β)} {world left : World}
    (ran : (items.mapM fun item => return (label item, ← step item)) world = .ok pairs left) :
    pairs.map (·.1) = items.map label := by
  induction items generalizing world pairs with
  | nil =>
    cases ran
    rfl
  | cons item rest ih =>
    rw [List.mapM_cons] at ran
    obtain ⟨first, middle, own, ran⟩ := ok_of_bind ran
    obtain ⟨others, last, rested, ran⟩ := ok_of_bind ran
    obtain ⟨value, _, -, paired⟩ := ok_of_bind own
    cases paired
    cases ran
    rw [List.map_cons, List.map_cons, ih rested]

/-- The keys of groups in their order are the keys of the groups. -/
theorem sortGroups_perm {entries : List (SortSource × Direction)} {environment : Environment} {frame : Frame}
    {groups : Grouped (List Value)} {keys : List (List Value)} {world left : World}
    (ran : sortGroups entries environment frame groups world = .ok keys left) : keys.Perm (groups.map (·.1)) := by
  obtain ⟨keyed, next, ran, ended⟩ := ok_of_bind ran
  cases ended
  rw [← labels_of_mapM ran]
  exact (List.mergeSort_perm ..).map _

/-- Two items are sorted by comparing them once. -/
theorem sortStably_pair {α : Type} (order : α → α → Ordering) (items : List α) :
    sortStably order items = match items with
      | [a, b] => if order a b != .gt then [a, b] else [b, a]
      | items => items.mergeSort fun a b => order a b != .gt := by
  unfold sortStably
  split
  · simp [mergeSort_halves, List.merge]
  · rfl

/-- A group that has been projected: its key, the rows projected for it, and the save values that this left. -/
structure ProjectedGroup where
  key : List Value
  results : List Value
  saves : NameTable Value

namespace ProjectedGroup

def withResults (group : ProjectedGroup) : List Value × List Value := (group.key, group.results)

def withSaves (group : ProjectedGroup) : List Value × NameTable Value := (group.key, group.saves)

/-- No key equals one before it. -/
def Apart (groups : List ProjectedGroup) : Prop :=
  groups.Pairwise fun earlier later => equalItems later.key earlier.key = false

theorem apart_map_iff {α : Type} (shown : ProjectedGroup → α) (groups : List ProjectedGroup) :
    Grouped.Apart (groups.map fun group => (group.key, shown group)) ↔ Apart groups := by
  rw [Grouped.Apart, List.map_map, List.pairwise_map]
  rfl

/-- Keys without records stay apart in any order. -/
theorem Apart.of_perm {made sorted kept : List ProjectedGroup} (apart : Apart made) (perm : sorted.Perm made)
    (fewer : kept.Sublist sorted) (plain : ∀ group ∈ kept, recordsOfItems group.key = []) : Apart kept := by
  let differ (a b : ProjectedGroup) : Prop := equalItems b.key a.key = false ∨ equalItems a.key b.key = false
  have made' : made.Pairwise differ := apart.imp .inl
  have kept' : kept.Pairwise differ := ((perm.pairwise_iff fun differs => differs.symm).mpr made').sublist fewer
  refine kept'.imp_of_mem fun {a b} first second differs => ?_
  rcases differs with apart | apart
  · exact apart
  · rw [equalItems_comm (plain b second) (plain a first)]
    exact apart

end ProjectedGroup

namespace Statement

variable {statement : Statement Meaning} {order : RowOrder} {environment : Environment} {frame : Frame}
  {saves : NameTable Value}

/-- Groups are projected one after the other, each from the same save values. -/
inductive ProjectsInTurn (statement : Statement Meaning) (order : RowOrder) (environment : Environment) (frame : Frame)
    (saves : NameTable Value) : Grouped (List Value) → World → List ProjectedGroup → World → Prop where
  | nil (world : World) : ProjectsInTurn statement order environment frame saves [] world [] world
  | cons {group : List Value × List Value} {groups : Grouped (List Value)} {results : List Value}
      {made : List ProjectedGroup} {world next last : World}
      (own : statement.projectFrom order environment frame saves group world = .ok results next)
      (others : ProjectsInTurn statement order environment frame saves groups next made last) :
      ProjectsInTurn statement order environment frame saves (group :: groups) world
        (⟨group.1, results, next.saves frame.scope⟩ :: made) last

theorem projectsInTurn_of_ok {groups projected : Grouped (List Value)} {groupSaves : Grouped (NameTable Value)}
    {world last : World} (ran : statement.projectGroups order environment frame saves groups .start world =
      .ok (projected, groupSaves) last) :
    ∃ made, statement.ProjectsInTurn order environment frame saves groups world made last ∧
      projected = made.map (·.withResults) ∧ groupSaves = made.map (·.withSaves) := by
  induction groups generalizing projected groupSaves world with
  | nil =>
    cases ran
    exact ⟨[], .nil _, rfl, rfl⟩
  | cons group rest ih =>
    rw [projectGroups_cons] at ran
    obtain ⟨results, next, own, ran⟩ := ok_of_bind ran
    rw [readHeap_bind] at ran
    obtain ⟨⟨others, otherSaves⟩, _, rested, ran⟩ := ok_of_bind ran
    cases ran
    obtain ⟨made, turns, rfl, rfl⟩ := ih rested
    exact ⟨_, .cons own turns, rfl, rfl⟩

theorem ProjectsInTurn.keys {groups : Grouped (List Value)} {made : List ProjectedGroup} {world last : World}
    (turns : statement.ProjectsInTurn order environment frame saves groups world made last) :
    made.map (·.key) = groups.map (·.1) := by
  induction turns with
  | nil => rfl
  | cons own others ih => simp [ih]

/-- Projected groups are in this order: as they were made, or as GROUP BY ORDER BY orders their keys. -/
structure OrdersGroups (statement : Statement Meaning) (environment : Environment) (frame : Frame)
    (groups : Grouped (List Value)) (world : World) (made sorted : List ProjectedGroup) : Prop where
  perm : sorted.Perm made
  asMade : statement.groupOrder = [] → sorted = made
  asSorted : statement.groupOrder ≠ [] → ∃ entries left,
    groupSources statement.groupBy statement.groupOrder = .ok entries ∧
      sortGroups entries environment frame groups world = .ok (sorted.map (·.key)) left

/-- The keys of groups as they were made, or as GROUP BY ORDER BY orders them. -/
def orderKeys (statement : Statement Meaning) (environment : Environment) (frame : Frame)
    (groups : Grouped (List Value)) (keys : List (List Value)) : EvalM (List (List Value)) :=
  if statement.groupOrder.isEmpty then pure keys
  else do
    let entries ← EvalM.ofExcept (groupSources statement.groupBy statement.groupOrder)
    sortGroups entries environment frame groups

theorem groupStage_steps (rows : List Value) : statement.groupStage environment frame rows = (do
    let groups ← groupRows statement.groupBy environment frame rows
    let entries ← EvalM.ofExcept (sortSources statement.select statement.orderBy)
    let saves ← EvalM.readHeap fun heap => (heap.rootStore frame.scope).saves
    let (projected, groupSaves) ←
      statement.projectGroups ⟨entries, statement.cacheKeys⟩ environment frame saves groups .start
    EvalM.changeHeap (·.replaceSaves frame.scope saves)
    let keys ← statement.orderKeys environment frame groups (projected.map (·.1))
    return statement.assemble projected groupSaves (Limit.window statement.groupLimit keys)) := by
  unfold groupStage orderKeys Limit.window
  cases statement.groupOrder.isEmpty <;> simp

theorem orderKeys_orders {groups : Grouped (List Value)} {made : List ProjectedGroup} {keys : List (List Value)}
    {world left : World} (same : made.map (·.key) = groups.map (·.1))
    (ran : statement.orderKeys environment frame groups (made.map (·.key)) world = .ok keys left) :
    ∃ sorted, statement.OrdersGroups environment frame groups world made sorted ∧ keys = sorted.map (·.key) := by
  unfold orderKeys at ran
  split at ran
  · next unordered =>
    cases ran
    exact ⟨made, ⟨.refl _, fun _ => rfl, absurd (List.isEmpty_iff.mp unordered)⟩, rfl⟩
  · next ordered =>
    obtain ⟨entries, _, resolved, ran⟩ := ok_of_bind ran
    cases sources : groupSources statement.groupBy statement.groupOrder with
    | error error =>
      rw [sources] at resolved
      cases resolved
    | ok found =>
      rw [sources] at resolved
      cases resolved
      -- The ordered keys are those of the groups, so the projected groups can be put in their order.
      obtain ⟨sorted, rfl, perm⟩ : Relation.Comp (· = List.map ProjectedGroup.key ·) List.Perm keys made := by
        rw [List.eq_map_comp_perm]
        exact (sortGroups_perm ran).trans (.of_eq same.symm)
      exact ⟨sorted, ⟨perm, fun none => absurd (List.isEmpty_iff.mpr none) ordered,
        fun _ => ⟨entries, left, sources, ran⟩⟩, rfl⟩

/-- What the group stage goes through before its groups are entered. -/
theorem groupStage_made {rows : List Value} {collected : Grouped (List Value) × Grouped (NameTable Value)}
    {world left : World} (ran : statement.groupStage environment frame rows world = .ok collected left) :
    ∃ groups begun entries made last sorted,
      groupRows statement.groupBy environment frame rows world = .ok groups begun ∧
      sortSources statement.select statement.orderBy = .ok entries ∧
      statement.ProjectsInTurn ⟨entries, statement.cacheKeys⟩ environment frame (begun.saves frame.scope) groups begun
        made last ∧
      statement.OrdersGroups environment frame groups
        { last with heap := last.heap.replaceSaves frame.scope (begun.saves frame.scope) } made sorted ∧
      collected = statement.assemble (made.map (·.withResults)) (made.map (·.withSaves))
        ((Limit.window statement.groupLimit sorted).map (·.key)) := by
  rw [groupStage_steps] at ran
  obtain ⟨groups, begun, grouped, ran⟩ := ok_of_bind ran
  cases sources : sortSources statement.select statement.orderBy with
  | error error =>
    rw [sources, ofExcept_error_bind] at ran
    cases ran
  | ok entries =>
    rw [sources, ofExcept_ok_bind, readHeap_bind] at ran
    obtain ⟨⟨projected, groupSaves⟩, last, projects, ran⟩ := ok_of_bind ran
    obtain ⟨made, turns, rfl, rfl⟩ := projectsInTurn_of_ok projects
    obtain ⟨_, _, restored, ran⟩ := ok_of_bind ran
    cases restored
    obtain ⟨keys, final, ordered, ended⟩ := ok_of_bind ran
    cases ended
    rw [List.map_map] at ordered
    obtain ⟨sorted, orders, rfl⟩ := orderKeys_orders turns.keys ordered
    refine ⟨groups, begun, entries, made, last, sorted, grouped, rfl, turns, orders, ?_⟩
    rw [Limit.window_map]

section Assembled

variable {made kept : List ProjectedGroup} (apart : ProjectedGroup.Apart made) (inside : kept ⊆ made)
  (own : ∀ group ∈ kept, equalItems group.key group.key = true)
include apart inside own

/-- Under the key of a group stands what was made of that very group. -/
theorem assemble_eq :
    statement.assemble (made.map (·.withResults)) (made.map (·.withSaves)) (kept.map (·.key)) =
      (.insertAll (kept.map fun group => (group.key, Limit.window statement.limit group.results)),
        .insertAll (kept.map (·.withSaves))) := by
  have results : Grouped.Apart (made.map (·.withResults)) := (ProjectedGroup.apart_map_iff _ made).mpr apart
  have saves : Grouped.Apart (made.map (·.withSaves)) := (ProjectedGroup.apart_map_iff _ made).mpr apart
  let limited (group : ProjectedGroup) := (group.key, Limit.window statement.limit group.results)
  have found : ((kept.map (·.key)).filterMap fun key => (Grouped.find? (made.map (·.withResults)) key).map fun results =>
      (key, Limit.window statement.limit results)) = kept.map limited := by
    rw [List.filterMap_map, List.filterMap_eq_map_iff_forall_eq_some]
    intro group member
    have made := Grouped.find?_of_apart results (List.mem_map_of_mem (inside member)) (own group member)
    rw [Function.comp_apply, made, Option.map_some]
  have foundSaves : ((kept.map limited).filterMap fun entry =>
      (Grouped.find? (made.map (·.withSaves)) entry.1).map (entry.1, ·)) = kept.map (·.withSaves) := by
    rw [List.filterMap_map, List.filterMap_eq_map_iff_forall_eq_some]
    intro group member
    have made := Grouped.find?_of_apart saves (List.mem_map_of_mem (inside member)) (own group member)
    exact congrArg (Option.map (group.key, ·)) made
  unfold Limit.window at found
  unfold assemble
  simp only [Grouped.findFiled?_file, found]
  exact congrArg (fun saves => (_, Grouped.insertAll saves)) foundSaves

end Assembled

/-- What a grouped execution goes through before its groups are entered: its rows are grouped, the groups are projected
one after the other and put in order. -/
structure GroupCourse (statement : Statement Meaning) (environment : Environment) (frame : Frame) (world : World)
    (results : Results) where
  watch : Stopwatch
  before : World
  groups : Grouped (List Value)
  begun : World
  entries : List (SortSource × Direction)
  made : List ProjectedGroup
  last : World
  sorted : List ProjectedGroup
  filters : statement.filterRows environment frame world = .ok (results.filtered, results.having, watch) before
  grouped : groupRows statement.groupBy environment { frame with rows := results.having } results.having before =
    .ok groups begun
  sources : sortSources statement.select statement.orderBy = .ok entries
  projected : statement.ProjectsInTurn ⟨entries, statement.cacheKeys⟩ environment
    { frame with rows := results.having } (begun.saves frame.scope) groups begun made last
  ordered : statement.OrdersGroups environment { frame with rows := results.having } groups
    { last with heap := last.heap.replaceSaves frame.scope (begun.saves frame.scope) } made sorted

namespace GroupCourse

variable {world left : World} {results : Results}
  (course : statement.GroupCourse environment frame world results)

/-- The groups in the window of GROUP BY LIMIT. -/
def kept : List ProjectedGroup := Limit.window statement.groupLimit course.sorted

theorem kept_sublist : course.kept.Sublist course.sorted := Limit.window_sublist ..

theorem made_apart : ProjectedGroup.Apart course.made := by
  have keys := groupRows_apart course.grouped
  rw [Grouped.Apart, ← course.projected.keys] at keys
  exact List.pairwise_map.mp keys

/-- Kept groups have keys apart if they come as they were made, or if their keys hold no records. -/
theorem kept_apart (unproblematic : statement.groupOrder = [] ∨ ∀ group ∈ course.kept, recordsOfItems group.key = []) :
    ProjectedGroup.Apart course.kept := by
  rcases unproblematic with unordered | plain
  · exact (course.ordered.asMade unordered ▸ course.made_apart).sublist course.kept_sublist
  · exact course.made_apart.of_perm course.ordered.perm course.kept_sublist plain

end GroupCourse

/-- A grouped execution that succeeds enters the groups of its course. -/
theorem exists_groupCourse {world left : World} {results : Results} (grouped : statement.groupBy ≠ [])
    (ran : statement.execute environment frame world = .ok results left) :
    ∃ course : statement.GroupCourse environment frame world results, ∃ entered enteredSaves,
      (entered, enteredSaves) = statement.assemble (course.made.map (·.withResults)) (course.made.map (·.withSaves))
        (course.kept.map (·.key)) ∧
      results.groups = some entered ∧ results.groupSaves = some enteredSaves ∧
      results.rows = entered.filterMap (·.2.head?) := by
  rw [execute_grouped grouped] at ran
  obtain ⟨⟨filtered, having, watch⟩, before, filters, ran⟩ := ok_of_bind ran
  obtain ⟨⟨entered, enteredSaves⟩, next, staged, ran⟩ := ok_of_bind ran
  obtain ⟨_, _, -, ran⟩ := ok_of_bind ran
  cases ran
  obtain ⟨groups, begun, entries, made, last, sorted, grouped, sources, turns, orders, collected⟩ :=
    groupStage_made staged
  exact ⟨⟨watch, before, groups, begun, entries, made, last, sorted, filters, grouped, sources, turns, orders⟩, entered,
    enteredSaves, collected, rfl, rfl, rfl⟩

/-- Under the keys of these groups, in this order, stand the rows and the save values of each of them, and the rows are
the first ones of the groups that have any. -/
structure Holds (statement : Statement Meaning) (results : Results) (kept : List ProjectedGroup) : Prop where
  groups : results.groups = some (kept.map fun group => (group.key, Limit.window statement.limit group.results))
  saves : results.groupSaves = some (kept.map fun group => (group.key, group.saves))
  rows : results.rows = kept.filterMap fun group => (Limit.window statement.limit group.results).head?

/-- Groups that are entered are there as they were exactly if their keys are apart. -/
theorem holds_iff {results : Results} {kept : List ProjectedGroup} {entered : Grouped (List Value)}
    (groups : results.groups = some entered) (rows : results.rows = entered.filterMap (·.2.head?))
    (entry : entered = .insertAll (kept.map fun group => (group.key, Limit.window statement.limit group.results)))
    (saves : results.groupSaves = some (.insertAll (kept.map (·.withSaves)))) :
    statement.Holds results kept ↔ ProjectedGroup.Apart kept := by
  have resultsApart := ProjectedGroup.apart_map_iff (fun group => Limit.window statement.limit group.results) kept
  have savesApart := ProjectedGroup.apart_map_iff (·.saves) kept
  rw [← Grouped.insertAll_eq_self_iff, ← entry] at resultsApart
  rw [← Grouped.insertAll_eq_self_iff] at savesApart
  constructor
  · intro holds
    exact resultsApart.mp (Option.some.inj (groups.symm.trans holds.groups))
  · intro apart
    have same := resultsApart.mpr apart
    refine ⟨groups.trans (congrArg some same), saves.trans (congrArg some (savesApart.mpr apart)), ?_⟩
    rw [rows, same, List.filterMap_map]
    rfl

end Statement

/-- A grouped statement that succeeds has put in order the groups that it made of its rows, and has cut them. Its
results are these groups, each with its own rows and save values, exactly if none of their keys equals one before it;
and so they are without GROUP BY ORDER BY, or if keys hold no records. -/
theorem execute_assembles {statement : Statement Meaning} {environment : Environment} {frame : Frame}
    {world left : World} {results : Results} (grouped : statement.groupBy ≠ [])
    (ran : statement.execute environment frame world = .ok results left) :
    ∃ course : statement.GroupCourse environment frame world results,
      (∀ group ∈ course.kept, ∀ record ∈ recordsOfItems group.key, record.names.Nodup) →
        (statement.Holds results course.kept ↔ ProjectedGroup.Apart course.kept) ∧
        (statement.groupOrder = [] ∨ (∀ group ∈ course.kept, recordsOfItems group.key = []) →
          statement.Holds results course.kept) := by
  obtain ⟨course, entered, enteredSaves, assembled, groups, saves, rows⟩ := Statement.exists_groupCourse grouped ran
  refine ⟨course, fun named => ?_⟩
  rw [Statement.assemble_eq course.made_apart (List.Subset.trans course.kept_sublist.subset course.ordered.perm.subset)
    fun group member => (items_self_of_named group.key (named group member)).1] at assembled
  obtain ⟨entry, rfl⟩ := Prod.mk.inj assembled
  have iff := Statement.holds_iff groups rows entry saves
  exact ⟨iff, fun unproblematic => iff.mpr (course.kept_apart unproblematic)⟩

/-- Groups rows by themselves, and puts the groups with most rows first. -/
def bySize : Statement Expr :=
  { Statement.all with
    groupBy := [.bind (some "_currobj") none]
    groupOrder := [⟨.expression (.call "count" []), .descending⟩] }

namespace BySize

def statement : Statement Meaning := (Query.ofStatement bySize).statement

/-- The statement is ready and has not been executed. -/
def ready : World := (Query.ofStatement bySize).prepare.after .start

def environment : Environment := (Query.ofStatement bySize).environment

def frame (rows : List Value) : Frame := statement.frame ⟨0, none⟩ rows none

def execute (rows : List Value) : EvalM Results := statement.execute environment (frame rows)

/-- The groups that are made of rows. -/
def grouping (rows : List Value) : EvalM (Grouped (List Value)) := do
  let (_, having, _) ← statement.filterRows environment (frame rows)
  groupRows statement.groupBy environment { frame rows with rows := having } having

/-- Whether there is one group of one record, under a key that is one record, with members of these names. -/
def isOne (results : Results) (key row : List String) : Bool :=
  match results.groups with
  | some [([.object found], [.object only])] => found.names == key && only.names == row
  | _ => false

end BySize

theorem execute_assembles_by_size :
    BySize.statement.groupBy ≠ [] ∧
      ∃ results left, BySize.execute [.string "a", .string "b", .string "b"] BySize.ready = .ok results left ∧
        ∃ course : BySize.statement.GroupCourse BySize.environment
            (BySize.frame [.string "a", .string "b", .string "b"]) BySize.ready results,
          (∀ group ∈ course.kept, ∀ record ∈ recordsOfItems group.key, record.names.Nodup) →
            (BySize.statement.Holds results course.kept ↔ ProjectedGroup.Apart course.kept) ∧
            (BySize.statement.groupOrder = [] ∨ (∀ group ∈ course.kept, recordsOfItems group.key = []) →
              BySize.statement.Holds results course.kept) := by
  have grouped : BySize.statement.groupBy ≠ [] := by decide
  obtain ⟨results, ran⟩ := exists_ok (BySize.execute [.string "a", .string "b", .string "b"]) BySize.ready (by
    unfold BySize.execute Statement.execute Statement.groupStage Statement.assemble groupRows
    simp only [Grouped.findFiled?_file, Grouped.insertAll_eq, funext Grouped.ofPairs_eq]
    decide +kernel)
  exact ⟨grouped, results, _, ran, execute_assembles grouped ran⟩

open RecordOf in
/-- Of a point on a line and two on a plane two groups are made, and one is left: the key of the larger group, with the
row of the other, which is entered later and equals it. -/
theorem execute_loses_group :
    let rows : List Value :=
      [.object (point (.int32 1)), .object (planePoint (.int32 1) (.int32 2)), .object (planePoint (.int32 1) (.int32 2))]
    ∃ results left, BySize.execute rows BySize.ready = .ok results left ∧
      BySize.isOne results ["x", "y"] ["x"] = true ∧
      ∀ course : BySize.statement.GroupCourse BySize.environment (BySize.frame rows) BySize.ready results,
        course.groups.length = 2 ∧ ¬BySize.statement.Holds results course.kept := by
  intro rows
  obtain ⟨results, left, ran, one⟩ := exists_ok_of (BySize.isOne · ["x", "y"] ["x"]) (BySize.execute rows)
    BySize.ready (by
      unfold BySize.execute Statement.execute Statement.groupStage Statement.assemble groupRows sortGroups
      simp only [Grouped.findFiled?_file, Grouped.insertAll_eq, funext Grouped.ofPairs_eq, sortStably_pair]
      decide +kernel)
  obtain ⟨groups, begun, made, two⟩ := exists_ok_of (fun groups : Grouped (List Value) => groups.length == 2)
    (BySize.grouping rows) BySize.ready (by
      unfold BySize.grouping groupRows
      simp only [funext Grouped.ofPairs_eq]
      decide +kernel)
  refine ⟨results, left, ran, one, fun course => ?_⟩
  have same : BySize.grouping rows BySize.ready = .ok course.groups course.begun :=
    (bind_of_ok course.filters).trans course.grouped
  rw [made] at same
  cases same
  have two : course.groups.length = 2 := by simpa using two
  refine ⟨two, fun holds => ?_⟩
  have made : course.made.length = 2 := by simpa [two] using congrArg List.length course.projected.keys
  have kept : course.kept.length = 2 := course.ordered.perm.length_eq.trans made
  unfold BySize.isOne at one
  rw [holds.groups] at one
  split at one
  · next listed =>
    have single := congrArg List.length (Option.some.inj listed)
    simp [kept] at single
  · cases one

end RecordQuery
