import RecordQuery.Proofs.Statement.Placed
import RecordQuery.Proofs.Statement.Readiness
/-! Ordering groups by GROUP BY ORDER BY. The keys of a group are those of its members and of the save values that the
groups before it have left, and of nothing else. -/

namespace RecordQuery

open EvalM

/-- The sort keys of a group, worked out from given save values. -/
def sortKeysFrom (entries : List (SortSource × Direction)) (environment : Environment) (frame : Frame)
    (saves : NameTable Value) (group : List Value × List Value) : EvalM (List Value) := do
  EvalM.changeHeap (·.replaceSaves frame.scope saves)
  groupSortKeys entries environment frame group

theorem EvalM.Alike.answer_eq {α : Type} {related : World → World → Prop} {action other : EvalM α}
    {world world' : World} (alike : Alike related (action world) (other world')) :
    action.answer world = other.answer world' := by
  unfold EvalM.answer
  cases ran : action world <;> cases ran' : other world' <;> rw [ran, ran'] at alike
  · exact congrArg Except.ok alike.1
  · exact alike.elim
  · exact alike.elim
  · exact congrArg Except.error alike.1

theorem EvalM.answer_bind_of_ok {α β : Type} {first : EvalM α} {next : α → EvalM β} {world left : World} {value : α}
    (ran : first world = .ok value left) : (first >>= next).answer world = (next value).answer left := by
  rw [answer, answer, bind_of_ok ran]

theorem EvalM.answer_map {α β : Type} (action : EvalM α) (f : α → β) (world : World) :
    (action >>= fun value => pure (f value)).answer world = f <$> action.answer world := by
  unfold answer
  cases ran : action world with
  | ok value left => rw [bind_of_ok ran]; rfl
  | error error left => rw [bind_of_error ran]; rfl

/-- Where each step answers, whatever was done before it, as it would by itself, all steps in turn do. -/
theorem EvalM.answer_mapM {α β : Type} {step : α → EvalM β} (alone : α → Except Error β) {items : List α}
    {world : World} (each : ∀ earlier item later values left, items = earlier ++ item :: later →
      earlier.mapM step world = .ok values left → (step item).answer left = alone item) :
    (items.mapM step).answer world = items.mapM alone := by
  induction items generalizing world with
  | nil => rfl
  | cons item rest ih =>
    have own := each [] item rest [] world rfl rfl
    simp only [List.mapM_cons]
    cases ran : step item world with
    | error error left =>
      have failed : alone item = .error error := by rw [← own, answer, ran]
      rw [answer, bind_of_error ran, failed]
      rfl
    | ok value left =>
      have found : alone item = .ok value := by rw [← own, answer, ran]
      have others := ih fun earlier other later values after same began =>
        each (item :: earlier) other later (value :: values) after (by rw [same, List.cons_append]) (by
          rw [List.mapM_cons, bind_of_ok ran, bind_of_ok began]
          rfl)
      rw [answer_bind_of_ok ran, answer_map, others, found]
      rfl

/-- What is done with the results of steps does not change what the steps leave. -/
theorem EvalM.mapM_of_pairs {α β γ : Type} {step : α → EvalM β} {pair : α → β → γ} {items : List α} {pairs : List γ}
    {world left : World} (ran : (items.mapM fun item => return pair item (← step item)) world = .ok pairs left) :
    ∃ values, items.mapM step world = .ok values left := by
  induction items generalizing world pairs with
  | nil =>
    cases ran
    exact ⟨[], rfl⟩
  | cons item rest ih =>
    rw [List.mapM_cons] at ran
    obtain ⟨first, next, began, ran⟩ := ok_of_bind ran
    obtain ⟨others, last, later, ran⟩ := ok_of_bind ran
    obtain ⟨value, next', own, same⟩ := ok_of_bind began
    cases same
    cases ran
    obtain ⟨values, rested⟩ := ih later
    refine ⟨value :: values, ?_⟩
    rw [List.mapM_cons, bind_of_ok own, bind_of_ok rested]
    rfl

namespace Statement

/-- Save values put in place of all are all that a group sees of what was done before. -/
theorem answer_sortKeysFrom {entries : List (SortSource × Direction)} {environment : Environment} {frame : Frame}
    {binds : NameTable Value} {valid : Memory → Prop} {begun left : World}
    (agrees : SourcesEvery (Meaning.ConductsIn ((View.variables frame.scope binds).agrees valid) environment) entries)
    (bound : begun.heap.Binds frame.scope binds) (bound' : left.heap.Binds frame.scope binds)
    (holds : valid begun.memory) (holds' : valid left.memory) (group : List Value × List Value) :
    (groupSortKeys entries environment frame group).answer left =
      (sortKeysFrom entries environment frame (left.saves frame.scope) group).answer begun := by
  let restored : World := { begun with heap := begun.heap.replaceSaves frame.scope (left.saves frame.scope) }
  have same : left.saves frame.scope = restored.saves frame.scope :=
    (Heap.saves_replaceSaves bound.present _).symm
  have twins : (View.variables frame.scope binds).Twins valid left restored :=
    ⟨⟨bound', bound.restore _, same⟩, holds', holds⟩
  exact (groupSortKeys_conducts _ agrees group frame rfl left restored twins).answer_eq

/-- The ordering expressions of a statement that are plain agree from worlds with the same variables. -/
theorem History.groupOrder_agrees {statement : Statement Expr} {environment : Environment} {memory : Memory}
    (history : (statementMeaning statement).History environment memory)
    (plain : ∀ expression ∈ orderExpressions statement.groupOrder, expression.isPlain = true)
    (own : environment.functions.own = [])
    (standard : environment.functions.standard = FunctionRegistry.default.standard) (scope : Scope)
    (binds : NameTable Value) :
    ∃ valid, valid memory ∧ ∀ expression ∈ orderExpressions (statementMeaning statement).placed.groupOrder,
      expression.ConductsIn ((View.variables scope binds).agrees valid) environment := by
  have ranges : ∀ part ∈ orderParts (statementMeaning statement).groupOrder .groupOrder, ∃ expression : Expr,
      expression.isOver .plain = true ∧ expression.meaning = part.2 := by
    intro part member
    have present := mem_orderParts member
    rw [statementMeaning_eq_map, map, orderExpressions_map] at present
    obtain ⟨expression, listed, same⟩ := List.mem_map.mp present
    exact ⟨expression, plain expression listed, same⟩
  obtain ⟨valid, now, dependable⟩ := history.dependable_of_over own standard (Trait.everything_stays.and _)
    ((Vocabulary.plain_fits _).and (Vocabulary.plain_fits (View.variables scope binds))) (groupOrder_parts_sublist _) ranges
  rw [branched_orderParts] at dependable
  exact ⟨valid, now memory fun _ _ => .same, fun expression member => (dependable expression member).shows.2⟩

end Statement

/-- A group has the sort keys that it has by itself exactly if it has the same from the save values that the groups
before it leave; if all groups have, they are ordered by the keys that they have by themselves. -/
theorem groupSortKeys_eq_iff {statement : Statement Expr} {entries : List (SortSource × Direction)} {frame : Frame}
    {begun : World} (builtIn : statement.handlers = [])
    (plain : ∀ expression ∈ orderExpressions statement.groupOrder, expression.isPlain = true)
    (sources : groupSources (Query.ofStatement statement).statement.groupBy
      (Query.ofStatement statement).statement.groupOrder = .ok entries)
    (history : (statementMeaning statement).History (Query.ofStatement statement).environment begun.memory)
    (present : begun.heap.root frame.scope < begun.heap.stores.length) :
    let keys := groupSortKeys entries (Query.ofStatement statement).environment frame
    let keysFrom := sortKeysFrom entries (Query.ofStatement statement).environment frame
    (∀ (earlier : Grouped (List Value)) (values : List (List Value)) (left : World),
      earlier.mapM keys begun = .ok values left → ∀ group,
        ((keys group).answer left = (keys group).answer begun ↔
          (keysFrom (left.saves frame.scope) group).answer begun =
            (keysFrom (begun.saves frame.scope) group).answer begun)) ∧
    ∀ groups : Grouped (List Value),
      (∀ earlier group later (values : List (List Value)) left, groups = earlier ++ group :: later →
        earlier.mapM keys begun = .ok values left →
          (keysFrom (left.saves frame.scope) group).answer begun =
            (keysFrom (begun.saves frame.scope) group).answer begun) →
      (sortGroups entries (Query.ofStatement statement).environment frame groups).answer begun = do
        let keyed ← groups.mapM fun group => (group.1, ·) <$> (keys group).answer begun
        return (sortStably (fun a b => compareKeys (entries.map (·.2)) a.2 b.2) keyed).map (·.1) := by
  intro keys keysFrom
  have own : (Query.ofStatement statement).environment.functions = .default := by
    rw [Query.environment_ofStatement, builtIn]
    rfl
  obtain ⟨valid, holds, agrees⟩ := history.groupOrder_agrees plain (by rw [own]; rfl) (by rw [own]) frame.scope
    (begun.heap.rootStore frame.scope).binds
  have agree := groupSources_every sources agrees
  have bound : begun.heap.Binds frame.scope (begun.heap.rootStore frame.scope).binds := ⟨present, rfl⟩
  have reached {earlier : Grouped (List Value)} {values : List (List Value)} {left : World}
      (ran : earlier.mapM keys begun = .ok values left) :
      left.heap.Binds frame.scope (begun.heap.rootStore frame.scope).binds ∧ valid left.memory := by
    have all := ((View.variables frame.scope _).agrees valid).mapM fun group (_ : group ∈ earlier) =>
      groupSortKeys_conducts _ agree group
    have twins : Alike _ (earlier.mapM keys begun) (earlier.mapM keys begun) :=
      all frame rfl begun begun ⟨⟨bound, bound, rfl⟩, holds, holds⟩
    rw [ran] at twins
    exact ⟨twins.2.1.1, twins.2.2.1⟩
  have after {earlier : Grouped (List Value)} {values : List (List Value)} {left : World}
      (ran : earlier.mapM keys begun = .ok values left) (group : List Value × List Value) :
      (keys group).answer left = (keysFrom (left.saves frame.scope) group).answer begun :=
    Statement.answer_sortKeysFrom agree bound (reached ran).1 holds (reached ran).2 group
  have atFirst (group : List Value × List Value) :
      (keys group).answer begun = (keysFrom (begun.saves frame.scope) group).answer begun :=
    Statement.answer_sortKeysFrom agree bound bound holds holds group
  refine ⟨fun earlier values left ran group => ?_, fun groups stand => ?_⟩
  · rw [after ran group, atFirst group]
  · rw [sortGroups, answer_map]
    refine (congrArg _ (answer_mapM (fun group => (group.1, ·) <$> (keys group).answer begun)
      fun earlier group later pairs left same ran => ?_)).trans (map_eq_pure_bind _ _)
    obtain ⟨values, ran⟩ := mapM_of_pairs ran
    rw [answer_map, after ran group, stand earlier group later values left same ran, ← atFirst group]

/-- Groups rows by themselves, and orders the groups by how many rows each has, counted under a name. -/
def byCount : Statement Expr :=
  let row : Expr := .bind (some "_currobj") none
  { Statement.all with
    groupBy := [row]
    groupOrder := [⟨.expression (.call "count" [row, .constant (.string "n")]), .ascending⟩] }

namespace ByCount

/-- The statement is ready and has not been executed. -/
def ready : World := (Query.ofStatement byCount).prepare.after .start

def frame : Frame := (Query.ofStatement byCount).statement.frame ⟨0, none⟩ [] none

def entries : List (SortSource × Direction) :=
  (groupSources (Query.ofStatement byCount).statement.groupBy
    (Query.ofStatement byCount).statement.groupOrder).toOption.getD []

theorem sources : groupSources (Query.ofStatement byCount).statement.groupBy
    (Query.ofStatement byCount).statement.groupOrder = .ok entries := rfl

/-- The sort keys of a group of so many equal rows. -/
def keys (row : String) (size : Nat) : EvalM (List Value) :=
  groupSortKeys entries (Query.ofStatement byCount).environment frame ([.string row], List.replicate size (.string row))

/-- Whether the sort keys are one number. -/
def isCount (answer : Except Error (List Value)) (count : Int64) : Bool :=
  match answer with
  | .ok [.int64 found] => found == count
  | _ => false

end ByCount

/-- Two rows of one kind have been counted, and leave their number to a group of one row. -/
theorem groupSortKeys_eq_iff_byCount :
    let keys := groupSortKeys ByCount.entries (Query.ofStatement byCount).environment ByCount.frame
    let keysFrom := sortKeysFrom ByCount.entries (Query.ofStatement byCount).environment ByCount.frame
    let first := ([Value.string "a"], [Value.string "a", .string "a"])
    let second := ([Value.string "b"], [Value.string "b"])
    byCount.handlers = [] ∧ (∀ expression ∈ orderExpressions byCount.groupOrder, expression.isPlain = true) ∧
      (statementMeaning byCount).History (Query.ofStatement byCount).environment ByCount.ready.memory ∧
      ByCount.ready.heap.root ByCount.frame.scope < ByCount.ready.heap.stores.length ∧
      ∃ values left, [first].mapM keys ByCount.ready = .ok values left ∧
        ((keys second).answer left = (keys second).answer ByCount.ready ↔
          (keysFrom (left.saves ByCount.frame.scope) second).answer ByCount.ready =
            (keysFrom (ByCount.ready.saves ByCount.frame.scope) second).answer ByCount.ready) := by
  intro keys keysFrom first second
  have plain : ∀ expression ∈ orderExpressions byCount.groupOrder, expression.isPlain = true :=
    List.forall_mem_singleton.mpr (by decide +kernel)
  obtain ⟨_, prepared⟩ := exists_ok (Query.ofStatement byCount).prepare .start (by decide +kernel)
  have history : (statementMeaning byCount).History (Query.ofStatement byCount).environment ByCount.ready.memory :=
    Statement.history_of_ready prepared
  have present : ByCount.ready.heap.root ByCount.frame.scope < ByCount.ready.heap.stores.length := by decide +kernel
  obtain ⟨values, ran⟩ := exists_ok ([first].mapM keys) ByCount.ready (by decide +kernel)
  exact ⟨rfl, plain, history, present, values, _, ran,
    (groupSortKeys_eq_iff rfl plain ByCount.sources history present).1 [first] values _ ran second⟩

/-- The group of one row is ordered by the number two, though by itself it would be ordered by one. -/
theorem groupSortKeys_byCount_differ :
    ByCount.isCount ((ByCount.keys "b" 1).answer ByCount.ready) 1 = true ∧
      ByCount.isCount ((ByCount.keys "b" 1).answer ((ByCount.keys "a" 2).after ByCount.ready)) 2 = true ∧
      (ByCount.keys "b" 1).answer ((ByCount.keys "a" 2).after ByCount.ready) ≠
        (ByCount.keys "b" 1).answer ByCount.ready := by
  have alone : ByCount.isCount ((ByCount.keys "b" 1).answer ByCount.ready) 1 = true := by decide +kernel
  have later : ByCount.isCount ((ByCount.keys "b" 1).answer ((ByCount.keys "a" 2).after ByCount.ready)) 2 = true := by
    decide +kernel
  refine ⟨alone, later, fun same => ?_⟩
  rw [same] at later
  unfold ByCount.isCount at alone later
  split at alone
  · simp_all
  · cases alone

end RecordQuery
