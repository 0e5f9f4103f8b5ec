import RecordQuery.Proofs.Meaning.OfExpr
import RecordQuery.Proofs.Statement.Ordering
import RecordQuery.Query
/-! The save values after the group stage. Each group is projected from the save values that grouping left, and these
are put back when all groups are projected; a group that fails leaves them as it had them. -/

namespace RecordQuery

open EvalM

/-- A sort that starts with nothing remembered ends so. -/
theorem RowOrder.sort_forgets (order : RowOrder) (rows : List Value) (environment : Environment) (frame : Frame) :
    Returns (fun result => result.2 = .start) (order.sort rows environment frame .start) := by
  unfold RowOrder.sort
  split
  · exact returns_pure rfl
  · refine (returns_true _).bind fun sorted _ => ?_
    obtain ⟨rows, state⟩ := sorted
    intro world result left ran
    dsimp only at ran
    rw [SortM.bind_of_ok (SortM.get_ok state world), SortM.bind_of_ok (SortM.set_ok .start state world)] at ran
    cases failed : state.failure with
    | some error =>
      rw [failed] at ran
      cases ran
    | none =>
      rw [failed] at ran
      cases ran
      rfl

namespace Statement

variable {statement : Statement Meaning} {order : RowOrder} {environment : Environment} {frame : Frame}
  {saves : NameTable Value}

theorem projectGroup_forgets (statement : Statement Meaning) (order : RowOrder) (environment : Environment)
    (frame : Frame) (members : List Value) :
    Returns (fun result => result.2 = .start) (statement.projectGroup order environment frame members .start) := by
  have passed : Returns (fun result => result.2 = SortState.start)
      ((liftM (runAll "execute on results" statement.onResults environment frame) : SortM Unit) .start) :=
    (returns_true _).bind fun _ _ => returns_pure rfl
  refine passed.bind fun (_, state) same => ?_
  cases same
  refine (order.sort_forgets members environment frame).bind fun (sorted, state) same => ?_
  cases same
  exact (returns_true _).bind fun _ _ => returns_pure rfl

/-- Projects one group, with nothing remembered of any other. -/
def projectAlone (statement : Statement Meaning) (order : RowOrder) (environment : Environment) (frame : Frame)
    (group : List Value × List Value) : EvalM (List Value) := do
  let (results, _) ← EvalM.inside ("group " ++ (Value.list group.1).quoted)
    ((statement.projectGroup order environment { frame with rows := group.2, groupKey := some group.1 } group.2).run
      .start)
  return results

/-- Projects one group from given save values. -/
def projectFrom (statement : Statement Meaning) (order : RowOrder) (environment : Environment) (frame : Frame)
    (saves : NameTable Value) (group : List Value × List Value) : EvalM (List Value) := do
  EvalM.changeHeap (·.replaceSaves frame.scope saves)
  statement.projectAlone order environment frame group

/-- What a sort remembers does not pass from one group to the next. -/
theorem projectGroups_cons (group : List Value × List Value) (rest : Grouped (List Value)) :
    statement.projectGroups order environment frame saves (group :: rest) .start = (do
      let results ← statement.projectFrom order environment frame saves group
      let saved ← EvalM.readHeap fun heap => (heap.rootStore frame.scope).saves
      let (groups, groupSaves) ← statement.projectGroups order environment frame saves rest .start
      return ((group.1, results) :: groups, (group.1, saved) :: groupSaves)) := by
  obtain ⟨key, members⟩ := group
  have forgets := (statement.projectGroup_forgets order environment
    { frame with rows := members, groupKey := some key } members).inside ("group " ++ (Value.list key).quoted)
  rw [projectFrom, bind_assoc]
  refine bind_congr fun _ => ?_
  rw [projectAlone, bind_assoc]
  refine forgets.bind_congr fun (results, state) same => ?_
  cases same
  rfl

/-- Projecting groups in turn from a world stops at one of them: those before it are projected, and it fails and
leaves another world. -/
inductive StopsAt (statement : Statement Meaning) (order : RowOrder) (environment : Environment) (frame : Frame)
    (saves : NameTable Value) : Grouped (List Value) → World → World → Prop where
  | here {group : List Value × List Value} {rest : Grouped (List Value)} {world stopped : World} {error : Error}
      (failed : statement.projectFrom order environment frame saves group world = .error error stopped) :
      StopsAt statement order environment frame saves (group :: rest) world stopped
  | later {group : List Value × List Value} {rest : Grouped (List Value)} {world next stopped : World}
      {results : List Value}
      (projected : statement.projectFrom order environment frame saves group world = .ok results next)
      (stops : StopsAt statement order environment frame saves rest next stopped) :
      StopsAt statement order environment frame saves (group :: rest) world stopped

section First

variable {group : List Value × List Value} {rest : Grouped (List Value)} {world left stopped : World}

theorem stopsAt_of_failed {error : Error}
    (failed : statement.projectFrom order environment frame saves group world = .error error left) :
    statement.StopsAt order environment frame saves (group :: rest) world stopped ↔ left = stopped := by
  constructor
  · intro stops
    cases stops with
    | here failed' =>
      rw [failed] at failed'
      cases failed'
      rfl
    | later projected _ => simp [failed] at projected
  · rintro rfl
    exact .here failed

theorem stopsAt_of_projected {results : List Value}
    (projected : statement.projectFrom order environment frame saves group world = .ok results left) :
    statement.StopsAt order environment frame saves (group :: rest) world stopped ↔
      statement.StopsAt order environment frame saves rest left stopped := by
  constructor
  · intro stops
    cases stops with
    | here failed => simp [projected] at failed
    | later projected' stops =>
      rw [projected] at projected'
      cases projected'
      exact stops
  · exact .later projected

end First

theorem stopsAt_iff {groups : Grouped (List Value)} {world stopped : World} :
    statement.StopsAt order environment frame saves groups world stopped ↔
      ∃ error, statement.projectGroups order environment frame saves groups .start world = .error error stopped := by
  induction groups generalizing world with
  | nil =>
    constructor
    · intro stops
      cases stops
    · rintro ⟨error, ran⟩
      cases ran
  | cons group rest ih =>
    rw [projectGroups_cons]
    cases own : statement.projectFrom order environment frame saves group world with
    | error error left => simp [stopsAt_of_failed own, bind_of_error own]
    | ok results next =>
      have saved : (EvalM.readHeap fun heap => (heap.rootStore frame.scope).saves) next =
          .ok (next.saves frame.scope) next := rfl
      rw [stopsAt_of_projected own, ih, bind_of_ok own, bind_of_ok saved]
      cases others : statement.projectGroups order environment frame saves rest .start next with
      | error error left => rw [bind_of_error others]
      | ok projected left =>
        rw [bind_of_ok others]
        constructor <;> rintro ⟨error, ran⟩ <;> cases ran

theorem projectFrom_keeps (keeps : statement.Every (Meaning.KeepsIn World.Extends environment))
    (sources : SourcesEvery (Meaning.KeepsIn World.Extends environment) order.entries)
    (group : List Value × List Value) :
    EvalM.Keeps World.Extends (statement.projectFrom order environment frame saves group) :=
  (keeps_changeHeap fun world => world.heap.extends_replaceSaves frame.scope saves).bind fun _ =>
    ((projectGroup_keeps keeps sources _ group.2 .start).inside _).bind fun _ => keeps_pure _

/-- The group that fails is projected from the given save values, so what it leaves besides is its own. -/
theorem StopsAt.began (keeps : statement.Every (Meaning.KeepsIn World.Extends environment))
    (sources : SourcesEvery (Meaning.KeepsIn World.Extends environment) order.entries)
    {groups : Grouped (List Value)} {world stopped : World}
    (present : world.heap.root frame.scope < world.heap.stores.length)
    (stops : statement.StopsAt order environment frame saves groups world stopped) :
    ∃ group ∈ groups, ∃ start error, start.saves frame.scope = saves ∧
      statement.projectAlone order environment frame group start = .error error stopped := by
  induction stops with
  | here failed =>
    rw [projectFrom, changeHeap_bind] at failed
    refine ⟨_, List.mem_cons_self .., _, _, ?_, failed⟩
    exact Heap.saves_replaceSaves present saves
  | @later own rest world next stopped results projected _ ih =>
    have extended : world.heap.Extends next.heap := by
      rw [← after_of_ok projected]
      exact projectFrom_keeps keeps sources own world
    obtain ⟨group, member, start, error, began, failed⟩ := ih (extended.present present)
    exact ⟨group, List.mem_cons_of_mem _ member, start, error, began, failed⟩

/-- Projecting grouped rows stops at one of the groups and leaves another world. -/
def Stops (statement : Statement Meaning) (environment : Environment) (frame : Frame)
    (groups : Grouped (List Value)) (begun stopped : World) : Prop :=
  ∃ entries, sortSources statement.select statement.orderBy = .ok entries ∧
    statement.StopsAt ⟨entries, statement.cacheKeys⟩ environment frame (begun.saves frame.scope) groups begun stopped

section Stage

variable {rows : List Value} {groups : Grouped (List Value)} {world begun stopped : World}

/-- Where projecting stops, the group stage stops. -/
theorem groupStage_of_stops (grouped : groupRows statement.groupBy environment frame rows world = .ok groups begun)
    (stops : statement.Stops environment frame groups begun stopped) :
    (statement.groupStage environment frame rows).after world = stopped := by
  obtain ⟨entries, sources, stops⟩ := stops
  obtain ⟨error, failed⟩ := stopsAt_iff.mp stops
  unfold World.saves at failed
  apply after_of_error
  rw [groupStage, bind_of_ok grouped, sources, ofExcept_ok_bind, readHeap_bind, bind_of_error failed]

/-- Where it does not, the save values are those that grouping left. -/
theorem saves_groupStage_of_not_stops (keeps : statement.Every (Meaning.KeepsIn World.Extends environment))
    (unordered : statement.groupOrder = [])
    (present : world.heap.root frame.scope < world.heap.stores.length)
    (grouped : groupRows statement.groupBy environment frame rows world = .ok groups begun)
    (goes : ∀ stopped, ¬statement.Stops environment frame groups begun stopped) :
    ((statement.groupStage environment frame rows).after world).saves frame.scope = begun.saves frame.scope := by
  cases sources : sortSources statement.select statement.orderBy with
  | error error =>
    have left : (statement.groupStage environment frame rows).after world = begun := by
      rw [after, groupStage, bind_of_ok grouped, sources, ofExcept_error_bind]
      rfl
    rw [left]
  | ok entries =>
    let order : RowOrder := ⟨entries, statement.cacheKeys⟩
    cases projected : statement.projectGroups order environment frame (begun.saves frame.scope) groups .start begun with
    | error error stopped => exact absurd ⟨entries, sources, stopsAt_iff.mpr ⟨error, projected⟩⟩ (goes stopped)
    | ok result left =>
      have keys : SourcesEvery (Meaning.KeepsIn World.Extends environment) order.entries := keeps.entries sources
      have before : world.Extends _ := groupRows_keeps keeps.groupBy frame rows world
      have during : begun.Extends _ :=
        projectGroups_keeps keeps keys frame begun groups .start begun (refl begun)
      rw [after_of_ok grouped] at before
      rw [after_of_ok projected] at during
      unfold World.saves at projected
      rw [after, groupStage, bind_of_ok grouped, sources, ofExcept_ok_bind, readHeap_bind, bind_of_ok projected]
      simp only [changeHeap_bind, unordered, List.isEmpty_nil, if_true]
      exact Heap.saves_replaceSaves (during.present (before.present present)) _

/-- Grouping fails with the save values as they were; or it leaves them so and projecting the groups does not stop; or
the group that it stops at leaves them so. -/
def LeavesSaves (statement : Statement Meaning) (environment : Environment) (frame : Frame) (rows : List Value)
    (world : World) : Prop :=
  match groupRows statement.groupBy environment frame rows world with
  | .error _ failed => failed.saves frame.scope = world.saves frame.scope
  | .ok groups begun =>
    ((∀ stopped, ¬statement.Stops environment frame groups begun stopped) →
      begun.saves frame.scope = world.saves frame.scope) ∧
    ∀ stopped, statement.Stops environment frame groups begun stopped →
      stopped.saves frame.scope = world.saves frame.scope

theorem saves_groupStage_of_keeps (keeps : statement.Every (Meaning.KeepsIn World.Extends environment))
    (unordered : statement.groupOrder = []) (present : world.heap.root frame.scope < world.heap.stores.length)
    (rows : List Value) :
    ((statement.groupStage environment frame rows).after world).saves frame.scope = world.saves frame.scope ↔
      statement.LeavesSaves environment frame rows world := by
  unfold LeavesSaves
  cases grouped : groupRows statement.groupBy environment frame rows world with
  | error error failed =>
    have left : (statement.groupStage environment frame rows).after world = failed :=
      after_of_error (bind_of_error grouped)
    rw [left]
  | ok groups begun =>
    dsimp only
    by_cases stops : ∃ stopped, statement.Stops environment frame groups begun stopped
    · obtain ⟨stopped, here⟩ := stops
      rw [groupStage_of_stops grouped here]
      constructor
      · intro same
        refine ⟨fun goes => absurd here (goes stopped), fun other there => ?_⟩
        rw [← groupStage_of_stops grouped there, groupStage_of_stops grouped here]
        exact same
      · exact fun survives => survives.2 stopped here
    · have goes : ∀ stopped, ¬statement.Stops environment frame groups begun stopped := not_exists.mp stops
      rw [saves_groupStage_of_not_stops keeps unordered present grouped goes]
      constructor
      · exact fun same => ⟨fun _ => same, fun stopped here => absurd here (goes stopped)⟩
      · exact fun survives => survives.1 goes

end Stage

end Statement

/-- After the group stage of a statement without GROUP BY ORDER BY the save values are those from before, exactly if
neither grouping nor the group at which projecting stops changes them: all groups but that one are undone. -/
theorem saves_groupStage_eq_iff {statement : Statement Expr} {environment : Environment} {frame : Frame}
    {world : World} (handlers : ∀ handler ∈ handlersOfStatement statement, handler.Keeps World.Extends)
    (around : environment.Keeps World.Extends) (unordered : statement.groupOrder = [])
    (present : world.heap.root frame.scope < world.heap.stores.length) (rows : List Value) :
    (((Query.ofStatement statement).statement.groupStage environment frame rows).after world).saves frame.scope =
        world.saves frame.scope ↔
      (Query.ofStatement statement).statement.LeavesSaves environment frame rows world := by
  have keeps : (Query.ofStatement statement).statement.Keeps World.Extends :=
    Statement.placed_keeps (statementMeaning_keeps statement handlers)
  refine Statement.saves_groupStage_of_keeps (keeps.within around) ?_ present rows
  obtain ⟨⟩ := statement
  cases unordered
  rfl

/-- Counts its rows under a name, and then takes the negative of each. -/
def tally : Statement Expr :=
  let row : Expr := .bind (some "_currobj") none
  { Statement.all with
    select := some [⟨.call "count" [row, .string "n"], none, false⟩, ⟨.negate row, none, false⟩]
    groupBy := [row] }

namespace Tally

def statement : Statement Meaning := (Query.ofStatement tally).statement

/-- The statement is ready and has not been executed. -/
def ready : World := (Query.ofStatement tally).prepare.after .start

/-- The group stage of the statement. -/
def stage (rows : List Value) : EvalM (Grouped (List Value) × Grouped (NameTable Value)) :=
  statement.groupStage statement.ownEnvironment (statement.frame ⟨0, none⟩ rows none) rows

/-- The names under which save values are kept. -/
def kept (world : World) : List String := (world.saves ⟨0, none⟩).entries.map (·.1)

/-- Whether a run fails in a place and leaves save values under these names. -/
def failsLeaving {α : Type} (place : String) (names : List String) : EStateM.Result Error World α → Bool
  | .error (.within found _) stopped => found == place && kept stopped == names
  | _ => false

end Tally

theorem saves_groupStage_eq_iff_on_tally :
    (∀ handler ∈ handlersOfStatement tally, handler.Keeps World.Extends) ∧ tally.groupOrder = [] ∧
      Tally.ready.heap.root ⟨0, none⟩ < Tally.ready.heap.stores.length ∧
      (((Tally.stage [.int32 1]).after Tally.ready).saves ⟨0, none⟩ = Tally.ready.saves ⟨0, none⟩ ↔
        Tally.statement.LeavesSaves Tally.statement.ownEnvironment (Tally.statement.frame ⟨0, none⟩ [.int32 1] none)
          [.int32 1] Tally.ready) := by
  have handlers : ∀ handler ∈ handlersOfStatement tally, handler.Keeps World.Extends := by
    intro handler member
    cases member
  have present : Tally.ready.heap.root ⟨0, none⟩ < Tally.ready.heap.stores.length := by decide +kernel
  have around : Tally.statement.ownEnvironment.Keeps World.Extends :=
    Statement.ownEnvironment_keeps (Statement.placed_keeps (statementMeaning_keeps tally handlers))
  exact ⟨handlers, rfl, present, saves_groupStage_eq_iff handlers around rfl present _⟩

/-- On a text the count is kept, the negative fails, and the count stays behind. -/
theorem groupStage_tally_leaks :
    ∃ error stopped, Tally.stage [.string "b"] Tally.ready = .error (.within "group [b]" error) stopped ∧
      stopped.saves ⟨0, none⟩ ≠ Tally.ready.saves ⟨0, none⟩ := by
  have before : Tally.kept Tally.ready = [] := by decide +kernel
  have failed : Tally.failsLeaving "group [b]" ["n"] (Tally.stage [.string "b"] Tally.ready) = true := by
    unfold Tally.stage Statement.groupStage groupRows
    rw [funext Grouped.ofPairs_eq]
    decide +kernel
  unfold Tally.failsLeaving at failed
  split at failed
  · rename_i place error stopped ran
    simp only [Bool.and_eq_true, beq_iff_eq] at failed
    obtain ⟨rfl, left⟩ := failed
    refine ⟨error, stopped, ran, fun same => ?_⟩
    have names : Tally.kept stopped = Tally.kept Tally.ready := by rw [Tally.kept, same, Tally.kept]
    simp [left, before] at names
  · cases failed

end RecordQuery
