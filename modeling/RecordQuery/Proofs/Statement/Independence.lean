import Mathlib.Data.List.Pairwise
import RecordQuery.Proofs.Meaning.PerRow
import RecordQuery.Proofs.Statement.GroupStage
import RecordQuery.Proofs.Statement.Grouping
import RecordQuery.Proofs.Statement.Placed
import RecordQuery.Proofs.Statement.Readiness
/-! Groups of a statement do not influence each other: what is made of a group among others is what is made of its rows
alone, if grouping them alone makes the same group. -/

namespace RecordQuery

open EvalM

/-! Grouping the rows of one key. -/

namespace Grouped

variable {among : List Value → Prop} {pairs : List (List Value × Value)} {key : List Value}

/-- The first row whose key equals that of a group has that very key. -/
theorem find?_eraseDupsBy (equality : EqualityOn among) {keys : List (List Value)} (inside : ∀ key ∈ keys, among key) :
    (∀ key ∈ keys, ∃ first ∈ keys.eraseDupsBy equalItems, equalItems key first = true) ∧
      ∀ first ∈ keys.eraseDupsBy equalItems, keys.find? (equalItems · first) = some first := by
  induction keys using List.reverseRecOn with
  | nil => exact ⟨by simp, by simp [List.eraseDupsBy, List.eraseDupsBy.loop]⟩
  | append_singleton keys last ih =>
    obtain ⟨earlier, own⟩ := List.forall_mem_append.mp inside
    have own := own last (List.mem_singleton_self last)
    obtain ⟨placed, firsts⟩ := ih earlier
    rw [eraseDupsBy_concat]
    split
    · next repeated =>
      refine ⟨List.forall_mem_append.mpr ⟨placed, ?_⟩, fun first member => ?_⟩
      · simpa using List.any_eq_true.mp repeated
      · rw [List.find?_append, firsts first member, Option.some_or]
    · next fresh =>
      refine ⟨List.forall_mem_append.mpr ⟨fun key member => ?_, ?_⟩, fun first member => ?_⟩
      · obtain ⟨first, present, equal⟩ := placed key member
        exact ⟨first, List.mem_append_left _ present, equal⟩
      · exact List.forall_mem_singleton.mpr
          ⟨last, List.mem_append_right _ (List.mem_singleton_self last), equality.refl own⟩
      · rw [List.find?_append]
        rcases List.mem_append.mp member with old | new
        · rw [firsts first old, Option.some_or]
        · cases List.mem_singleton.mp new
          -- An earlier key that equals the new one would stand in a group that the new one equals too.
          have none : keys.find? (equalItems · last) = none := by
            refine List.find?_eq_none.mpr fun key member equal => fresh ?_
            obtain ⟨first, present, equal'⟩ := placed key member
            have inside' := earlier first (eraseDupsBy_subset _ _ present)
            have reached := equality.trans own (earlier key member) inside'
              ((equality.comm own (earlier key member)).trans equal) equal'
            exact List.any_eq_true.mpr ⟨first, present, reached⟩
          simp [none, equality.refl own]

/-- The rows of one of the groups, grouped by themselves, make this group. -/
theorem ofPairs_filter (equality : EqualityOn among) (inside : ∀ pair ∈ pairs, among pair.1)
    (present : key ∈ (ofPairs pairs).map (·.1)) :
    ofPairs (pairs.filter fun pair => equalItems pair.1 key) =
      [(key, (pairs.filter fun pair => equalItems pair.1 key).map (·.2))] := by
  rw [(ofPairs_partitions equality inside).keys] at present
  have first := (find?_eraseDupsBy equality (List.forall_mem_map.mpr inside)).2 key present
  rw [List.find?_map, ← List.head?_filter] at first
  change ((pairs.filter fun pair => equalItems pair.1 key).head?).map (·.1) = some key at first
  cases found : pairs.filter fun pair => equalItems pair.1 key with
  | nil => simp [found] at first
  | cons pair rest =>
    obtain ⟨own, row⟩ := pair
    rw [found] at first
    cases Option.some.inj first
    refine (ofPairs_of_equal row fun pair member => ?_).trans (by simp)
    have listed : pair ∈ pairs.filter fun pair => equalItems pair.1 own := found ▸ List.mem_cons_of_mem _ member
    exact (List.mem_filter.mp listed).2

/-- Groups whose keys are equal are one. -/
theorem Partitions.eq_of_equal {groups : Grouped (List Value)} (partitions : groups.Partitions pairs)
    {group other : List Value × List Value} (member : group ∈ groups) (member' : other ∈ groups)
    (equal : equalItems group.1 other.1 = true) : group = other := by
  by_contra different
  have symmetric : Std.Symm fun group other : List Value × List Value =>
      equalItems group.1 other.1 = false ∧ equalItems other.1 group.1 = false := ⟨fun _ _ => And.symm⟩
  have apart := (List.pairwise_map.mp partitions.apart).forall member member' different
  simp [equal] at apart

end Grouped

/-! Keys that are those of the rows by themselves. -/

/-- While the world is such, a row has this key, whatever rows it is from. -/
def HasKey (expressions : List Meaning) (environment : Environment) (frame : Frame) (holds : World → Prop)
    (pair : List Value × Value) : Prop :=
  ∀ rows world, holds world → ∃ left, holds left ∧
    groupKey expressions environment { frame with rows } pair.2 world = .ok pair.1 left

section Keys

variable {expressions : List Meaning} {environment : Environment} {pairs : List (List Value × Value)}

/-- Rows that have these keys are given them. -/
theorem withKeys_of_keys {frame : Frame} {holds : World → Prop}
    (keys : ∀ pair ∈ pairs, HasKey expressions environment frame holds pair) (rows : List Value) {world : World}
    (begins : holds world) :
    ∃ left, holds left ∧
      withKeys expressions environment { frame with rows } (pairs.map (·.2)) world = .ok pairs left := by
  induction pairs generalizing world with
  | nil => exact ⟨world, begins, rfl⟩
  | cons pair rest ih =>
    obtain ⟨own, others⟩ := List.forall_mem_cons.mp keys
    obtain ⟨middle, holds', ran⟩ := own rows world begins
    obtain ⟨left, ends, rested⟩ := ih others holds'
    refine ⟨left, ends, ?_⟩
    rw [List.map_cons, withKeys, bind_of_ok ran, bind_of_ok rested]
    rfl

/-- Where the expressions look at rows by themselves, the keys that rows are given are theirs. -/
theorem keys_of_byRow (frame : Frame) {scope : Scope} {binds saves : NameTable Value} {valid : Memory → Prop}
    (parts : ∀ expression ∈ expressions, expression.ConductsIn (.byRow scope binds saves valid) environment)
    (inside : frame.scope = scope) {rows : List Value} {world left : World}
    (begins : world.Holds scope binds saves valid)
    (ran : withKeys expressions environment frame rows world = .ok pairs left) :
    left.Holds scope binds saves valid ∧
      ∀ pair ∈ pairs, HasKey expressions environment frame (World.Holds scope binds saves valid) pair := by
  induction rows generalizing world pairs with
  | nil =>
    cases ran
    exact ⟨begins, by simp⟩
  | cons row rest ih =>
    obtain ⟨key, middle, own, ran⟩ := ok_of_bind ran
    obtain ⟨others, last, rested, ran⟩ := ok_of_bind ran
    cases ran
    obtain ⟨outcome, constant⟩ := groupKey_conducts _ parts row frame inside
    obtain ⟨next, holds, same⟩ := constant frame.rows world begins
    change groupKey expressions environment frame row world = _ at same
    rw [own] at same
    cases outcome <;> cases same
    obtain ⟨ends, keys⟩ := ih holds rested
    exact ⟨ends, List.forall_mem_cons.mpr ⟨constant, keys⟩⟩

end Keys

/-! Projecting one group. -/

theorem Frame.shifts_members (key members : List Value) :
    Frame.Shifts fun frame => { frame with rows := members, groupKey := some key } where
  scope _ := rfl
  rows _ _ := ⟨members, rfl⟩
  groupKey _ _ := ⟨some key, rfl⟩
  statementText _ _ := rfl

namespace Statement

variable {statement : Statement Meaning} {order : RowOrder} {environment : Environment} {frame : Frame}
  {saves : NameTable Value}

theorem projectAlone_conducts (conduct : Conduct) (parts : statement.Every (Meaning.ConductsIn conduct environment))
    (sources : SourcesEvery (Meaning.ConductsIn conduct environment) order.entries) (group : List Value × List Value) :
    conduct.Of fun frame => statement.projectAlone order environment frame group :=
  conduct.bind (conduct.inside (conduct.about (Frame.shifts_members group.1 group.2)
    (projectGroup_conducts conduct parts sources group.2 .start)) _) fun _ => conduct.pure _

/-- The bind variables of a scope are these, and what is remembered is valid. -/
def Settled (scope : Scope) (binds : NameTable Value) (valid : Memory → Prop) (world : World) : Prop :=
  world.heap.Binds scope binds ∧ valid world.memory

/-- From these save values the statement makes these results of a group, and leaves these save values, whatever went
before. -/
def Projects (statement : Statement Meaning) (order : RowOrder) (environment : Environment) (frame : Frame)
    (saves : NameTable Value) (settled : World → Prop) (group : List Value × List Value) (results : List Value)
    (saved : NameTable Value) : Prop :=
  ∀ world, settled world → ∃ left, settled left ∧ left.saves frame.scope = saved ∧
    statement.projectFrom order environment frame saves group world = .ok results left

section Agreeing

variable {binds : NameTable Value} {valid : Memory → Prop}
  (agrees : statement.Every (Meaning.ConductsIn ((View.variables frame.scope binds).agrees valid) environment))
  (sources : SourcesEvery (Meaning.ConductsIn ((View.variables frame.scope binds).agrees valid) environment)
    order.entries)
include agrees sources

/-- What is made of a group once is made of it always. -/
theorem projects_of_ok {group : List Value × List Value} {world left : World} {results : List Value}
    (settled : Settled frame.scope binds valid world)
    (ran : statement.projectFrom order environment frame saves group world = .ok results left) :
    Settled frame.scope binds valid left ∧ statement.Projects order environment frame saves
      (Settled frame.scope binds valid) group results (left.saves frame.scope) := by
  have agree (world' : World) (settled' : Settled frame.scope binds valid world') :
      Alike ((View.variables frame.scope binds).Twins valid)
        (statement.projectFrom order environment frame saves group world)
        (statement.projectFrom order environment frame saves group world') := by
    refine projectAlone_conducts _ agrees sources group frame rfl _ _
      ⟨⟨settled.1.restore saves, settled'.1.restore saves, ?_⟩, settled.2, settled'.2⟩
    exact (Heap.saves_replaceSaves settled.1.present saves).trans
      (Heap.saves_replaceSaves settled'.1.present saves).symm
  refine ⟨?_, fun world' settled' => ?_⟩
  · have twins := agree world settled
    rw [ran] at twins
    exact ⟨twins.2.1.1, twins.2.2.1⟩
  · have twins := agree world' settled'
    cases ran' : statement.projectFrom order environment frame saves group world' <;> rw [ran, ran'] at twins
    · obtain ⟨rfl, ⟨-, bound, same⟩, -, holds⟩ := twins
      exact ⟨_, ⟨bound, holds⟩, same.symm, rfl⟩
    · exact twins.elim

end Agreeing

/-- The results of groups and the save values that they leave, group by group. -/
inductive Projected (statement : Statement Meaning) (order : RowOrder) (environment : Environment) (frame : Frame)
    (saves : NameTable Value) (settled : World → Prop) :
    Grouped (List Value) → Grouped (List Value) → Grouped (NameTable Value) → Prop where
  | nil : Projected statement order environment frame saves settled [] [] []
  | cons {group : List Value × List Value} {results : List Value} {saved : NameTable Value}
      {groups projected : Grouped (List Value)} {groupSaves : Grouped (NameTable Value)}
      (own : statement.Projects order environment frame saves settled group results saved)
      (others : Projected statement order environment frame saves settled groups projected groupSaves) :
      Projected statement order environment frame saves settled (group :: groups) ((group.1, results) :: projected)
        ((group.1, saved) :: groupSaves)

/-- Projecting groups in turn makes of each what is made of it by itself. -/
theorem projected_of_ok (frame : Frame) {binds : NameTable Value} {valid : Memory → Prop}
    (agrees : statement.Every (Meaning.ConductsIn ((View.variables frame.scope binds).agrees valid) environment))
    (sources : SourcesEvery (Meaning.ConductsIn ((View.variables frame.scope binds).agrees valid) environment)
      order.entries)
    {groups projected : Grouped (List Value)} {groupSaves : Grouped (NameTable Value)} {world left : World}
    (settled : Settled frame.scope binds valid world)
    (ran : statement.projectGroups order environment frame saves groups .start world =
      .ok (projected, groupSaves) left) :
    Settled frame.scope binds valid left ∧ statement.Projected order environment frame saves
      (Settled frame.scope binds valid) groups projected groupSaves := by
  induction groups generalizing projected groupSaves world with
  | nil =>
    cases ran
    exact ⟨settled, .nil⟩
  | cons group rest ih =>
    rw [projectGroups_cons] at ran
    obtain ⟨results, next, own, ran⟩ := ok_of_bind ran
    rw [readHeap_bind] at ran
    obtain ⟨⟨others, otherSaves⟩, last, rested, ran⟩ := ok_of_bind ran
    cases ran
    obtain ⟨settled', projects⟩ := projects_of_ok agrees sources settled own
    obtain ⟨settled'', projected⟩ := ih settled' rested
    exact ⟨settled'', .cons projects projected⟩

section Found

variable {settled : World → Prop} {groups projected : Grouped (List Value)} {groupSaves : Grouped (NameTable Value)}
  (all : statement.Projected order environment frame saves settled groups projected groupSaves)
include all

theorem Projected.keys : projected.map (·.1) = groups.map (·.1) := by
  induction all with
  | nil => rfl
  | cons _ _ ih => simp [ih]

/-- The first group whose key equals this one is found with its results and with its save values. -/
theorem Projected.find {key : List Value} {results : List Value} (found : projected.find? key = some results) :
    ∃ group ∈ groups, ∃ saved, equalItems key group.1 = true ∧ groupSaves.find? key = some saved ∧
      statement.Projects order environment frame saves settled group results saved := by
  induction all with
  | nil => cases found
  | @cons group own saved _ _ _ projects _ ih =>
    by_cases equal : equalItems key group.1 = true
    · simp only [Grouped.find?, List.find?_cons, equal, Option.map_some] at found
      cases found
      exact ⟨group, List.mem_cons_self .., saved, equal, by simp [Grouped.find?, equal], projects⟩
    · simp only [Grouped.find?, List.find?_cons, equal] at found
      obtain ⟨other, member, saved', equal', found', projects'⟩ := ih found
      exact ⟨other, List.mem_cons_of_mem _ member, saved', equal',
        by simpa [Grouped.find?, List.find?_cons, equal] using found', projects'⟩

end Found

/-- The results of groups, each limited, under their keys. -/
def limited (statement : Statement Meaning) (projected : Grouped (List Value)) : Grouped (List Value) :=
  (projected.map (·.1)).filterMap fun key => (projected.find? key).map fun results =>
    (key, (statement.limit.map (·.apply results)).getD results)

/-- The results of groups with the save values that go with them, entered in the order of the groups. -/
def collect (statement : Statement Meaning) (projected : Grouped (List Value))
    (groupSaves : Grouped (NameTable Value)) : Grouped (List Value) × Grouped (NameTable Value) :=
  let kept := statement.limited projected
  let keptSaves := kept.filterMap fun (key, _) => (groupSaves.find? key).map (key, ·)
  (kept.foldl (fun (entered : Grouped (List Value)) group => entered.insert group.1 group.2) [],
    keptSaves.foldl (fun (entered : Grouped (NameTable Value)) group => entered.insert group.1 group.2) [])

/-- Without clauses that order or limit groups, groups come as they are projected. -/
theorem groupStage_eq (unordered : statement.groupOrder = []) (unlimited : statement.groupLimit = none)
    (rows : List Value) : statement.groupStage environment frame rows = (do
      let groups ← groupRows statement.groupBy environment frame rows
      let entries ← EvalM.ofExcept (sortSources statement.select statement.orderBy)
      let saves ← EvalM.readHeap fun heap => (heap.rootStore frame.scope).saves
      let (projected, groupSaves) ←
        statement.projectGroups ⟨entries, statement.cacheKeys⟩ environment frame saves groups .start
      EvalM.changeHeap (·.replaceSaves frame.scope saves)
      return statement.collect projected groupSaves) := by
  unfold groupStage assemble collect limited
  simp only [unordered, unlimited, List.isEmpty_nil, if_true, Option.map_none, Option.getD_none,
    Grouped.findFiled?_file, Grouped.insertAll_eq, pure_bind]

/-- Groups that have been made are projected from the save values then. -/
theorem groupStage_ok {rows : List Value} {groups : Grouped (List Value)} {world begun left : World}
    {collected : Grouped (List Value) × Grouped (NameTable Value)} (unordered : statement.groupOrder = [])
    (unlimited : statement.groupLimit = none)
    (grouped : groupRows statement.groupBy environment frame rows world = .ok groups begun) :
    statement.groupStage environment frame rows world = .ok collected left ↔
      ∃ entries, sortSources statement.select statement.orderBy = .ok entries ∧ ∃ projected groupSaves last,
        statement.projectGroups ⟨entries, statement.cacheKeys⟩ environment frame (begun.saves frame.scope) groups .start
          begun = .ok (projected, groupSaves) last ∧ collected = statement.collect projected groupSaves ∧
        left = { last with heap := last.heap.replaceSaves frame.scope (begun.saves frame.scope) } := by
  rw [groupStage_eq unordered unlimited, bind_of_ok grouped]
  cases sorted : sortSources statement.select statement.orderBy with
  | error error =>
    rw [ofExcept_error_bind]
    refine ⟨fun failed => ?_, fun ⟨_, absent, _⟩ => ?_⟩
    · cases failed
    · cases absent
  | ok entries =>
    rw [ofExcept_ok_bind, readHeap_bind]
    refine ⟨fun ran => ?_, fun ⟨_, same, projected, groupSaves, last, ran, collect, written⟩ => ?_⟩
    · obtain ⟨⟨projected, groupSaves⟩, last, began, ended⟩ := ok_of_bind ran
      cases ended
      exact ⟨entries, rfl, projected, groupSaves, last, began, rfl, rfl⟩
    · cases same
      subst collect written
      exact (bind_of_ok ran).trans rfl

/-- Keys that are apart are collected as they are found. -/
theorem collect_of_apart {projected : Grouped (List Value)} (apart : projected.Apart)
    (groupSaves : Grouped (NameTable Value)) : statement.collect projected groupSaves =
      (statement.limited projected,
        (statement.limited projected).filterMap fun (key, _) => (groupSaves.find? key).map (key, ·)) := by
  have fewer : ((statement.limited projected).map (·.1)).Sublist ((projected.map (·.1)).map id) :=
    Grouped.keys_filterMap_sublist ..
  rw [List.map_id] at fewer
  have keys : (statement.limited projected).Apart := apart.sublist fewer
  exact Prod.ext (Grouped.foldl_insert_of_apart keys)
    (Grouped.foldl_insert_of_apart (keys.sublist (Grouped.keys_filterMap_sublist Prod.fst ..)))

/-- What is collected under a key is what is found there, limited, with the save values found there. -/
theorem mem_collect {projected : Grouped (List Value)} (apart : projected.Apart)
    {groupSaves : Grouped (NameTable Value)} {key found : List Value}
    (listed : (key, found) ∈ (statement.collect projected groupSaves).1) :
    key ∈ projected.map (·.1) ∧ (∃ results, projected.find? key = some results ∧
      found = (statement.limit.map (·.apply results)).getD results) ∧
    ∀ saved, groupSaves.find? key = some saved → (key, saved) ∈ (statement.collect projected groupSaves).2 := by
  rw [collect_of_apart apart] at listed ⊢
  obtain ⟨key', present, own⟩ := List.mem_filterMap.mp listed
  cases seen : projected.find? key' with
  | none => simp [seen] at own
  | some results =>
    rw [seen] at own
    cases own
    exact ⟨present, ⟨results, seen, rfl⟩, fun saved stored =>
      List.mem_filterMap.mpr ⟨_, listed, by simp [stored]⟩⟩

/-- What is collected of one group alone. -/
theorem collect_single {key : List Value} (same : equalItems key key = true) (results : List Value)
    (saved : NameTable Value) : statement.collect [(key, results)] [(key, saved)] =
      ([(key, (statement.limit.map (·.apply results)).getD results)], [(key, saved)]) := by
  simp [collect, limited, Grouped.find?, Grouped.insert, Grouped.put, same]

/-- Grouping these rows, of a group among others, makes this group alone, and leaves these save values. -/
def GroupsAlone (statement : Statement Meaning) (environment : Environment) (frame : Frame) (saves : NameTable Value)
    (group : List Value × List Value) (world : World) : Prop :=
  ∃ begun, groupRows statement.groupBy environment { frame with rows := group.2 } group.2 world = .ok [group] begun ∧
    begun.saves frame.scope = saves

/-- Grouping leaves the bind variables and what is valid. -/
theorem settled_of_grouped (frame : Frame) {binds : NameTable Value} {valid : Memory → Prop}
    (agrees : statement.Every (Meaning.ConductsIn ((View.variables frame.scope binds).agrees valid) environment))
    {rows : List Value} {groups : Grouped (List Value)} {world begun : World}
    (settled : Settled frame.scope binds valid world)
    (grouped : groupRows statement.groupBy environment frame rows world = .ok groups begun) :
    Settled frame.scope binds valid begun := by
  have twins : EvalM.Alike ((View.variables frame.scope binds).Twins valid)
      (groupRows statement.groupBy environment frame rows world)
      (groupRows statement.groupBy environment frame rows world) :=
    groupRows_conducts _ agrees.groupBy rows frame rfl world world ⟨⟨settled.1, settled.1, rfl⟩, settled.2, settled.2⟩
  rw [grouped] at twins
  exact ⟨twins.2.1.1, twins.2.2.1⟩

section Stage

variable {binds : NameTable Value} {valid : Memory → Prop}
  (agrees : statement.Every (Meaning.ConductsIn ((View.variables frame.scope binds).agrees valid) environment))
  (unordered : statement.groupOrder = []) (unlimited : statement.groupLimit = none)
include agrees unordered unlimited

/-- A group that is made alone has the results and the save values that it has among others. -/
theorem groupStage_alone {rows : List Value} {results : Grouped (List Value)} {saved : Grouped (NameTable Value)}
    {groups : Grouped (List Value)} {world begun left : World} (settled : Settled frame.scope binds valid world)
    (grouped : groupRows statement.groupBy environment { frame with rows } rows world = .ok groups begun)
    (ran : statement.groupStage environment { frame with rows } rows world = .ok (results, saved) left)
    (apart : ∀ group ∈ groups, ∀ other ∈ groups, equalItems group.1 other.1 = true → group = other)
    {key : List Value} {found : List Value} (listed : (key, found) ∈ results) :
    ∃ group ∈ groups, group.1 = key ∧ ∃ kept, (key, kept) ∈ saved ∧
      ∀ world', Settled frame.scope binds valid world' →
        statement.GroupsAlone environment frame (begun.saves frame.scope) group world' →
        ∃ left', statement.groupStage environment { frame with rows := group.2 } group.2 world' =
          .ok ([(key, found)], [(key, kept)]) left' := by
  obtain ⟨entries, sorted, projected, groupSaves, last, began, collected, -⟩ :=
    (groupStage_ok unordered unlimited grouped).mp ran
  have settled' := settled_of_grouped { frame with rows } agrees settled grouped
  have sorts := agrees.entries sorted
  obtain ⟨-, all⟩ := projected_of_ok { frame with rows } agrees sorts settled' began
  obtain ⟨rfl, rfl⟩ := Prod.mk.inj collected
  have keysApart : projected.Apart := by
    rw [Grouped.Apart, all.keys]
    exact groupRows_apart grouped
  obtain ⟨present, ⟨items, seen, rfl⟩, stored⟩ := mem_collect keysApart listed
  obtain ⟨group, member, kept, equal, found, projects⟩ := all.find seen
  rw [all.keys] at present
  obtain ⟨other, member', rfl⟩ := List.mem_map.mp present
  cases apart other member' group member equal
  refine ⟨group, member, rfl, kept, stored kept found, fun world' bound alone => ?_⟩
  obtain ⟨begun', grouped', saved'⟩ := alone
  have bound' := settled_of_grouped { frame with rows := group.2 } agrees bound grouped'
  obtain ⟨last, -, left, ran⟩ := projects begun' bound'
  refine ⟨_, (groupStage_ok unordered unlimited grouped').mpr
    ⟨entries, sorted, [(group.1, items)], [(group.1, kept)], last, ?_, (collect_single equal items kept).symm, rfl⟩⟩
  rw [projectGroups_cons, saved']
  refine (bind_of_ok ran).trans ?_
  rw [readHeap_bind]
  exact congrArg (fun saved => EStateM.Result.ok ([(group.1, items)], [(group.1, saved)]) last) left

end Stage

/-- Where the grouping expressions look at rows by themselves, each group is made alone. -/
theorem groupsAlone_of_byRow {among : List Value → Prop} (equality : EqualityOn among) {binds saves : NameTable Value}
    {valid : Memory → Prop} {rows : List Value} {pairs : List (List Value × Value)} {world begun world' : World}
    (parts : ∀ expression ∈ statement.groupBy,
      expression.ConductsIn (.byRow frame.scope binds saves valid) environment)
    (begins : world.Holds frame.scope binds saves valid) (begins' : world'.Holds frame.scope binds saves valid)
    (keyed : withKeys statement.groupBy environment { frame with rows } rows world = .ok pairs begun)
    (inside : ∀ pair ∈ pairs, among pair.1) {key : List Value} (made : key ∈ (Grouped.ofPairs pairs).map (·.1)) :
    statement.GroupsAlone environment frame (begun.saves frame.scope)
      (key, (pairs.filter fun pair => equalItems pair.1 key).map (·.2)) world' := by
  obtain ⟨ends, keys⟩ := keys_of_byRow { frame with rows } parts rfl begins keyed
  obtain ⟨left, ends', ran⟩ := withKeys_of_keys
    (fun pair (member : pair ∈ pairs.filter fun pair => equalItems pair.1 key) =>
      keys pair (List.mem_of_mem_filter member))
    ((pairs.filter fun pair => equalItems pair.1 key).map (·.2)) begins'
  refine ⟨left, ?_, ends'.saves.trans ends.saves.symm⟩
  rw [groupRows, map_eq_pure_bind, bind_of_ok ran, Grouped.ofPairs_filter equality inside made]
  rfl

/-! Statements that have been prepared. -/

section Prepared

variable {statement : Statement Expr} {environment : Environment} {base : Memory}
  (history : (statementMeaning statement).History environment base) (own : environment.functions.own = [])
  (standard : environment.functions.standard = FunctionRegistry.default.standard)
include history own standard

/-- The expressions of a statement that are plain agree from worlds with the same variables, now and later on. -/
theorem History.all_agree (ofRows : (statementMeaning statement).sourceExpression? = none)
    (plain : ∀ expression ∈ statement.expressions none, expression.isPlain = true) (scope : Scope)
    (binds : NameTable Value) :
    ∃ valid, (∀ memory, (statementMeaning statement).Since environment base memory → valid memory) ∧
      (statementMeaning statement).placed.Every
        (Meaning.ConductsIn ((View.variables scope binds).agrees valid) environment) := by
  have ranges : ∀ part ∈ (statementMeaning statement).parts, ∃ expression : Expr,
      expression.isOver .plain = true ∧ expression.meaning = part.2 := by
    intro part member
    have present := mem_parts member
    rw [statementMeaning_eq_map, expressions_map] at present
    obtain ⟨expression, listed, same⟩ := List.mem_map.mp present
    exact ⟨expression, plain expression listed, same⟩
  obtain ⟨valid, now, dependable⟩ := history.dependable_of_over own standard (Trait.everything_stays.and _)
    ((Vocabulary.plain_fits _).and (Vocabulary.plain_fits (View.variables scope binds))) (List.Sublist.refl _) ranges
  exact ⟨valid, now, placed_every_of_parts ofRows fun part member =>
    (dependable _ (List.mem_map_of_mem member)).shows.2⟩

/-- The grouping expressions of a statement that look at rows by themselves have one outcome on a row, now and later
on. -/
theorem History.groupBy_byRow (looks : ∀ expression ∈ statement.groupBy, expression.isOver .perRow = true)
    (scope : Scope) (binds saves : NameTable Value) :
    ∃ valid, (∀ memory, (statementMeaning statement).Since environment base memory → valid memory) ∧
      ∀ expression ∈ (statementMeaning statement).placed.groupBy,
        expression.ConductsIn (.byRow scope binds saves valid) environment := by
  have ranges : ∀ part ∈ Meaning.numbered (statementMeaning statement).groupBy .groupBy, ∃ expression : Expr,
      expression.isOver .perRow = true ∧ expression.meaning = part.2 := by
    intro part member
    have present := Meaning.mem_numbered member
    rw [statementMeaning_eq_map] at present
    obtain ⟨expression, listed, same⟩ := List.mem_map.mp present
    exact ⟨expression, looks expression listed, same⟩
  obtain ⟨valid, now, dependable⟩ := history.dependable_of_over own standard (Trait.everything_stays.and _)
    ((Vocabulary.perRow_fits_view _).and (Vocabulary.perRow_fits scope binds saves)) (groupBy_parts_sublist _) ranges
  rw [Meaning.branched_numbered] at dependable
  exact ⟨valid, now, fun expression member => (dependable expression member).shows.2⟩

end Prepared

end Statement

/-- Groups rows by themselves, and by how many rows there are. -/
def byCrowd : Statement Expr := { Statement.all with groupBy := [.bind (some "_currobj") none, .call "count" []] }

namespace ByCrowd

def statement : Statement Meaning := (statementMeaning byCrowd).placed

/-- The statement is ready and has not been executed. -/
def ready : World := (Query.ofStatement byCrowd).prepare.after .start

def frame (rows : List Value) : Frame := statement.frame ⟨0, none⟩ rows none

/-- The group stage of the statement. -/
def stage (rows : List Value) : EvalM (Grouped (List Value) × Grouped (NameTable Value)) :=
  statement.groupStage (Query.ofStatement byCrowd).environment (frame rows) rows

/-- Whether there is a group of a row that was one of so many. -/
def finds (row : String) (size : Int64) (results : Grouped (List Value)) : Bool :=
  (results.find? [.string row, .int64 size]).isSome

/-- Whether there is just this row. -/
def isRow (row : String) : List Value → Bool
  | [.string found] => found == row
  | _ => false

theorem eq_of_isRow {row : String} {rows : List Value} (checked : isRow row rows = true) : rows = [.string row] := by
  unfold isRow at checked
  split at checked
  · rw [eq_of_beq checked]
  · cases checked

end ByCrowd

end RecordQuery
