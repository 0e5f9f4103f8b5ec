import Mathlib.Data.List.Nodup
import RecordQuery.Evaluation.World
/-! What the nodes of a memory tell of statements: each of its own, and of the subscriptions it holds. -/

namespace RecordQuery

/-- The statement that a node stands for, and how that stands to the one around it. -/
def NodeState.statement? : NodeState → Option (StatementState × Nesting)
  | statement state nesting => some (state, nesting)
  | _ => none

/-- The subscriptions of a statement, each with its store. -/
def Nesting.held (nesting : Nesting) : List (StoreId × Nat) := nesting.subscriptions.map (nesting.store, ·)

namespace Memory

mutual
/-- The statements that the nodes of a tree stand for. -/
def statements : Memory → List (StatementState × Nesting)
  | node state branches => state.statement?.toList ++ branchStatements branches
termination_by structural memory => memory

def branchStatements : List (Branch × Memory) → List (StatementState × Nesting)
  | [] => []
  | (_, part) :: rest => part.statements ++ branchStatements rest
termination_by structural branches => branches
end

mutual
theorem subscriptions_eq : ∀ memory : Memory, memory.subscriptions = memory.statements.flatMap (·.2.held)
  | node state branches => by
    have below := branchSubscriptions_eq branches
    cases state <;> simp [subscriptions, statements, NodeState.statement?, Nesting.held, below]
termination_by structural memory => memory

theorem branchSubscriptions_eq : ∀ branches : List (Branch × Memory),
    branchSubscriptions branches = (branchStatements branches).flatMap (·.2.held)
  | [] => rfl
  | (_, part) :: rest => by
    rw [branchSubscriptions, branchStatements, List.flatMap_append, subscriptions_eq part, branchSubscriptions_eq rest]
termination_by structural branches => branches
end

theorem statements_eq (memory : Memory) :
    memory.statements = memory.state.statement?.toList ++ branchStatements memory.branches := by
  cases memory
  rfl

theorem branchStatements_eq (branches : List (Branch × Memory)) :
    branchStatements branches = branches.flatMap (·.2.statements) := by
  induction branches with
  | nil => rfl
  | cons entry rest ih => rw [branchStatements, ih, List.flatMap_cons]

/-- A part stands in the place of the one on its branch. -/
theorem statements_setChild (memory : Memory) (branch : Branch) : ∃ others,
    memory.statements.Perm (others ++ (memory.child branch).statements) ∧
      ∀ part, (memory.setChild branch part).statements.Perm (others ++ part.statements) := by
  have entries (entries : List (Branch × Memory)) : ∃ others,
      (branchStatements entries).Perm (others ++ ((entries.lookup branch).getD .empty).statements) ∧
        ∀ part, (branchStatements (setEntry branch part entries)).Perm (others ++ part.statements) := by
    induction entries with
    | nil => exact ⟨[], .refl _, fun part => by simp [setEntry, branchStatements]⟩
    | cons entry rest ih =>
      obtain ⟨other, old⟩ := entry
      by_cases same : branch = other
      · subst same
        refine ⟨branchStatements rest, ?_, fun part => ?_⟩
        · simpa [branchStatements] using List.perm_append_comm
        · simpa [branchStatements, setEntry] using List.perm_append_comm
      · obtain ⟨others, found, put⟩ := ih
        refine ⟨old.statements ++ others, ?_, fun part => ?_⟩
        · have absent : (branch == other) = false := by simpa using same
          rw [List.lookup_cons, absent, branchStatements, List.append_assoc]
          exact found.append_left _
        · rw [setEntry, if_neg (Ne.symm same), branchStatements, List.append_assoc]
          exact (put part).append_left _
  obtain ⟨others, found, put⟩ := entries memory.branches
  refine ⟨memory.state.statement?.toList ++ others, ?_, fun part => ?_⟩
  · rw [statements_eq, List.append_assoc]
    exact found.append_left _
  · rw [setChild, statements, List.append_assoc]
    exact (put part).append_left _

/-- No branch is kept twice, at any node. -/
inductive Apart : Memory → Prop
  | apart {memory : Memory} (keys : (memory.branches.map (·.1)).Nodup)
    (parts : ∀ entry ∈ memory.branches, Apart entry.2) : Apart memory

theorem apart_empty : Apart .empty := .apart .nil nofun

section Apart

variable {memory : Memory} (apart : memory.Apart)
include apart

theorem Apart.keys : (memory.branches.map (·.1)).Nodup := by
  cases apart with
  | apart keys parts => exact keys

theorem Apart.parts : ∀ entry ∈ memory.branches, entry.2.Apart := by
  cases apart with
  | apart keys parts => exact parts

theorem Apart.withState (state : NodeState) : (memory.withState state).Apart := .apart apart.keys apart.parts

theorem Apart.child (branch : Branch) : (memory.child branch).Apart := by
  rw [Memory.child]
  cases found : memory.branches.lookup branch with
  | none => exact apart_empty
  | some part =>
    obtain ⟨early, late, branches, -⟩ := List.lookup_eq_some_iff.mp found
    exact apart.parts (branch, part) (branches ▸ List.mem_append_right _ (List.mem_cons_self ..))

theorem Apart.setChild (branch : Branch) {part : Memory} (own : part.Apart) : (memory.setChild branch part).Apart := by
  have keys : (setEntry branch part memory.branches).map (·.1) =
      if branch ∈ memory.branches.map (·.1) then memory.branches.map (·.1)
      else memory.branches.map (·.1) ++ [branch] := by
    induction memory.branches with
    | nil => rfl
    | cons entry rest ih => grind [setEntry]
  have parts : ∀ entry ∈ setEntry branch part memory.branches, entry = (branch, part) ∨ entry ∈ memory.branches := by
    induction memory.branches with
    | nil => simp [setEntry]
    | cons entry rest ih => grind [setEntry]
  refine .apart ?_ fun entry member => ?_
  · change ((setEntry branch part memory.branches).map (·.1)).Nodup
    rw [keys]
    split
    · exact apart.keys
    · next absent => exact List.nodup_append_comm.mp (List.nodup_cons.mpr ⟨absent, apart.keys⟩)
  · rcases parts entry member with rfl | old
    · exact own
    · exact apart.parts entry old

end Apart

/-- Branches that are all that something is remembered on tell the statements on them. -/
theorem branchStatements_perm {entries : List (Branch × Memory)} (apart : (entries.map (·.1)).Nodup)
    {branches : List Branch} (unlike : branches.Nodup)
    (others : ∀ branch, branch ∉ branches → (entries.lookup branch).getD .empty = .empty) :
    (branchStatements entries).Perm (branches.flatMap fun branch =>
      ((entries.lookup branch).getD .empty).statements) := by
  induction entries generalizing branches with
  | nil => simp [branchStatements, statements, empty, NodeState.statement?]
  | cons entry rest ih =>
    obtain ⟨branch, part⟩ := entry
    obtain ⟨absent, later⟩ := List.nodup_cons.mp apart
    have here : ((branch, part) :: rest).lookup branch = some part := by simp
    have skip {other : Branch} (unlike : other ≠ branch) :
        ((branch, part) :: rest).lookup other = rest.lookup other := by
      rw [List.lookup_cons, beq_false_of_ne unlike]
    have elsewhere (other : Branch) (unlisted : other = branch ∨ other ∉ branches) :
        (rest.lookup other).getD .empty = .empty := by
      by_cases same : other = branch
      · have gone : rest.lookup other = none := List.lookup_eq_none_iff.mpr fun entry member => by
          have unlike : other ≠ entry.1 := fun found => absent (List.mem_map.mpr ⟨entry, member, found.symm.trans same⟩)
          simpa using unlike
        rw [gone]
        rfl
      · rw [← skip same]
        exact others other (unlisted.resolve_left same)
    rw [branchStatements]
    by_cases listed : branch ∈ branches
    · have tail := ih later (unlike.erase branch) fun other unlisted => elsewhere other (by
        rw [unlike.mem_erase_iff] at unlisted
        tauto)
      have split := (List.perm_cons_erase listed).flatMap_right fun branch' =>
        ((((branch, part) :: rest).lookup branch').getD .empty).statements
      rw [List.flatMap_cons, here] at split
      refine ((tail.append_left _).trans (.of_eq ?_)).trans split.symm
      refine congrArg (part.statements ++ ·) (List.flatMap_congr fun other member => ?_)
      rw [skip (unlike.mem_erase_iff.mp member).1]
    · obtain rfl : part = .empty := by simpa [here] using others branch listed
      refine (ih later unlike fun other unlisted => elsewhere other (.inr unlisted)).trans (.of_eq ?_)
      refine List.flatMap_congr fun other member => ?_
      rw [skip fun same => listed (same ▸ member)]

end Memory

end RecordQuery
