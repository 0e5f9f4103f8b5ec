import RecordQuery.Accessor
import RecordQuery.Function.Signature
import RecordQuery.Like
import RecordQuery.Variables.Scope
/-! What the parts of a statement remember between evaluations, as a tree of the same shape as the statement. -/

namespace RecordQuery

/-- The way from an expression to one of its parts, or from a statement to one of its clauses. -/
inductive Branch where
  | left
  | right
  | subject
  | lower
  | upper
  | pattern
  | item (index : Nat)
  | argument (index : Nat)
  | setter (index : Nat)
  | source
  | column (index : Nat)
  | filter
  | having
  | groupBy (index : Nat)
  | groupOrder (index : Nat)
  | orderBy (index : Nat)
  | onAll (index : Nat)
  | onResults (index : Nat)
  | reorder (index : Nat)
deriving DecidableEq

/-- The function that a call stands for: its handler's place among the handlers, and its place in that handler. -/
structure Resolution where
  place : Nat
  handlerId : String
  index : Nat
  definition : FunctionDef
  score : Nat

/-- What is known of a statement: its variables, and the rows it was resolved for. -/
structure StatementState where
  scope : Scope
  initialized : Bool
  rowType : DataType

/-- How a nested statement stands to its enclosing one. -/
structure Nesting where
  /-- Whether it has been given the types, functions and variables of the enclosing statement. -/
  adopted : Bool
  /-- The type of rows it was last made ready for. -/
  seenType : Option DataType
  /-- Whether it has to be made ready again in any case. -/
  stale : Bool
  /-- The store it listens to, with its subscriptions there. -/
  store : StoreId
  subscriptions : List Nat

/-- What one node remembers. -/
inductive NodeState where
  | fresh
  /-- The name given to a variable, and the resolved path. -/
  | operand (name : Option String) (accessor : Option Accessor)
  | call (resolution : Resolution) (result : Option Value)
  | bounds (lower upper : Option Value)
  | patterns (compiled : List (Nat × LikePattern))
  | construction (factory : RecordFactory) (constructor : Nat)
  | statement (state : StatementState) (nesting : Nesting)

inductive Memory where
  | node (state : NodeState) (branches : List (Branch × Memory))

namespace Memory

def empty : Memory := node .fresh []

instance : Inhabited Memory := ⟨empty⟩

def state : Memory → NodeState
  | node state _ => state

def branches : Memory → List (Branch × Memory)
  | node _ branches => branches

def withState (memory : Memory) (state : NodeState) : Memory := node state memory.branches

def child (memory : Memory) (branch : Branch) : Memory := (memory.branches.lookup branch).getD empty

/-- Puts a part in place of the one on the same branch. -/
def setEntry (branch : Branch) (part : Memory) : List (Branch × Memory) → List (Branch × Memory)
  | [] => [(branch, part)]
  | (other, old) :: rest =>
    if other = branch then (branch, part) :: rest else (other, old) :: setEntry branch part rest

def setChild (memory : Memory) (branch : Branch) (part : Memory) : Memory :=
  node memory.state (setEntry branch part memory.branches)

theorem lookup_setEntry (branch asked : Branch) (part : Memory) (entries : List (Branch × Memory)) :
    (setEntry branch part entries).lookup asked = if asked = branch then some part else entries.lookup asked := by
  induction entries with
  | nil => grind [setEntry]
  | cons head rest ih =>
    obtain ⟨other, old⟩ := head
    grind [setEntry]

@[simp] theorem state_setChild (memory : Memory) (branch : Branch) (part : Memory) :
    (memory.setChild branch part).state = memory.state := rfl

theorem child_setChild (memory : Memory) (branch asked : Branch) (part : Memory) :
    (memory.setChild branch part).child asked = if asked = branch then part else memory.child asked := by
  simp only [child, setChild, branches, lookup_setEntry]
  split <;> rfl

@[simp] theorem state_withState (memory : Memory) (state : NodeState) : (memory.withState state).state = state := rfl

@[simp] theorem child_withState (memory : Memory) (state : NodeState) (branch : Branch) :
    (memory.withState state).child branch = memory.child branch := rfl

mutual
/-- The subscriptions that the nodes of a tree hold, each with its store. -/
def subscriptions : Memory → List (StoreId × Nat)
  | node state branches =>
    (match state with
      | .statement _ nesting => nesting.subscriptions.map (nesting.store, ·)
      | _ => []) ++ branchSubscriptions branches
termination_by structural memory => memory

def branchSubscriptions : List (Branch × Memory) → List (StoreId × Nat)
  | [] => []
  | (_, part) :: rest => part.subscriptions ++ branchSubscriptions rest
termination_by structural branches => branches
end

end Memory

end RecordQuery
