import RecordQuery.Evaluation.Memory
/-! Evaluation: computations that can fail, over what outlives an evaluation. A failure keeps what was changed
before it. -/

namespace RecordQuery

/-- All that outlives one evaluation. -/
structure World where
  heap : Heap
  /-- What the expression or statement at hand remembers. -/
  memory : Memory
  /-- Counters of function handlers, under their ids. -/
  counters : NameTable Nat
  /-- How often a clock has been read. -/
  readings : Nat
  /-- The accessors that functions have made of path texts, for each statement. -/
  accessors : List ((StoreId × String) × Accessor)
deriving Inhabited

def World.start : World := ⟨.empty, .empty, .empty, 0, []⟩

/-- The world as a part of the expression or statement at hand sees it. -/
def World.down (world : World) (branch : Branch) : World := { world with memory := world.memory.child branch }

abbrev EvalM := EStateM Error World

namespace EvalM

variable {α : Type}

/-- Runs a computation on the part of the memory down a branch. -/
def on (branch : Branch) (action : EvalM α) : EvalM α := fun world =>
  match action (world.down branch) with
  | .ok result after => .ok result { after with memory := world.memory.setChild branch after.memory }
  | .error error after => .error error { after with memory := world.memory.setChild branch after.memory }

/-- Names the place of a computation in its failures. -/
@[macro_inline] def inside (place : String) (action : EvalM α) : EvalM α := fun world =>
  match action world with
  | .ok result after => .ok result after
  | .error error after => .error (.within place error) after

def ofExcept : Except Error α → EvalM α
  | .ok result => pure result
  | .error error => throw error

/-- What the node at hand remembers. -/
def node : EvalM NodeState := return (← get).memory.state

def setNode (state : NodeState) : EvalM Unit :=
  modify fun world => { world with memory := world.memory.withState state }

/-- Reads from the variables. -/
def readHeap (read : Heap → α) : EvalM α := return read (← get).heap

/-- Changes the variables. -/
def changeHeap (change : Heap → Heap) : EvalM Unit :=
  modify fun world => { world with heap := change world.heap }

/-- Changes the variables with an answer. -/
def onHeap (change : Heap → α × Heap) : EvalM α := do
  let (answer, heap) := change (← get).heap
  modify fun world => { world with heap }
  return answer

end EvalM

end RecordQuery
