import RecordQuery.Proofs.Evaluation.Conduct
import RecordQuery.Proofs.Variables.Scope
/-! Worlds that look alike to an evaluation, and what is valid to be remembered at a node and below it. -/

namespace RecordQuery

namespace Memory

/-- The node remembers what is valid for it, and each branch what is valid there. -/
def Within (own : NodeState → Prop) (below : Branch → Memory → Prop) (memory : Memory) : Prop :=
  own memory.state ∧ ∀ branch, below branch (memory.child branch)

variable {own : NodeState → Prop} {below : Branch → Memory → Prop} {memory : Memory}

theorem Within.withState (within : memory.Within own below) {state : NodeState} (holds : own state) :
    (memory.withState state).Within own below :=
  ⟨holds, within.2⟩

theorem Within.setChild (within : memory.Within own below) {branch : Branch} {part : Memory}
    (holds : below branch part) : (memory.setChild branch part).Within own below := by
  refine ⟨within.1, fun asked => ?_⟩
  rw [child_setChild]
  split
  · next same => rwa [same]
  · exact within.2 asked

end Memory

/-- What is remembered stays valid. -/
def World.Stays (valid : Memory → Prop) (before after : World) : Prop := valid before.memory → valid after.memory

instance (valid : Memory → Prop) : IsPreorder World (World.Stays valid) where
  refl _ holds := holds
  trans _ _ _ first second holds := second (first holds)

theorem EvalM.memory_after_on {α : Type} (action : EvalM α) (branch : Branch) (world : World) :
    ((action.on branch).after world).memory =
      world.memory.setChild branch (action.after (world.down branch)).memory := by
  unfold EvalM.on EvalM.after
  cases ran : action (world.down branch) <;> simp only [ran]

/-- What is valid at a node stays so if it does when a part on a branch is replaced by another valid one. -/
theorem EvalM.Keeps.on_stays {α : Type} {action : EvalM α} {branch : Branch} {valid whole : Memory → Prop}
    (keeps : Keeps (World.Stays valid) action) (down : ∀ memory, whole memory → valid (memory.child branch))
    (up : ∀ memory part, whole memory → valid part → whole (memory.setChild branch part)) :
    Keeps (World.Stays whole) (action.on branch) := by
  intro world holds
  rw [memory_after_on]
  exact up _ _ holds (keeps (world.down branch) (down _ holds))

/-- What an evaluation about some scopes sees of worlds, besides what is remembered: at least the variables of those
scopes. Worlds that look alike go on looking alike when a save value is set. -/
structure View where
  scopes : Scope → Prop
  Alike : World → World → Prop
  remembered {world world' : World} (alike : Alike world world') (memory memory' : Memory) :
    Alike { world with memory := memory } { world' with memory := memory' }
  bindValue {world world' : World} (alike : Alike world world') {scope : Scope} (inside : scopes scope)
    (name : String) : world.heap.bindValue scope name = world'.heap.bindValue scope name
  saveValue {world world' : World} (alike : Alike world world') {scope : Scope} (inside : scopes scope)
    (name : String) : world.heap.saveValue? scope name = world'.heap.saveValue? scope name
  saved {world world' : World} (alike : Alike world world') {scope : Scope} (inside : scopes scope)
    (name : String) (value : Value) :
    Alike { world with heap := world.heap.set scope .save name value }
      { world' with heap := world'.heap.set scope .save name value }

namespace View

/-- Sees everything besides what is remembered. -/
def everything : View where
  scopes _ := True
  Alike world world' := world' = { world with memory := world'.memory }
  remembered := by
    rintro world world' alike memory memory'
    rw [alike]
  bindValue := by
    rintro world world' alike scope - name
    rw [alike]
  saveValue := by
    rintro world world' alike scope - name
    rw [alike]
  saved := by
    rintro world world' alike scope - name value
    rw [alike]

/-- Sees the variables of a scope, whose bind variables are these. -/
def «variables» (scope : Scope) (binds : NameTable Value) : View where
  scopes := (· = scope)
  Alike world world' :=
    world.heap.Binds scope binds ∧ world'.heap.Binds scope binds ∧ world.saves scope = world'.saves scope
  remembered alike _ _ := alike
  bindValue := by
    rintro world world' ⟨bound, bound', -⟩ _ rfl name
    rw [Heap.bindValue, Heap.bindValue, Heap.get?, Heap.get?]
    exact congrArg (fun binds : NameTable Value => (binds.get? (normalizeName name)).getD .null)
      (bound.binds.trans bound'.binds.symm)
  saveValue := by
    rintro world world' ⟨-, -, same⟩ _ rfl name
    exact congrArg (fun saves : NameTable Value => saves.get? (normalizeName name)) same
  saved := by
    rintro world world' ⟨bound, bound', same⟩ _ rfl name value
    refine ⟨bound.save name value, bound'.save name value, ?_⟩
    rw [World.saves, World.saves, bound.saves_save, bound'.saves_save]
    exact congrArg (·.insert (normalizeName name) value) same

variable (view : View)

/-- Worlds that look alike, in each of which something valid is remembered. -/
def Twins (valid : Memory → Prop) (world world' : World) : Prop :=
  view.Alike world world' ∧ valid world.memory ∧ valid world'.memory

/-- About the scopes that it sees, a computation has one outcome from worlds that look alike, and leaves such worlds;
what is remembered stays valid. -/
def agrees (valid : Memory → Prop) : Conduct := .agrees (view.Twins valid) view.scopes

end View

namespace EvalM

variable {α : Type} {view : View} {own : NodeState → Prop} {below : Branch → Memory → Prop} {branch : Branch}

/-- A part of a node agrees where the node does. -/
theorem Agrees.on {action : EvalM α} (agrees : Agrees (view.Twins (below branch)) action) :
    Agrees (view.Twins (Memory.Within own below)) (action.on branch) := by
  rintro world world' ⟨alike, holds, holds'⟩
  have ended := agrees (world.down branch) (world'.down branch)
    ⟨view.remembered alike _ _, holds.2 branch, holds'.2 branch⟩
  unfold EvalM.on
  cases ran : action (world.down branch) <;> cases ran' : action (world'.down branch) <;> rw [ran, ran'] at ended
  · obtain ⟨rfl, after, left, left'⟩ := ended
    exact ⟨rfl, view.remembered after _ _, holds.setChild left, holds'.setChild left'⟩
  · exact ended.elim
  · exact ended.elim
  · obtain ⟨rfl, after, left, left'⟩ := ended
    exact ⟨rfl, view.remembered after _ _, holds.setChild left, holds'.setChild left'⟩

theorem Constantly.on {action : EvalM α} {outcome : Except Error α}
    (constant : Constantly (below branch) outcome action) :
    Constantly (Memory.Within own below) outcome (action.on branch) := by
  intro world holds
  obtain ⟨memory, left, ran⟩ := constant (world.down branch) (holds.2 branch)
  refine ⟨world.memory.setChild branch memory, holds.setChild left, ?_⟩
  unfold EvalM.on
  rw [ran]
  cases outcome <;> rfl

/-- What is the same everywhere is the same from worlds that look alike. -/
theorem Constantly.agrees {valid : Memory → Prop} {action : EvalM α} {outcome : Except Error α}
    (constant : Constantly valid outcome action) : Agrees (view.Twins valid) action := by
  rintro world world' ⟨alike, holds, holds'⟩
  obtain ⟨memory, left, ran⟩ := constant world holds
  obtain ⟨memory', left', ran'⟩ := constant world' holds'
  rw [ran, ran']
  exact alike_ofExcept outcome ⟨view.remembered alike _ _, left, left'⟩

/-- What has one outcome everywhere does not tell worlds that look alike from each other. -/
theorem Constantly.bind_agrees {valid : Memory → Prop} {β : Type} {first : EvalM α} {next : α → EvalM β} {value : α}
    (constant : Constantly valid (.ok value) first) (rest : Agrees (view.Twins valid) (next value)) :
    Agrees (view.Twins valid) (first >>= next) := by
  rintro world world' ⟨alike, holds, holds'⟩
  obtain ⟨memory, left, ran⟩ := constant world holds
  obtain ⟨memory', left', ran'⟩ := constant world' holds'
  rw [EvalM.bind_of_ok ran, EvalM.bind_of_ok ran']
  exact rest _ _ ⟨view.remembered alike _ _, left, left'⟩

end EvalM

/-- A conduct that only asks about worlds in which something valid is remembered. -/
structure Conduct.Within (conduct : Conduct) (valid : Memory → Prop) : Prop where
  congr {α : Type} {run other : Frame → EvalM α}
    (same : ∀ frame world, valid world.memory → run frame world = other frame world) (part : conduct.Of other) :
    conduct.Of run
  constantly {α : Type} {run : Frame → EvalM α} (outcome : Except Error α)
    (constant : ∀ frame, EvalM.Constantly valid outcome (run frame)) : conduct.Of run
  /-- What follows a value that is the same everywhere. -/
  bindConstantly {α β : Type} {first : Frame → EvalM α} {next : α → Frame → EvalM β} {value : α}
    (constant : ∀ frame, EvalM.Constantly valid (.ok value) (first frame)) (rest : conduct.Of (next value)) :
    conduct.Of fun frame => first frame >>= fun value => next value frame

theorem View.agrees_within (view : View) (valid : Memory → Prop) : (view.agrees valid).Within valid where
  congr same part frame inside world world' alike := by
    rw [same frame world alike.2.1, same frame world' alike.2.2]
    exact part frame inside world world' alike
  constantly _ constant frame _ := (constant frame).agrees
  bindConstantly constant rest frame inside := (constant frame).bind_agrees (rest frame inside)

theorem Conduct.steady_within (valid : Memory → Prop) : (Conduct.steady valid).Within valid where
  congr := by
    rintro α run other same ⟨outcome, constant⟩
    refine ⟨outcome, fun frame world holds => ?_⟩
    rw [same frame world holds]
    exact constant frame world holds
  constantly outcome constant := ⟨outcome, constant⟩
  bindConstantly := by
    rintro α β first next value constant ⟨outcome, rest⟩
    exact ⟨outcome, fun frame => (constant frame).bind_of_ok (rest frame)⟩

theorem Conduct.Within.and {first second : Conduct} {valid : Memory → Prop} (own : first.Within valid)
    (other : second.Within valid) : (first.and second).Within valid where
  congr same part := ⟨own.congr same part.1, other.congr same part.2⟩
  constantly outcome constant := ⟨own.constantly outcome constant, other.constantly outcome constant⟩
  bindConstantly constant rest := ⟨own.bindConstantly constant rest.1, other.bindConstantly constant rest.2⟩

end RecordQuery
