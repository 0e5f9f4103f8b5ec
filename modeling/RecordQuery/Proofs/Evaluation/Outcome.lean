import Mathlib.Order.Defs.Unbundled
import RecordQuery.Evaluation.World
/-! What computations leave behind. A computation keeps a relation of worlds if, whatever its outcome, the world before
it is related to the world after it; parts that keep a preorder make wholes that keep it. -/

/-- A sequence succeeds when its first part does and what follows does on that result. -/
theorem Except.bind_eq_ok {ε α β : Type} {first : Except ε α} {next : α → Except ε β} {result : β}
    (success : (first >>= next) = .ok result) : ∃ value, first = .ok value ∧ next value = .ok result := by
  cases first with
  | error error => cases success
  | ok value => exact ⟨value, rfl, success⟩

namespace RecordQuery.EvalM

variable {α β : Type}

/-- The world that a computation leaves, whether it succeeds or fails. -/
def after (action : EvalM α) (world : World) : World :=
  match action world with
  | .ok _ left | .error _ left => left

theorem after_of_ok {action : EvalM α} {world left : World} {value : α} (ran : action world = .ok value left) :
    action.after world = left := by
  rw [after, ran]

theorem after_of_error {action : EvalM α} {world left : World} {error : Error}
    (ran : action world = .error error left) : action.after world = left := by
  rw [after, ran]

/-- After a success the next computation starts where it ended. -/
theorem bind_of_ok {first : EvalM α} {next : α → EvalM β} {world left : World} {value : α}
    (ran : first world = .ok value left) : (first >>= next) world = next value left := by
  simp only [Bind.bind, EStateM.bind, ran]

theorem bind_of_error {first : EvalM α} {next : α → EvalM β} {world left : World} {error : Error}
    (ran : first world = .error error left) : (first >>= next) world = .error error left := by
  simp only [Bind.bind, EStateM.bind, ran]

/-- What is checked of a value holds of the value that a computation answers with. -/
theorem exists_ok_of (check : α → Bool) (action : EvalM α) (world : World)
    (checked : (match action world with | .ok value _ => check value | .error .. => false) = true) :
    ∃ value left, action world = .ok value left ∧ check value = true := by
  cases ran : action world with
  | ok value left => exact ⟨value, left, rfl, by rwa [ran] at checked⟩
  | error error left => simp [ran] at checked

theorem exists_ok (action : EvalM α) (world : World)
    (succeeds : (match action world with | .ok .. => true | .error .. => false) = true) :
    ∃ value, action world = .ok value (action.after world) := by
  unfold after
  cases ran : action world with
  | ok value left => exact ⟨value, rfl⟩
  | error error left => simp [ran] at succeeds

theorem exists_error (action : EvalM α) (world : World)
    (fails : (match action world with | .ok .. => false | .error .. => true) = true) :
    ∃ error, action world = .error error (action.after world) := by
  unfold after
  cases ran : action world with
  | ok value left => simp [ran] at fails
  | error error left => exact ⟨error, rfl⟩

theorem inside_of_ok {action : EvalM α} {world left : World} {value : α} (place : String)
    (ran : action world = .ok value left) : action.inside place world = .ok value left := by
  rw [inside, ran]

theorem ok_of_inside {action : EvalM α} {world left : World} {value : α} {place : String}
    (ran : action.inside place world = .ok value left) : action world = .ok value left := by
  unfold inside at ran
  split at ran
  · next began => rw [began, ran]
  · cases ran

/-- A failure is told with its place. -/
theorem inside_of_error {action : EvalM α} {world left : World} {error : Error} (place : String)
    (ran : action world = .error error left) : action.inside place world = .error (.within place error) left := by
  rw [inside, ran]

theorem on_ok {action : EvalM α} {branch : Branch} {world after : World} {value : α}
    (ran : action.on branch world = .ok value after) :
    ∃ left, action (world.down branch) = .ok value left ∧
      after = { left with memory := world.memory.setChild branch left.memory } := by
  unfold on at ran
  split at ran
  · next left found =>
    cases ran
    exact ⟨left, found, rfl⟩
  · cases ran

theorem on_of_ok {action : EvalM α} {branch : Branch} {world left : World} {value : α}
    (ran : action (world.down branch) = .ok value left) :
    action.on branch world = .ok value { left with memory := world.memory.setChild branch left.memory } := by
  rw [on, ran]

/-- A computation that succeeds did each of its steps. -/
theorem ok_of_bind {first : EvalM α} {next : α → EvalM β} {world after : World} {value : β}
    (ran : (first >>= next) world = .ok value after) :
    ∃ middle left, first world = .ok middle left ∧ next middle left = .ok value after := by
  simp only [Bind.bind, EStateM.bind] at ran
  split at ran
  · next middle left found => exact ⟨middle, left, found, ran⟩
  · cases ran

theorem ofExcept_ok_bind (value : α) (next : α → EvalM β) : (ofExcept (.ok value) >>= next) = next value := rfl

theorem ofExcept_error_bind (error : Error) (next : α → EvalM β) :
    (ofExcept (.error error) >>= next) = throw error := rfl

/-- A computation that succeeds had the outcome that it goes on from. -/
theorem ok_of_ofExcept_bind {outcome : Except Error α} {next : α → EvalM β} {world after : World} {value : β}
    (ran : (ofExcept outcome >>= next) world = .ok value after) :
    ∃ found, outcome = .ok found ∧ next found world = .ok value after := by
  cases outcome with
  | error error => cases ran
  | ok found => exact ⟨found, rfl, ran⟩

theorem ok_of_inside_ofExcept {outcome : Except Error α} {place : String} {world after : World} {value : α}
    (ran : (ofExcept outcome).inside place world = .ok value after) : outcome = .ok value := by
  cases outcome <;> cases ran
  rfl

theorem get_bind (next : World → EvalM β) (world : World) : (get >>= next) world = next world world := rfl

theorem node_bind (next : NodeState → EvalM β) (world : World) :
    (node >>= next) world = next world.memory.state world := rfl

theorem readHeap_bind (read : Heap → α) (next : α → EvalM β) (world : World) :
    (readHeap read >>= next) world = next (read world.heap) world := rfl

theorem changeHeap_bind (change : Heap → Heap) (next : Unit → EvalM β) (world : World) :
    (changeHeap change >>= next) world = next () { world with heap := change world.heap } := rfl

/-- A computation from a world returns a value and leaves a world as told, or it fails and leaves a world as told. -/
def Ends (action : EvalM α) (world : World) (returns : α → World → Prop) (fails : World → Prop) : Prop :=
  match action world with
  | .ok value left => returns value left
  | .error _ left => fails left

section Ends

variable {world : World} {returns : α → World → Prop} {fails : World → Prop}

theorem Ends.mono {action : EvalM α} {returns' : α → World → Prop} {fails' : World → Prop}
    (ends : Ends action world returns fails) (returned : ∀ value left, returns value left → returns' value left)
    (failed : ∀ left, fails left → fails' left) : Ends action world returns' fails' := by
  unfold Ends at ends ⊢
  split at ends
  · exact returned _ _ ends
  · exact failed _ ends

theorem Ends.bind {first : EvalM α} {next : α → EvalM β} {returns' : β → World → Prop}
    (head : Ends first world returns fails)
    (rest : ∀ value left, returns value left → Ends (next value) left returns' fails) :
    Ends (first >>= next) world returns' fails := by
  unfold Ends at head
  cases ran : first world with
  | error error left =>
    rw [ran] at head
    rw [Ends, bind_of_error ran]
    exact head
  | ok value left =>
    rw [ran] at head
    rw [Ends, bind_of_ok ran]
    exact rest value left head

/-- However a failure is told, it leaves what it left. -/
theorem Ends.inside {action : EvalM α} (ends : Ends action world returns fails) (place : String) :
    Ends (action.inside place) world returns fails := by
  unfold Ends at ends ⊢
  cases ran : action world with
  | ok value left =>
    rw [ran] at ends
    rw [inside_of_ok place ran]
    exact ends
  | error error left =>
    rw [ran] at ends
    rw [inside_of_error place ran]
    exact ends

theorem Ends.after {action : EvalM α} (ends : Ends action world (fun _ left => fails left) fails) :
    fails (action.after world) := by
  unfold Ends at ends
  unfold EvalM.after
  split at ends <;> simp_all

/-- What holds of the world that a computation leaves holds however it ends. -/
theorem ends_of_after {action : EvalM α} (holds : fails (action.after world)) :
    Ends action world (fun _ left => fails left) fails := by
  unfold Ends
  cases ran : action world with
  | ok value left => exact after_of_ok ran ▸ holds
  | error error left => exact after_of_error ran ▸ holds

end Ends

/-- Whatever its outcome, a computation leaves a world that is related to the one before. -/
def Keeps (related : World → World → Prop) (action : EvalM α) : Prop := ∀ world, related world (action.after world)

/-- The results of a computation, where it succeeds, have a property. -/
def Returns (property : α → Prop) (action : EvalM α) : Prop :=
  ∀ world value left, action world = .ok value left → property value

theorem returns_pure {property : α → Prop} {value : α} (holds : property value) : Returns property (pure value) := by
  intro world found left ran
  cases ran
  exact holds

theorem returns_ofExcept {property : α → Prop} {result : Except Error α}
    (holds : ∀ value, result = .ok value → property value) : Returns property (ofExcept result) := by
  intro world found left ran
  cases result <;> cases ran
  exact holds _ rfl

theorem returns_throw {property : α → Prop} (error : Error) : Returns property (throw error : EvalM α) := by
  intro world found left ran
  cases ran

theorem Returns.bind {property : β → Prop} {middle : α → Prop} {first : EvalM α} {next : α → EvalM β}
    (head : Returns middle first) (rest : ∀ value, middle value → Returns property (next value)) :
    Returns property (first >>= next) := by
  intro world value left ran
  simp only [Bind.bind, EStateM.bind] at ran
  cases began : first world with
  | error error left' =>
    rw [began] at ran
    cases ran
  | ok value' left' =>
    rw [began] at ran
    exact rest value' (head world value' left' began) left' value left ran

theorem Returns.inside {property : α → Prop} {action : EvalM α} (returns : Returns property action) (place : String) :
    Returns property (action.inside place) := by
  intro world value left ran
  unfold EvalM.inside at ran
  split at ran
  · rename_i found
    cases ran
    exact returns world value left found
  · cases ran

/-- What follows a computation only matters on what that can return. -/
theorem Returns.bind_congr {property : α → Prop} {first : EvalM α} {next other : α → EvalM β}
    (head : Returns property first) (same : ∀ value, property value → next value = other value) :
    first >>= next = first >>= other := by
  funext world
  simp only [Bind.bind, EStateM.bind]
  cases ran : first world with
  | error error left => rfl
  | ok value left => exact congrFun (same value (head world value left ran)) left

theorem returns_true (action : EvalM α) : Returns (fun _ => True) action := fun _ _ _ _ => trivial

variable {related : World → World → Prop}

theorem Keeps.inside {action : EvalM α} (keeps : Keeps related action) (place : String) :
    Keeps related (action.inside place) := by
  intro world
  have left := keeps world
  unfold after at left ⊢
  unfold EvalM.inside
  cases ran : action world <;> rw [ran] at left <;> exact left

/-- What a part does to the world at its branch tells what the whole does to its own. -/
theorem Keeps.on {above : World → World → Prop} {action : EvalM α} (keeps : Keeps related action) {branch : Branch}
    (part : ∀ {world left : World}, related (world.down branch) left →
      above world { left with memory := world.memory.setChild branch left.memory }) :
    Keeps above (action.on branch) := by
  intro world
  have left := keeps (world.down branch)
  unfold after at left ⊢
  unfold EvalM.on
  cases ran : action (world.down branch) <;> rw [ran] at left <;> exact part left

/-- A computation that reads what the node at hand remembers, and what it does with that. -/
theorem keeps_node_bind {next : NodeState → EvalM β}
    (rest : ∀ world, related world ((next world.memory.state).after world)) : Keeps related (node >>= next) :=
  rest

theorem keeps_changeHeap {change : Heap → Heap}
    (changed : ∀ world, related world { world with heap := change world.heap }) : Keeps related (changeHeap change) :=
  changed

theorem keeps_onHeap {change : Heap → α × Heap}
    (changed : ∀ world, related world { world with heap := (change world.heap).2 }) : Keeps related (onHeap change) :=
  changed

theorem Keeps.ends {action : EvalM α} {world : World} {returns : α → World → Prop} {fails : World → Prop}
    (keeps : Keeps related action) (ends : Ends action world returns fails) :
    Ends action world (fun value left => returns value left ∧ related world left)
      (fun left => fails left ∧ related world left) := by
  have kept := keeps world
  unfold Ends at ends ⊢
  cases ran : action world with
  | error error left =>
    rw [ran] at ends
    exact ⟨ends, after_of_error ran ▸ kept⟩
  | ok value left =>
    rw [ran] at ends
    exact ⟨ends, after_of_ok ran ▸ kept⟩

variable [IsPreorder World related]

theorem keeps_pure (value : α) : Keeps related (pure value) := fun world => refl world

theorem keeps_throw (error : Error) : Keeps related (throw error : EvalM α) := fun world => refl world

theorem Keeps.bindReturned {property : α → Prop} {first : EvalM α} {next : α → EvalM β}
    (head : Keeps related first) (returned : Returns property first)
    (rest : ∀ value, property value → Keeps related (next value)) : Keeps related (first >>= next) := by
  intro world
  have start := head world
  unfold after at start ⊢
  simp only [Bind.bind, EStateM.bind]
  cases ran : first world with
  | error error left =>
    rw [ran] at start
    exact start
  | ok value left =>
    rw [ran] at start
    exact IsTrans.trans _ _ _ start (rest value (returned world value left ran) left)

theorem Keeps.bind {first : EvalM α} {next : α → EvalM β} (head : Keeps related first)
    (rest : ∀ value, Keeps related (next value)) : Keeps related (first >>= next) :=
  head.bindReturned (returns_true first) fun value _ => rest value

theorem Keeps.map {action : EvalM α} (keeps : Keeps related action) (f : α → β) : Keeps related (f <$> action) := by
  rw [map_eq_pure_bind]
  exact keeps.bind fun value => keeps_pure (f value)

theorem keeps_ofExcept (result : Except Error α) : Keeps related (ofExcept result) := by
  cases result with
  | ok value => exact keeps_pure value
  | error error => exact keeps_throw error

/-- What follows a computation without effects is run on its result only. -/
theorem keeps_ofExcept_bind {result : Except Error α} {next : α → EvalM β}
    (rest : ∀ value, result = .ok value → Keeps related (next value)) : Keeps related (ofExcept result >>= next) := by
  cases result with
  | error error => exact fun world => refl world
  | ok value => exact rest value rfl

/-- What happens between is related to what was before: the world at the end is if the world at the start is. -/
def Since (related : World → World → Prop) (begun world left : World) : Prop := related begun world → related begun left

instance (begun : World) : IsPreorder World (Since related begun) where
  refl _ later := later
  trans _ _ _ first second later := second (first later)

theorem Keeps.since {action : EvalM α} (keeps : Keeps related action) (begun : World) :
    Keeps (Since related begun) action :=
  fun world later => IsTrans.trans _ _ _ later (keeps world)

/-- A computation that reads the heap, and what it does with that from there on. -/
theorem keeps_readHeap_bind {read : Heap → α} {next : α → EvalM β}
    (rest : ∀ begun : World, Keeps (Since related begun) (next (read begun.heap))) :
    Keeps related (readHeap read >>= next) := by
  intro world
  unfold after
  rw [readHeap_bind]
  exact rest world world (refl world)

theorem keeps_get : Keeps related (get : EvalM World) := fun world => refl world

theorem keeps_node : Keeps related node := keeps_get.bind fun world => keeps_pure world.memory.state

theorem keeps_readHeap (read : Heap → α) : Keeps related (readHeap read) :=
  keeps_get.bind fun world => keeps_pure (read world.heap)

theorem keeps_forM {items : List β} {action : β → EvalM Unit} (each : ∀ item ∈ items, Keeps related (action item)) :
    Keeps related (items.forM action) := by
  induction items with
  | nil => exact keeps_pure ()
  | cons item rest ih =>
    rw [List.forM_eq_forM, List.forM_cons]
    exact (each item (List.mem_cons_self ..)).bind fun _ => ih fun other member =>
      each other (List.mem_cons_of_mem _ member)

end RecordQuery.EvalM
