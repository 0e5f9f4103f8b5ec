import RecordQuery.Function.Handler
import RecordQuery.Proofs.Evaluation.Outcome
/-! Things known of computations about frames that pass from parts to wholes: that they keep a relation of worlds, that
they agree from worlds that look alike, and that their outcome is one and the same wherever they are run. -/

namespace RecordQuery

namespace EvalM

variable {α β : Type}

/-- Makes another outcome of the outcome of a computation. -/
def recast (change : Except Error α → Except Error β) (action : EvalM α) : EvalM β := fun world =>
  match action world with
  | .ok value left => ofExcept (change (.ok value)) left
  | .error error left => ofExcept (change (.error error)) left

theorem inside_eq_recast (place : String) (action : EvalM α) :
    action.inside place = action.recast (Except.mapError (.within place)) := by
  funext world
  unfold inside recast
  cases action world <;> rfl

theorem Keeps.recast {related : World → World → Prop} {action : EvalM α} (keeps : Keeps related action)
    (change : Except Error α → Except Error β) : Keeps related (action.recast change) := by
  intro world
  have left := keeps world
  unfold after at left ⊢
  unfold EvalM.recast
  cases ran : action world with
  | ok value after =>
    rw [ran] at left
    dsimp only
    cases change (.ok value) <;> exact left
  | error error after =>
    rw [ran] at left
    dsimp only
    cases change (.error error) <;> exact left

/-- Two results are alike if both are the same value or both the same failure, and the worlds left are related. -/
def Alike (related : World → World → Prop) : EStateM.Result Error World α → EStateM.Result Error World α → Prop
  | .ok value left, .ok other left' => value = other ∧ related left left'
  | .error error left, .error other left' => error = other ∧ related left left'
  | _, _ => False

/-- From related worlds a computation has one outcome, and leaves related worlds. -/
def Agrees (related : World → World → Prop) (action : EvalM α) : Prop :=
  ∀ world world', related world world' → Alike related (action world) (action world')

section Agrees

variable {related : World → World → Prop}

theorem alike_ofExcept (outcome : Except Error α) {left left' : World} (alike : related left left') :
    Alike related (ofExcept outcome left) (ofExcept outcome left') := by
  cases outcome <;> exact ⟨rfl, alike⟩

theorem Agrees.bindReturned {property : α → Prop} {first : EvalM α} {next : α → EvalM β}
    (head : Agrees related first) (returned : Returns property first)
    (rest : ∀ value, property value → Agrees related (next value)) : Agrees related (first >>= next) := by
  intro world world' alike
  have begun := head world world' alike
  simp only [Bind.bind, EStateM.bind]
  cases ran : first world <;> cases ran' : first world' <;> rw [ran, ran'] at begun
  · obtain ⟨rfl, after⟩ := begun
    exact rest _ (returned _ _ _ ran) _ _ after
  · exact begun.elim
  · exact begun.elim
  · exact begun

theorem Agrees.bind {first : EvalM α} {next : α → EvalM β} (head : Agrees related first)
    (rest : ∀ value, Agrees related (next value)) : Agrees related (first >>= next) :=
  head.bindReturned (returns_true first) fun value _ => rest value

theorem Agrees.recast {action : EvalM α} (agrees : Agrees related action)
    (change : Except Error α → Except Error β) : Agrees related (action.recast change) := by
  intro world world' alike
  have ended := agrees world world' alike
  unfold EvalM.recast
  cases ran : action world <;> cases ran' : action world' <;> rw [ran, ran'] at ended
  · obtain ⟨rfl, after⟩ := ended
    exact alike_ofExcept _ after
  · exact ended.elim
  · exact ended.elim
  · obtain ⟨rfl, after⟩ := ended
    exact alike_ofExcept _ after

end Agrees

/-- Wherever what is remembered is valid, the outcome is this one; the computation changes nothing but what is
remembered, which stays valid. -/
def Constantly (valid : Memory → Prop) (outcome : Except Error α) (action : EvalM α) : Prop :=
  ∀ world, valid world.memory → ∃ memory, valid memory ∧ action world = ofExcept outcome { world with memory }

section Constantly

variable {valid : Memory → Prop}

theorem constantly_ofExcept (outcome : Except Error α) : Constantly valid outcome (ofExcept outcome) :=
  fun world holds => ⟨world.memory, holds, rfl⟩

theorem Constantly.bind_of_ok {first : EvalM α} {next : α → EvalM β} {value : α} {outcome : Except Error β}
    (head : Constantly valid (.ok value) first) (rest : Constantly valid outcome (next value)) :
    Constantly valid outcome (first >>= next) := by
  intro world holds
  obtain ⟨between, begun, ran⟩ := head world holds
  obtain ⟨memory, ended, later⟩ := rest { world with memory := between } begun
  exact ⟨memory, ended, (EvalM.bind_of_ok ran).trans later⟩

theorem Constantly.bind_of_error {first : EvalM α} {next : α → EvalM β} {error : Error}
    (head : Constantly valid (.error error) first) : Constantly valid (.error error) (first >>= next) := by
  intro world holds
  obtain ⟨memory, ended, ran⟩ := head world holds
  exact ⟨memory, ended, EvalM.bind_of_error ran⟩

theorem Constantly.recast {action : EvalM α} {outcome : Except Error α} (constant : Constantly valid outcome action)
    (change : Except Error α → Except Error β) : Constantly valid (change outcome) (action.recast change) := by
  intro world holds
  obtain ⟨memory, ended, ran⟩ := constant world holds
  refine ⟨memory, ended, ?_⟩
  cases outcome <;> simp only [EvalM.recast, ran] <;> rfl

/-- There is one such outcome at most, if anything is valid. -/
theorem Constantly.unique {valid' : Memory → Prop} {action : EvalM α} {outcome other : Except Error α}
    {memory : Memory} (constant : Constantly valid outcome action) (again : Constantly valid' other action)
    (holds : valid memory) (holds' : valid' memory) : outcome = other := by
  obtain ⟨left, -, ran⟩ := constant { World.start with memory } holds
  obtain ⟨left', -, ran'⟩ := again { World.start with memory } holds'
  rw [ran] at ran'
  cases outcome <;> cases other <;> cases ran' <;> rfl

end Constantly

end EvalM

/-- A change of what an evaluation is about: the scope stays, and nothing else comes to depend on the set of rows, on
the key of the group or on the text of the statement. -/
structure Frame.Shifts (change : Frame → Frame) : Prop where
  scope (frame : Frame) : (change frame).scope = frame.scope
  rows (frame : Frame) (rows : List Value) : ∃ rows', change { frame with rows } = { change frame with rows := rows' }
  groupKey (frame : Frame) (groupKey : Option (List Value)) :
    ∃ groupKey', change { frame with groupKey } = { change frame with groupKey := groupKey' }
  statementText (frame : Frame) (statementText : String) :
    change { frame with statementText } = { change frame with statementText }

theorem Frame.shifts_onRow (row : Value) : Frame.Shifts (·.onRow row) where
  scope _ := rfl
  rows _ rows := ⟨rows, rfl⟩
  groupKey _ groupKey := ⟨groupKey, rfl⟩
  statementText _ _ := rfl

/-- Something known of computations about frames that holds of wholes when it holds of their parts. -/
structure Conduct where
  Of {α : Type} (run : Frame → EvalM α) : Prop
  pure {α : Type} (value : α) : Of fun _ => pure value
  throw {α : Type} (error : Error) : Of fun _ => (throw error : EvalM α)
  bindReturned {α β : Type} {property : α → Prop} {first : Frame → EvalM α} {next : α → Frame → EvalM β}
    (head : Of first) (returned : ∀ frame, EvalM.Returns property (first frame))
    (rest : ∀ value, property value → Of (next value)) : Of fun frame => first frame >>= fun value => next value frame
  recast {α β : Type} {run : Frame → EvalM α} (change : Except Error α → Except Error β) (part : Of run) :
    Of fun frame => (run frame).recast change
  about {α : Type} {run : Frame → EvalM α} {change : Frame → Frame} (shifts : Frame.Shifts change) (part : Of run) :
    Of fun frame => run (change frame)

namespace Conduct

variable (conduct : Conduct) {α β : Type} {run : Frame → EvalM α}

theorem bind {next : α → Frame → EvalM β} (head : conduct.Of run) (rest : ∀ value, conduct.Of (next value)) :
    conduct.Of fun frame => run frame >>= fun value => next value frame :=
  conduct.bindReturned head (fun frame => EvalM.returns_true (run frame)) fun value _ => rest value

theorem map (part : conduct.Of run) (f : α → β) : conduct.Of fun frame => f <$> run frame := by
  simp only [map_eq_pure_bind]
  exact conduct.bind part fun value => conduct.pure (f value)

theorem inside (part : conduct.Of run) (place : String) : conduct.Of fun frame => (run frame).inside place := by
  simp only [EvalM.inside_eq_recast]
  exact conduct.recast _ part

theorem ofExcept (outcome : Except Error α) : conduct.Of fun _ => EvalM.ofExcept outcome := by
  cases outcome with
  | ok value => exact conduct.pure value
  | error error => exact conduct.throw error

/-- What follows a computation without effects is run on its result only. -/
theorem ofExcept_bind {outcome : Except Error α} {next : α → Frame → EvalM β}
    (rest : ∀ value, outcome = .ok value → conduct.Of (next value)) :
    conduct.Of fun frame => EvalM.ofExcept outcome >>= fun value => next value frame := by
  cases outcome with
  | ok value => exact rest value rfl
  | error error => exact conduct.throw error

theorem forM {items : List α} {action : α → Frame → EvalM Unit} (each : ∀ item ∈ items, conduct.Of (action item)) :
    conduct.Of fun frame => items.forM fun item => action item frame := by
  induction items with
  | nil => exact conduct.pure ()
  | cons item rest ih =>
    simp only [List.forM_eq_forM, List.forM_cons] at ih ⊢
    exact conduct.bind (each item (List.mem_cons_self ..)) fun _ => ih fun other member =>
      each other (List.mem_cons_of_mem _ member)

theorem mapM {items : List α} {action : α → Frame → EvalM β} (each : ∀ item ∈ items, conduct.Of (action item)) :
    conduct.Of fun frame => items.mapM fun item => action item frame := by
  induction items with
  | nil => exact conduct.pure []
  | cons item rest ih =>
    simp only [List.mapM_cons] at ih ⊢
    have later := ih fun other member => each other (List.mem_cons_of_mem _ member)
    exact conduct.bind (each item (List.mem_cons_self ..)) fun _ => conduct.bind later fun _ => conduct.pure _

/-- A computation keeps a relation of worlds. -/
def keeps (related : World → World → Prop) [IsPreorder World related] : Conduct where
  Of run := ∀ frame, EvalM.Keeps related (run frame)
  pure value _ := EvalM.keeps_pure value
  throw error _ := EvalM.keeps_throw error
  bindReturned head returned rest frame :=
    (head frame).bindReturned (returned frame) fun value holds => rest value holds frame
  recast change part frame := (part frame).recast change
  about _ part _ := part _

/-- About frames of certain scopes, a computation agrees from related worlds. -/
def agrees (related : World → World → Prop) (scopes : Scope → Prop) : Conduct where
  Of run := ∀ frame : Frame, scopes frame.scope → EvalM.Agrees related (run frame)
  pure value _ _ _ _ alike := ⟨rfl, alike⟩
  throw error _ _ _ _ alike := ⟨rfl, alike⟩
  bindReturned head returned rest frame inside :=
    (head frame inside).bindReturned (returned frame) fun value holds => rest value holds frame inside
  recast change part frame inside := (part frame inside).recast change
  about shifts part frame inside := part _ (by rwa [shifts.scope])

/-- A computation has the same outcome about all frames, wherever what is remembered is valid. -/
def steady (valid : Memory → Prop) : Conduct where
  Of run := ∃ outcome, ∀ frame, EvalM.Constantly valid outcome (run frame)
  pure value := ⟨.ok value, fun _ => EvalM.constantly_ofExcept (.ok value)⟩
  throw error := ⟨.error error, fun _ => EvalM.constantly_ofExcept (.error error)⟩
  bindReturned := by
    rintro α β property first next ⟨outcome, head⟩ returned rest
    cases outcome with
    | error error => exact ⟨.error error, fun frame => (head frame).bind_of_error⟩
    | ok value =>
      by_cases holds : property value
      · obtain ⟨outcome, later⟩ := rest value holds
        exact ⟨outcome, fun frame => (head frame).bind_of_ok (later frame)⟩
      · -- A value that is never returned is the outcome only where nothing is valid.
        refine ⟨.error (noSuchFunction ""), fun frame world valid => ?_⟩
        obtain ⟨memory, -, ran⟩ := head frame world valid
        exact absurd (returned frame _ _ _ ran) holds
  recast := by
    rintro α β run change ⟨outcome, part⟩
    exact ⟨change outcome, fun frame => (part frame).recast change⟩
  about := by
    rintro α run change - ⟨outcome, part⟩
    exact ⟨outcome, fun frame => part (change frame)⟩

/-- Two conducts at once. -/
def and (first second : Conduct) : Conduct where
  Of run := first.Of run ∧ second.Of run
  pure value := ⟨first.pure value, second.pure value⟩
  throw error := ⟨first.throw error, second.throw error⟩
  bindReturned head returned rest :=
    ⟨first.bindReturned head.1 returned fun value holds => (rest value holds).1,
      second.bindReturned head.2 returned fun value holds => (rest value holds).2⟩
  recast change part := ⟨first.recast change part.1, second.recast change part.2⟩
  about shifts part := ⟨first.about shifts part.1, second.about shifts part.2⟩

end Conduct

end RecordQuery
