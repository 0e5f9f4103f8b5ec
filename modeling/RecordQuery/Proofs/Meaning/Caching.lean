import RecordQuery.Proofs.Meaning.Readiness
/-! What is kept of earlier evaluations shows in no later one: an expression that has been prepared and then evaluated
any number of times, in whatever contexts, does what it would do with nothing kept. -/

namespace RecordQuery

namespace Meaning

/-- What can be remembered by an expression that has been prepared in a setting and then evaluated in any contexts, with
any changes to everything else between the evaluations. -/
inductive History (meaning : Meaning) (setting : Setting) : Memory → Prop where
  | prepared {start after : World} (ran : meaning.prepare setting start = .ok () after) :
    History meaning setting after.memory
  | evaluated {world : World} (before : History meaning setting world.memory) (frame : Frame) :
    History meaning setting ((meaning.evaluate setting.environment frame).after world).memory

/-- What can be remembered by an expression that has been evaluated any number of times, about such frames, since it
remembered this. -/
inductive Since (meaning : Meaning) (environment : Environment) (about : Frame → Prop) (base : Memory) :
    Memory → Prop where
  | same : Since meaning environment about base base
  | evaluated {world : World} (before : Since meaning environment about base world.memory) {frame : Frame}
    (inside : about frame) :
    Since meaning environment about base ((meaning.evaluate environment frame).after world).memory

variable {meaning : Meaning} {setting : Setting} {memory : Memory}

theorem Since.keeps {environment : Environment} {about : Frame → Prop} {valid : Memory → Prop} {base : Memory}
    (since : meaning.Since environment about base memory)
    (stays : ∀ frame, about frame → EvalM.Keeps (World.Stays valid) (meaning.evaluate environment frame))
    (holds : valid base) : valid memory := by
  induction since with
  | same => exact holds
  | evaluated before inside ih => exact stays _ inside _ ih

/-- Whatever its history, a ready expression is dependable on what it remembers. -/
theorem History.ready {trait : Trait} (history : meaning.History setting memory) (stays : trait.Stays)
    (readies : meaning.Readies trait setting.environment) (reads : ∀ memory, meaning.ReadsAllowed trait memory) :
    meaning.Ready trait setting.environment memory := by
  induction history with
  | prepared ran => exact readies rfl ran (reads _)
  | evaluated before frame ih =>
    obtain ⟨valid, holds, forget, dependable⟩ := ih
    exact ⟨valid, stays dependable.shows frame _ holds, forget, dependable⟩

end Meaning

/-- Whatever has been evaluated before, a plain expression has the same outcome as with nothing kept of it, and leaves
the same variables. -/
theorem evaluate_forget {expression : Expr} {setting : Setting} {world : World} (plain : expression.isPlain = true)
    (own : ∀ handler ∈ setting.environment.functions.own, handler.Lawful View.everything.trait)
    (standard : setting.environment.functions.standard = FunctionRegistry.default.standard)
    (history : expression.meaning.History setting world.memory) (frame : Frame) :
    EvalM.Alike View.everything.Alike (expression.meaning.evaluate setting.environment frame world)
      (expression.meaning.evaluate setting.environment frame { world with memory := world.memory.forget }) := by
  have lawful := Environment.lawful_of_own own standard
  have fits := Vocabulary.plain_fits View.everything
  obtain ⟨valid, holds, forget, dependable⟩ := history.ready Trait.everything_stays
    (expression.meaning_readies fits lawful plain) (expression.reads_of_over fits plain)
  have twins := dependable.shows frame trivial world { world with memory := world.memory.forget }
    ⟨rfl, holds, forget _ holds⟩
  unfold EvalM.Alike at twins ⊢
  split at twins
  · exact ⟨twins.1, twins.2.1⟩
  · exact ⟨twins.1, twins.2.1⟩
  · exact twins

/-- A function that answers with its argument. -/
def echo : Handler where
  id := "echo"
  functions := [⟨"echo", [.any], .any, false⟩]
  call _ arguments _ := pure (Argument.valueAt arguments 0)

theorem echo_lawful (trait : Trait) : echo.Lawful trait where
  shows _ _ valid _ _ := (trait.conduct valid).pure _
  steady _ _ _ valid _ _ := (Conduct.steady valid).pure _

/-- A call that has been evaluated once, and kept its result. -/
theorem evaluate_forget_of_echo :
    let expression : Expr := .call "echo" [.constant (.int32 1)]
    let setting : Setting := ⟨.any, ⟨.empty, FunctionRegistry.default.register echo⟩, ⟨0, none⟩⟩
    let frame : Frame := ⟨none, [], none, none, ⟨0, none⟩, ""⟩
    let prepared := (expression.meaning.prepare setting).after .start
    let world := (expression.meaning.evaluate setting.environment frame).after prepared
    expression.isPlain = true ∧ (∀ handler ∈ setting.environment.functions.own, handler.Lawful View.everything.trait) ∧
      setting.environment.functions.standard = FunctionRegistry.default.standard ∧
      expression.meaning.History setting world.memory ∧
      EvalM.Alike View.everything.Alike (expression.meaning.evaluate setting.environment frame world)
        (expression.meaning.evaluate setting.environment frame { world with memory := world.memory.forget }) := by
  intro expression setting frame prepared world
  have plain : expression.isPlain = true := by decide +kernel
  have own : ∀ handler ∈ setting.environment.functions.own, handler.Lawful View.everything.trait :=
    List.forall_mem_singleton.mpr (echo_lawful _)
  obtain ⟨_, ran⟩ := EvalM.exists_ok (expression.meaning.prepare setting) .start (by decide +kernel)
  have history : expression.meaning.History setting world.memory := .evaluated (.prepared ran) frame
  exact ⟨plain, own, rfl, history, evaluate_forget plain own rfl history frame⟩

/-- A function that sets a save value, and answers with it. -/
def note : Handler where
  id := "note"
  functions := [⟨"note", [.any, .any], .any, false⟩]
  call _ arguments frame := do
    EvalM.changeHeap (·.set frame.scope .save (Argument.valueAt arguments 0).text (Argument.valueAt arguments 1))
    return Argument.valueAt arguments 1

/-- The answer of a computation, whatever else it does. -/
def EvalM.answer {α : Type} (action : EvalM α) (world : World) : Except Error α :=
  match action world with
  | .ok value _ => .ok value
  | .error error _ => .error error

/-- The functions that do not depend on their context answer with what depends on their arguments only. -/
def Handler.Answers (handler : Handler) : Prop :=
  ∀ index definition, handler.functions[index]? = some definition → definition.contextDependent = false →
    ∀ arguments, ∃ result, ∀ frame world, (handler.call index arguments frame).answer world = result

/-- An answer alone is not enough: a call that sets a save value sets it no more once its answer is kept. -/
theorem evaluate_forget_differs_of_note :
    ∃ (expression : Expr) (setting : Setting) (world : World) (frame : Frame), expression.isPlain = true ∧
      (∀ handler ∈ setting.environment.functions.own, handler.Answers) ∧
      setting.environment.functions.standard = FunctionRegistry.default.standard ∧
      expression.meaning.History setting world.memory ∧
      (((expression.meaning.evaluate setting.environment frame).after world).heap.saveValue? frame.scope "n").isSome ≠
        (((expression.meaning.evaluate setting.environment frame).after
          { world with memory := world.memory.forget }).heap.saveValue? frame.scope "n").isSome := by
  let expression : Expr := .call "note" [.constant (.string "n"), .constant (.int32 1)]
  let setting : Setting := ⟨.any, ⟨.empty, FunctionRegistry.default.register note⟩, ⟨0, none⟩⟩
  let frame : Frame := ⟨none, [], none, none, ⟨0, none⟩, ""⟩
  let opened : World := { World.start with heap := Heap.empty.newScope.2 }
  let prepared := (expression.meaning.prepare setting).after opened
  let once := (expression.meaning.evaluate setting.environment frame).after prepared
  have answers : ∀ handler ∈ setting.environment.functions.own, handler.Answers :=
    List.forall_mem_singleton.mpr fun _ _ _ _ arguments => ⟨.ok (Argument.valueAt arguments 1), fun _ _ => rfl⟩
  obtain ⟨_, ran⟩ := EvalM.exists_ok (expression.meaning.prepare setting) opened (by decide +kernel)
  -- The save value is taken away again; what the call has kept stays.
  refine ⟨expression, setting, { prepared with memory := once.memory }, frame, by decide +kernel, answers, rfl,
    .evaluated (.prepared ran) frame, ?_⟩
  decide +kernel

end RecordQuery
