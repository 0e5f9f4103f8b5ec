import RecordQuery.Proofs.Function.Conduct
/-! What can be known of an expression by its text: of the variables that it reads, and of the functions that it
calls. -/

namespace RecordQuery

/-- A conduct of evaluations wherever what is remembered is valid, with the bind variables that can be read and the
functions that can be called in keeping it. Access to a path is not among the functions. -/
structure Trait where
  conduct (valid : Memory → Prop) : Conduct
  within (valid : Memory → Prop) : (conduct valid).Within valid
  on {own : NodeState → Prop} {below : Branch → Memory → Prop} {branch : Branch} {α : Type} {run : Frame → EvalM α}
    (part : (conduct (below branch)).Of run) :
    (conduct (Memory.Within own below)).Of fun frame => (run frame).on branch
  reads : String → Prop
  bindValue (valid : Memory → Prop) {name : String} (read : reads name) :
    (conduct valid).Of (Meaning.bindValue name)
  saveValue (valid : Memory → Prop) (name : String) :
    (conduct valid).Of fun frame => EvalM.readHeap (·.saveValue? frame.scope name)
  calls : String → Prop
  calls_congr {name other : String} (same : FunctionRegistry.sameName name other = true) (called : calls name) :
    calls other
  not_accessor {name : String} (called : calls name) : FunctionRegistry.sameName name "accessor" = false
  aggregates (valid : Memory → Prop) {aggregate : Aggregate} (called : calls aggregate.name) (index : Nat) :
    Aggregate.handler.Conducts (conduct valid) index

theorem View.bindValue_agrees (view : View) {valid : Memory → Prop} (name : String) :
    (view.agrees valid).Of (Meaning.bindValue name) := by
  intro frame inside world world' alike
  unfold Meaning.bindValue
  split
  case h_7 => exact ⟨view.bindValue alike.1 inside name, alike⟩
  all_goals exact ⟨rfl, alike⟩

/-- To have one outcome from all worlds that look alike: any variable can be read, and any function called. -/
def View.trait (view : View) : Trait where
  conduct := view.agrees
  within := view.agrees_within
  on part frame inside := (part frame inside).on
  reads _ := True
  bindValue _ name _ := view.bindValue_agrees name
  saveValue _ name _ inside _ _ alike := ⟨view.saveValue alike.1 inside name, alike⟩
  calls name := FunctionRegistry.sameName name "accessor" = false
  calls_congr same called := by rwa [← FunctionRegistry.sameName_congr same]
  not_accessor called := called
  aggregates valid _ _ :=
    Aggregate.handler_conducts (view.agrees_seesRows valid) (Aggregate.agrees_allowsSaving view valid)

/-- A handler conducts itself in two ways at once if it conducts itself so on arguments that do. -/
theorem Handler.Conducts.and {first second : Conduct} {handler : Handler} {index : Nat}
    (own : handler.Conducts first index) (other : handler.Conducts second index) :
    handler.Conducts (first.and second) index := by
  intro arguments parts
  refine ⟨own arguments fun argument member => ?_, other arguments fun argument member => ?_⟩
  all_goals
    have part := parts argument member
    cases argument with
    | value _ => trivial
    | expression _ _ => first | exact part.1 | exact part.2

namespace Trait

/-- Two traits at once. -/
def and (first second : Trait) : Trait where
  conduct valid := (first.conduct valid).and (second.conduct valid)
  within valid := (first.within valid).and (second.within valid)
  on part := ⟨first.on part.1, second.on part.2⟩
  reads name := first.reads name ∧ second.reads name
  bindValue valid _ read := ⟨first.bindValue valid read.1, second.bindValue valid read.2⟩
  saveValue valid name := ⟨first.saveValue valid name, second.saveValue valid name⟩
  calls name := first.calls name ∧ second.calls name
  calls_congr same called := ⟨first.calls_congr same called.1, second.calls_congr same called.2⟩
  not_accessor called := first.not_accessor called.1
  aggregates valid _ called index :=
    (first.aggregates valid called.1 index).and (second.aggregates valid called.2 index)

/-- With the trait, what is remembered stays valid. -/
def Stays (trait : Trait) : Prop :=
  ∀ ⦃valid : Memory → Prop⦄ ⦃α : Type⦄ ⦃run : Frame → EvalM α⦄, (trait.conduct valid).Of run →
    ∀ frame, EvalM.Keeps (World.Stays valid) (run frame)

theorem everything_stays : View.everything.trait.Stays := by
  intro valid α run shows frame world holds
  have twins := shows frame trivial world world ⟨rfl, holds, holds⟩
  unfold EvalM.after
  cases ran : run frame world <;> rw [ran] at twins <;> exact twins.2.2.1

theorem Stays.and {first : Trait} (stays : first.Stays) (second : Trait) : (first.and second).Stays :=
  fun _ _ _ shows => stays shows.1

end Trait

end RecordQuery
