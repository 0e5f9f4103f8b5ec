import Mathlib.Data.List.MinMax
import Mathlib.Data.Prod.Lex
import RecordQuery.Function.Registry
/-! Which function a call is resolved to. The choice among signatures is a search for the greatest score, and the
signatures for a call are those of the functions of its name, each at a place of its own. -/

namespace RecordQuery

section Signatures

variable {α : Type}

/-- The scan of candidates finds the first at which the score is greatest. -/
theorem earliestBest_eq_argmax (candidates : List (α × Nat)) :
    earliestBest candidates = candidates.argmax (·.2) := by
  unfold earliestBest List.argmax
  congr 1
  funext best candidate
  cases best <;> rfl

theorem earliestBest_mem {candidates : List (α × Nat)} {best : α × Nat}
    (found : earliestBest candidates = some best) : best ∈ candidates :=
  List.argmax_mem (earliestBest_eq_argmax candidates ▸ found)

/-- The signatures that have a score, with it. -/
def scoredSignatures (signatures : List (α × List ParamType)) (arguments : List DataType) : List (α × Nat) :=
  signatures.filterMap fun (candidate, params) => (score params arguments).map fun fit => (candidate, fit)

theorem mem_scoredSignatures {signatures : List (α × List ParamType)} {arguments : List DataType} {chosen : α}
    {fit : Nat} : (chosen, fit) ∈ scoredSignatures signatures arguments ↔
      ∃ params, (chosen, params) ∈ signatures ∧ score params arguments = some fit := by
  constructor
  · intro member
    obtain ⟨⟨candidate, params⟩, listed, scored⟩ := List.mem_filterMap.mp member
    obtain ⟨_, fits, same⟩ := Option.map_eq_some_iff.mp scored
    cases same
    exact ⟨params, listed, fits⟩
  · rintro ⟨params, listed, fits⟩
    exact List.mem_filterMap.mpr ⟨(chosen, params), listed, Option.map_eq_some_iff.mpr ⟨fit, fits, rfl⟩⟩

/-- The first signature that takes no arguments is the earliest of the best without arguments: all score alike then. -/
theorem chooseSignature_eq (signatures : List (α × List ParamType)) (arguments : List DataType) :
    chooseSignature signatures arguments = earliestBest (scoredSignatures signatures arguments) := by
  unfold chooseSignature
  split
  next without =>
    cases List.isEmpty_iff.mp without
    induction signatures with
    | nil => rfl
    | cons signature rest ih =>
      obtain ⟨candidate, params⟩ := signature
      cases params with
      | cons param params => exact ih
      | nil =>
        have head : scoredSignatures ((candidate, []) :: rest) [] = (candidate, 0) :: scoredSignatures rest [] := rfl
        rw [head, earliestBest_eq_argmax, List.argmax_cons, ← earliestBest_eq_argmax]
        cases later : earliestBest (scoredSignatures rest []) with
        | none => rfl
        | some best =>
          obtain ⟨params, -, scored⟩ := mem_scoredSignatures.mp (earliestBest_mem later)
          have level : best.2 = 0 := by
            cases params with
            | nil => exact (Option.some.inj scored).symm
            | cons param params => cases scored
          simp [level]
  next => rfl

/-- What is chosen is among the signatures. -/
theorem chooseSignature_mem {signatures : List (α × List ParamType)} {arguments : List DataType} {chosen : α}
    {fit : Nat} (found : chooseSignature signatures arguments = some (chosen, fit)) :
    ∃ params, (chosen, params) ∈ signatures := by
  rw [chooseSignature_eq] at found
  obtain ⟨params, member, -⟩ := mem_scoredSignatures.mp (earliestBest_mem found)
  exact ⟨params, member⟩

end Signatures

/-- The place of an operation: that of its handler among the handlers, then its own in the handler. -/
abbrev OperationPlace : Type := Nat ×ₗ Nat

namespace FunctionRegistry

/-- The operation at a place, with its handler. -/
def operation? (registry : FunctionRegistry) (place : OperationPlace) : Option (Handler × FunctionDef) :=
  registry.handlers[(ofLex place).1]?.bind fun handler =>
    handler.functions[(ofLex place).2]?.map fun definition => (handler, definition)

theorem sameName_congr {a b : String} (same : sameName a b = true) (other : String) :
    sameName a other = sameName b other := by
  simp only [sameName, beq_iff_eq] at same ⊢
  rw [same]

theorem sameName_symm {a b : String} (same : sameName a b = true) : sameName b a = true := by
  simp only [sameName, beq_iff_eq] at same ⊢
  exact same.symm

variable {registry : FunctionRegistry} {name : String} {arguments : List DataType} {resolution : Resolution}

theorem operation?_eq_some_iff {place index : Nat} {handler : Handler} {definition : FunctionDef} :
    registry.operation? (toLex (place, index)) = some (handler, definition) ↔
      registry.handlers[place]? = some handler ∧ handler.functions[index]? = some definition := by
  simp only [operation?, ofLex_toLex, Option.bind_eq_some_iff, Option.map_eq_some_iff, Prod.mk.injEq]
  constructor
  · rintro ⟨found, placed, definition', listed, rfl, rfl⟩
    exact ⟨placed, listed⟩
  · rintro ⟨placed, listed⟩
    exact ⟨handler, placed, definition, listed, rfl, rfl⟩

/-- The candidates for a call are the operations of its name with as many parameters. -/
theorem mem_candidates {arity place index : Nat} {handler : Handler} {definition : FunctionDef}
    {params : List ParamType} :
    ((place, handler, index, definition), params) ∈ registry.candidates name arity ↔
      registry.operation? (toLex (place, index)) = some (handler, definition) ∧
        sameName definition.name name = true ∧ definition.params.length = arity ∧ params = definition.params := by
  rw [operation?_eq_some_iff]
  constructor
  · intro member
    obtain ⟨⟨handler', place'⟩, placed, offered⟩ := List.mem_flatMap.mp member
    obtain ⟨⟨definition', index'⟩, listed, same⟩ := List.mem_filterMap.mp offered
    dsimp only at same
    split at same
    · next fits =>
      cases same
      simp only [Bool.and_eq_true, beq_iff_eq] at fits
      exact ⟨⟨List.mem_zipIdx_iff_getElem?.mp placed, List.mem_zipIdx_iff_getElem?.mp listed⟩, fits.1, fits.2, rfl⟩
    · cases same
  · rintro ⟨⟨placed, listed⟩, named, arity, rfl⟩
    refine List.mem_flatMap.mpr ⟨(handler, place), List.mem_zipIdx_iff_getElem?.mpr placed, ?_⟩
    refine List.mem_filterMap.mpr ⟨(definition, index), List.mem_zipIdx_iff_getElem?.mpr listed, ?_⟩
    simp [named, arity]

/-- A call is resolved to a function of its name, in the handler at its place. -/
theorem resolve_found (resolved : registry.resolve name arguments = some resolution) :
    ∃ handler, registry.handlers[resolution.place]? = some handler ∧
      handler.functions[resolution.index]? = some resolution.definition ∧
      resolution.definition.params.length = arguments.length ∧
      sameName resolution.definition.name name = true := by
  obtain ⟨⟨⟨place, handler, index, definition⟩, fit⟩, chosen, rfl⟩ := Option.map_eq_some_iff.mp resolved
  obtain ⟨params, member⟩ := chooseSignature_mem chosen
  obtain ⟨located, named, arity, -⟩ := mem_candidates.mp member
  obtain ⟨placed, listed⟩ := operation?_eq_some_iff.mp located
  exact ⟨handler, placed, listed, arity, named⟩

end FunctionRegistry

end RecordQuery
