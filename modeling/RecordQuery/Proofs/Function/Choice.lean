import Mathlib.Data.List.Nodup
import Mathlib.Data.List.Pairwise
import RecordQuery.Meaning.Call
import RecordQuery.Meaning.Operand
import RecordQuery.Proofs.Evaluation.Outcome
import RecordQuery.Proofs.Function.Resolution
/-! Which of several signatures is chosen for given argument types: of those that have a score, the earliest of the
best. Calls choose so among the operations of their name, in the order in which handlers are asked, and constructors
among those of their factory. -/

namespace RecordQuery

/-- What is found at a place has the best score, and nothing before it has as good a one. -/
structure IsEarliestBest {κ : Type} [LT κ] (scores : κ → Option Nat) (place : κ) (best : Nat) : Prop where
  scored : scores place = some best
  greatest : ∀ other fit, scores other = some fit → fit ≤ best
  earliest : ∀ other fit, other < place → scores other = some fit → fit < best

section Scan

variable {α κ : Type} [Preorder κ]

/-- A candidate has the best score of all, and a better one than all before it. -/
structure Leads (place : α → κ) (candidates : List (α × Nat)) (best : α × Nat) : Prop where
  member : best ∈ candidates
  greatest : ∀ other ∈ candidates, other.2 ≤ best.2
  earliest : ∀ other ∈ candidates, place other.1 < place best.1 → other.2 < best.2

variable {place : α → κ} {candidates : List (α × Nat)} {candidate best : α × Nat}

/-- A candidate behind all others takes the lead if it is better than the one in the lead. -/
theorem Leads.concat (leads : Leads place candidates best)
    (behind : ∀ other ∈ candidates, place other.1 < place candidate.1) :
    Leads place (candidates ++ [candidate]) (if best.2 < candidate.2 then candidate else best) := by
  split
  next better =>
    refine ⟨by simp, ?_, ?_⟩
    · intro other member
      rcases List.mem_append.mp member with old | new
      · exact Nat.le_of_lt (Nat.lt_of_le_of_lt (leads.greatest other old) better)
      · rw [List.mem_singleton.mp new]
    · intro other member before
      rcases List.mem_append.mp member with old | new
      · exact Nat.lt_of_le_of_lt (leads.greatest other old) better
      · rw [List.mem_singleton.mp new] at before
        exact absurd before (lt_irrefl _)
  next worse =>
    refine ⟨List.mem_append_left _ leads.member, ?_, ?_⟩
    · intro other member
      rcases List.mem_append.mp member with old | new
      · exact leads.greatest other old
      · rw [List.mem_singleton.mp new]
        exact Nat.le_of_not_lt worse
    · intro other member before
      rcases List.mem_append.mp member with old | new
      · exact leads.earliest other old before
      · rw [List.mem_singleton.mp new] at before
        exact absurd before (lt_asymm (behind best leads.member))

theorem Leads.unique {other : α × Nat} (ascending : candidates.Pairwise fun a b => place a.1 < place b.1)
    (first : Leads place candidates best) (second : Leads place candidates other) : best = other := by
  have level : best.2 = other.2 :=
    Nat.le_antisymm (second.greatest best first.member) (first.greatest other second.member)
  by_contra different
  have either : Std.Symm fun a b : α × Nat => place a.1 < place b.1 ∨ place b.1 < place a.1 := ⟨fun _ _ => Or.symm⟩
  have apart : candidates.Pairwise fun a b => place a.1 < place b.1 ∨ place b.1 < place a.1 := ascending.imp Or.inl
  rcases apart.forall first.member second.member different with before | after
  · exact Nat.ne_of_lt (second.earliest best first.member before) level
  · exact Nat.ne_of_gt (first.earliest other second.member after) level

/-- What the scan keeps of candidates in the order of their places leads them. -/
theorem earliestBest_leads (ascending : candidates.Pairwise fun a b => place a.1 < place b.1)
    (kept : earliestBest candidates = some best) : Leads place candidates best := by
  induction candidates using List.reverseRecOn generalizing best with
  | nil => cases kept
  | append_singleton candidates candidate ih =>
    obtain ⟨before, -, later⟩ := List.pairwise_append.mp ascending
    have behind : ∀ other ∈ candidates, place other.1 < place candidate.1 := fun other member =>
      later other member candidate (List.mem_singleton_self candidate)
    rw [earliestBest_eq_argmax, List.argmax_concat, ← earliestBest_eq_argmax] at kept
    cases held : earliestBest candidates with
    | none =>
      have empty : candidates = [] := List.argmax_eq_none.mp (earliestBest_eq_argmax candidates ▸ held)
      rw [held] at kept
      cases kept
      subst empty
      exact ⟨by simp, by simp, by simp⟩
    | some leader =>
      have next := (ih before held).concat behind
      rw [held] at kept
      dsimp only at kept
      split at kept <;> cases kept <;> simp_all

theorem earliestBest_eq_some_iff (ascending : candidates.Pairwise fun a b => place a.1 < place b.1) :
    earliestBest candidates = some best ↔ Leads place candidates best := by
  refine ⟨earliestBest_leads ascending, fun leads => ?_⟩
  cases kept : earliestBest candidates with
  | none =>
    have empty : candidates = [] := List.argmax_eq_none.mp (earliestBest_eq_argmax candidates ▸ kept)
    cases empty ▸ leads.member
  | some leader => rw [(earliestBest_leads ascending kept).unique ascending leads]

/-- Signatures are listed in the order of their places, and the scores are those of the signatures there. -/
structure Arranged (place : α → κ) (signatures : List (α × List ParamType)) (arguments : List DataType)
    (scores : κ → Option Nat) : Prop where
  ascending : signatures.Pairwise fun a b => place a.1 < place b.1
  scored : ∀ spot fit, scores spot = some fit ↔
    ∃ signature ∈ signatures, place signature.1 = spot ∧ score signature.2 arguments = some fit

namespace Arranged

variable {signatures : List (α × List ParamType)} {arguments : List DataType} {scores : κ → Option Nat} {chosen : α}
  {fit : Nat}

theorem ascending_scored (arranged : Arranged place signatures arguments scores) :
    (scoredSignatures signatures arguments).Pairwise fun a b => place a.1 < place b.1 := by
  refine List.pairwise_filterMap.mpr (arranged.ascending.imp ?_)
  intro first second before scored found other found'
  obtain ⟨_, -, rfl⟩ := Option.map_eq_some_iff.mp found
  obtain ⟨_, -, rfl⟩ := Option.map_eq_some_iff.mp found'
  exact before

/-- No two signatures are at one place. -/
theorem signature_eq (arranged : Arranged place signatures arguments scores) {first second : α × List ParamType}
    (listed : first ∈ signatures) (listed' : second ∈ signatures) (same : place first.1 = place second.1) :
    first = second := by
  have apart : (signatures.map fun signature => place signature.1).Nodup :=
    List.pairwise_map.mpr (arranged.ascending.imp ne_of_lt)
  exact List.inj_on_of_nodup_map apart listed listed' same

theorem leads_iff (arranged : Arranged place signatures arguments scores) :
    Leads place (scoredSignatures signatures arguments) (chosen, fit) ↔
      (∃ params, (chosen, params) ∈ signatures) ∧ IsEarliestBest scores (place chosen) fit := by
  have listed (spot : κ) (other : Nat) (scored : scores spot = some other) :
      ∃ candidate, (candidate, other) ∈ scoredSignatures signatures arguments ∧ place candidate = spot := by
    obtain ⟨signature, member, here, fits⟩ := (arranged.scored spot other).mp scored
    exact ⟨signature.1, mem_scoredSignatures.mpr ⟨signature.2, member, fits⟩, here⟩
  have scored (candidate : α × Nat) (member : candidate ∈ scoredSignatures signatures arguments) :
      scores (place candidate.1) = some candidate.2 := by
    obtain ⟨params, listed, fits⟩ := mem_scoredSignatures.mp member
    exact (arranged.scored _ _).mpr ⟨_, listed, rfl, fits⟩
  constructor
  · rintro ⟨member, greatest, earliest⟩
    obtain ⟨params, signature, -⟩ := mem_scoredSignatures.mp member
    refine ⟨⟨params, signature⟩, scored _ member, fun spot other found => ?_, fun spot other before found => ?_⟩
    · obtain ⟨candidate, member', -⟩ := listed spot other found
      exact greatest _ member'
    · obtain ⟨candidate, member', rfl⟩ := listed spot other found
      exact earliest _ member' before
  · rintro ⟨⟨params, signature⟩, here, greatest, earliest⟩
    refine ⟨?_, fun other member => greatest _ _ (scored other member),
      fun other member before => earliest _ _ before (scored other member)⟩
    obtain ⟨found, listed, same, fits⟩ := (arranged.scored _ _).mp here
    cases arranged.signature_eq listed signature same
    exact mem_scoredSignatures.mpr ⟨params, signature, fits⟩

theorem choose_eq_some_iff (arranged : Arranged place signatures arguments scores) :
    chooseSignature signatures arguments = some (chosen, fit) ↔
      (∃ params, (chosen, params) ∈ signatures) ∧ IsEarliestBest scores (place chosen) fit := by
  rw [chooseSignature_eq, earliestBest_eq_some_iff arranged.ascending_scored, arranged.leads_iff]

theorem choose_eq_none_iff (arranged : Arranged place signatures arguments scores) :
    chooseSignature signatures arguments = none ↔ ∀ spot, scores spot = none := by
  rw [chooseSignature_eq, earliestBest_eq_argmax, List.argmax_eq_none]
  constructor
  · intro empty spot
    cases found : scores spot with
    | none => rfl
    | some fit =>
      obtain ⟨signature, listed, -, fits⟩ := (arranged.scored spot fit).mp found
      cases empty ▸ mem_scoredSignatures.mpr ⟨signature.2, listed, fits⟩
  · intro unscored
    refine List.eq_nil_iff_forall_not_mem.mpr fun candidate member => ?_
    obtain ⟨params, listed, fits⟩ := mem_scoredSignatures.mp member
    cases (unscored _).symm.trans ((arranged.scored _ _).mpr ⟨_, listed, rfl, fits⟩)

end Arranged

/-- What a numbered list is mapped to is in the order of the numbers. -/
theorem pairwise_zipIdx (items : List α) : items.zipIdx.Pairwise fun a b => a.2 < b.2 := by
  have numbers : (items.zipIdx.map Prod.snd).Pairwise (· < ·) := List.zipIdx_map_snd .. ▸ List.pairwise_lt_range' 1
  exact List.pairwise_map.mp numbers

end Scan

def Resolution.operationPlace (resolution : Resolution) : OperationPlace := toLex (resolution.place, resolution.index)

namespace FunctionRegistry

variable {registry : FunctionRegistry} {name : String} {arguments : List DataType} {resolution : Resolution}

/-- There is an operation of the name with so many parameters at the place. -/
def Offers (registry : FunctionRegistry) (name : String) (arity : Nat) (place : OperationPlace) : Prop :=
  ∃ handler definition, registry.operation? place = some (handler, definition) ∧
    sameName definition.name name = true ∧ definition.params.length = arity

/-- How well the operation at a place fits arguments of these types, if it is of the name and takes so many. -/
def scoreAt (registry : FunctionRegistry) (name : String) (arguments : List DataType) (place : OperationPlace) :
    Option Nat :=
  (registry.operation? place).bind fun (_, definition) =>
    if sameName definition.name name && definition.params.length == arguments.length then
      score definition.params arguments
    else none

/-- The resolution tells of the operation at its place. -/
def Locates (registry : FunctionRegistry) (resolution : Resolution) : Prop :=
  ∃ handler, registry.operation? resolution.operationPlace = some (handler, resolution.definition) ∧
    handler.id = resolution.handlerId

theorem scoreAt_eq_some_iff {place : OperationPlace} {fit : Nat} :
    registry.scoreAt name arguments place = some fit ↔
      ∃ handler definition, registry.operation? place = some (handler, definition) ∧
        sameName definition.name name = true ∧ definition.params.length = arguments.length ∧
          score definition.params arguments = some fit := by
  simp only [scoreAt, Option.bind_eq_some_iff, Prod.exists, Option.ite_none_right_eq_some, Bool.and_eq_true, beq_iff_eq,
    and_assoc]

/-- The candidates for a call are in the order in which handlers and their operations are asked. -/
theorem candidates_arranged (registry : FunctionRegistry) (name : String) (arguments : List DataType) :
    Arranged (fun (place, _, index, _) => (toLex (place, index) : OperationPlace))
      (registry.candidates name arguments.length) arguments (registry.scoreAt name arguments) where
  ascending := by
    refine List.pairwise_flatMap.mpr ⟨fun (handler, place) _ => ?_, ?_⟩
    · refine List.pairwise_filterMap.mpr ((pairwise_zipIdx handler.functions).imp ?_)
      intro first second before candidate found other found'
      dsimp only at found found'
      split at found <;> cases found
      split at found' <;> cases found'
      exact Prod.Lex.toLex_lt_toLex.mpr (.inr ⟨rfl, before⟩)
    · refine (pairwise_zipIdx registry.handlers).imp ?_
      intro first second before candidate listed other listed'
      obtain ⟨_, -, found⟩ := List.mem_filterMap.mp listed
      obtain ⟨_, -, found'⟩ := List.mem_filterMap.mp listed'
      dsimp only at found found'
      split at found <;> cases found
      split at found' <;> cases found'
      exact Prod.Lex.toLex_lt_toLex.mpr (.inl before)
  scored spot fit := by
    rw [scoreAt_eq_some_iff]
    constructor
    · rintro ⟨handler, definition, found, named, arity, fits⟩
      exact ⟨(((ofLex spot).1, handler, (ofLex spot).2, definition), definition.params),
        mem_candidates.mpr ⟨found, named, arity, rfl⟩, rfl, fits⟩
    · rintro ⟨⟨⟨place, handler, index, definition⟩, params⟩, listed, rfl, fits⟩
      obtain ⟨found, named, arity, rfl⟩ := mem_candidates.mp listed
      exact ⟨handler, definition, found, named, arity, fits⟩

theorem resolve_eq_none_iff :
    registry.resolve name arguments = none ↔ ∀ place, registry.scoreAt name arguments place = none := by
  rw [resolve, Option.map_eq_none_iff]
  exact (candidates_arranged registry name arguments).choose_eq_none_iff

/-- A call is resolved to the operation that has the earliest of the best scores. -/
theorem resolve_eq_some_iff :
    registry.resolve name arguments = some resolution ↔
      registry.Locates resolution ∧
        IsEarliestBest (registry.scoreAt name arguments) resolution.operationPlace resolution.score := by
  rw [resolve, Option.map_eq_some_iff]
  constructor
  · rintro ⟨⟨⟨place, handler, index, definition⟩, fit⟩, chosen, rfl⟩
    obtain ⟨⟨params, listed⟩, best⟩ := (candidates_arranged registry name arguments).choose_eq_some_iff.mp chosen
    exact ⟨⟨handler, (mem_candidates.mp listed).1, rfl⟩, best⟩
  · rintro ⟨⟨handler, located, same⟩, best⟩
    obtain ⟨handler', definition, found, named, arity, -⟩ := scoreAt_eq_some_iff.mp best.scored
    cases located.symm.trans found
    have listed := mem_candidates.mpr ⟨located, named, arity, rfl⟩
    refine ⟨_, (candidates_arranged registry name arguments).choose_eq_some_iff.mpr ⟨⟨_, listed⟩, best⟩, ?_⟩
    dsimp only
    rw [same]

/-- A call without arguments is resolved to the first operation of its name that takes none. -/
theorem resolve_nil_eq_some_iff :
    registry.resolve name [] = some resolution ↔
      registry.Locates resolution ∧ resolution.score = 0 ∧ registry.Offers name 0 resolution.operationPlace ∧
        ∀ place < resolution.operationPlace, ¬registry.Offers name 0 place := by
  have scored (place : OperationPlace) (fit : Nat) :
      registry.scoreAt name [] place = some fit ↔ registry.Offers name 0 place ∧ fit = 0 := by
    rw [scoreAt_eq_some_iff]
    constructor
    · rintro ⟨handler, definition, found, named, arity, fits⟩
      rw [List.length_eq_zero_iff.mp arity] at fits
      exact ⟨⟨handler, definition, found, named, arity⟩, (Option.some.inj fits).symm⟩
    · rintro ⟨⟨handler, definition, found, named, arity⟩, rfl⟩
      exact ⟨handler, definition, found, named, arity, List.length_eq_zero_iff.mp arity ▸ rfl⟩
  rw [resolve_eq_some_iff]
  refine and_congr_right fun _ => ?_
  constructor
  · intro best
    obtain ⟨offered, none⟩ := (scored _ _).mp best.scored
    refine ⟨none, offered, fun place before other => ?_⟩
    have less : 0 < resolution.score := best.earliest place 0 before ((scored place 0).mpr ⟨other, rfl⟩)
    exact Nat.ne_of_gt less none
  · rintro ⟨none, offered, first⟩
    refine ⟨(scored _ _).mpr ⟨offered, none⟩, fun place fit other => ?_, fun place fit before other => ?_⟩
    · exact Nat.le_of_eq (((scored place fit).mp other).2.trans none.symm)
    · exact absurd ((scored place fit).mp other).1 (first place before)

end FunctionRegistry

/-- How well the constructor at a place fits arguments of these types. -/
def RecordFactory.scoreAt (factory : RecordFactory) (arguments : List DataType) (place : Nat) : Option Nat :=
  factory.signatures[place]?.bind fun signature => score (signature.map ParamType.type) arguments

/-- The constructors of a factory are in the order of their declaration. -/
theorem RecordFactory.signatures_arranged (factory : RecordFactory) (arguments : List DataType) :
    Arranged id (factory.signatures.mapIdx fun index signature => (index, signature.map ParamType.type)) arguments
      (factory.scoreAt arguments) where
  ascending := by
    rw [List.mapIdx_eq_zipIdx_map, List.pairwise_map]
    exact pairwise_zipIdx factory.signatures
  scored spot fit := by
    rw [RecordFactory.scoreAt, Option.bind_eq_some_iff]
    constructor
    · rintro ⟨signature, listed, fits⟩
      refine ⟨(spot, signature.map ParamType.type), List.mem_iff_getElem?.mpr ⟨spot, ?_⟩, rfl, fits⟩
      rw [List.getElem?_mapIdx, listed]
      rfl
    · rintro ⟨signature, member, rfl, fits⟩
      obtain ⟨index, found⟩ := List.mem_iff_getElem?.mp member
      rw [List.getElem?_mapIdx] at found
      obtain ⟨types, listed, rfl⟩ := Option.map_eq_some_iff.mp found
      exact ⟨types, listed, fits⟩

namespace Meaning

variable {typeName : String} {arguments : List Meaning} {setters : List (Meaning × String)} {setting : Setting}
  {start next : World} {factory : RecordFactory}

/-- Preparing a constructor ends with the choice among the signatures of its factory, by the types that its arguments
have then. -/
theorem construct_prepare_eq
    (began : forEach (arguments ++ setters.map (·.1)) (·.prepare setting) start = .ok () next)
    (known : setting.environment.types.factory? typeName = some factory) :
    (construct typeName arguments setters).prepare setting start =
      match chooseSignature (factory.signatures.mapIdx fun index signature => (index, signature.map ParamType.type))
        (arguments.map (·.expectedType setting next)) with
      | some (constructor, _) => EvalM.setNode (.construction factory constructor) next
      | none => .error (.unresolvedConstructor typeName (construct typeName arguments setters).text) next := by
  refine (EvalM.bind_of_ok began).trans ?_
  rw [known]
  dsimp only
  rw [EvalM.get_bind]
  generalize chooseSignature _ _ = choice
  cases choice <;> rfl

/-- The types that the arguments of a constructor have once its parts are prepared. -/
def argumentTypes (arguments : List Meaning) (setting : Setting) (world : World) : List DataType :=
  arguments.map (·.expectedType setting world)

/-- A constructor is remembered if it is the earliest of the best. -/
theorem construct_prepare_eq_ok_iff {prepared : World}
    (began : forEach (arguments ++ setters.map (·.1)) (·.prepare setting) start = .ok () next)
    (known : setting.environment.types.factory? typeName = some factory) :
    (construct typeName arguments setters).prepare setting start = .ok () prepared ↔
      ∃ constructor fit, IsEarliestBest (factory.scoreAt (argumentTypes arguments setting next)) constructor fit ∧
        prepared = { next with memory := next.memory.withState (.construction factory constructor) } := by
  have arranged := factory.signatures_arranged (argumentTypes arguments setting next)
  rw [construct_prepare_eq began known]
  constructor
  · intro ran
    split at ran
    next constructor fit chosen =>
      cases ran
      exact ⟨constructor, fit, (arranged.choose_eq_some_iff.mp chosen).2, rfl⟩
    next => cases ran
  · rintro ⟨constructor, fit, best, rfl⟩
    obtain ⟨⟨place, signature⟩, member, rfl, -⟩ := (arranged.scored constructor fit).mp best.scored
    have chosen := arranged.choose_eq_some_iff.mpr ⟨⟨signature, member⟩, best⟩
    rw [argumentTypes] at chosen
    rw [chosen]
    rfl

/-- A constructor is refused if no signature has a score. -/
theorem construct_prepare_eq_error_iff {error : Error} {left : World}
    (began : forEach (arguments ++ setters.map (·.1)) (·.prepare setting) start = .ok () next)
    (known : setting.environment.types.factory? typeName = some factory) :
    (construct typeName arguments setters).prepare setting start = .error error left ↔
      (∀ place, factory.scoreAt (argumentTypes arguments setting next) place = none) ∧
        error = .unresolvedConstructor typeName (construct typeName arguments setters).text ∧ left = next := by
  have arranged := factory.signatures_arranged (argumentTypes arguments setting next)
  rw [construct_prepare_eq began known, ← arranged.choose_eq_none_iff, argumentTypes]
  cases chooseSignature (factory.signatures.mapIdx fun index signature => (index, signature.map ParamType.type))
      (arguments.map (·.expectedType setting next)) with
  | some choice => exact iff_of_false nofun fun ⟨unscored, _⟩ => nomatch unscored
  | none => simp [eq_comm]

end Meaning

open Meaning in
/-- Calls and constructors are resolved by one rule. There is no answer exactly if nothing has a score; otherwise the
answer has the best score, and all before it have lesser ones. A call without arguments is resolved to the first
operation of its name that takes none. -/
theorem overloads_earliest_best (registry : FunctionRegistry) (name : String) (types : List DataType) :
    (registry.resolve name types = none ↔ ∀ place, registry.scoreAt name types place = none) ∧
      (∀ resolution, registry.resolve name types = some resolution ↔
        registry.Locates resolution ∧
          IsEarliestBest (registry.scoreAt name types) resolution.operationPlace resolution.score) ∧
      (∀ resolution, registry.resolve name [] = some resolution ↔
        registry.Locates resolution ∧ resolution.score = 0 ∧ registry.Offers name 0 resolution.operationPlace ∧
          ∀ place < resolution.operationPlace, ¬registry.Offers name 0 place) ∧
      ∀ (typeName : String) (arguments : List Meaning) (setters : List (Meaning × String)) (setting : Setting)
        (start next : World) (factory : RecordFactory),
        forEach (arguments ++ setters.map (·.1)) (·.prepare setting) start = .ok () next →
        setting.environment.types.factory? typeName = some factory →
        (∀ prepared, (construct typeName arguments setters).prepare setting start = .ok () prepared ↔
          ∃ constructor fit, IsEarliestBest (factory.scoreAt (argumentTypes arguments setting next)) constructor fit ∧
            prepared = { next with memory := next.memory.withState (.construction factory constructor) }) ∧
        ∀ error left, (construct typeName arguments setters).prepare setting start = .error error left ↔
          (∀ place, factory.scoreAt (argumentTypes arguments setting next) place = none) ∧
            error = .unresolvedConstructor typeName (construct typeName arguments setters).text ∧ left = next := by
  refine ⟨FunctionRegistry.resolve_eq_none_iff, fun _ => FunctionRegistry.resolve_eq_some_iff,
    fun _ => FunctionRegistry.resolve_nil_eq_some_iff, ?_⟩
  intro typeName arguments setters setting start next factory began known
  exact ⟨fun _ => construct_prepare_eq_ok_iff began known, fun _ _ => construct_prepare_eq_error_iff began known⟩

/-- A handler with an `f` for one kind of argument. -/
def Handler.single (id : String) (param : ParamType) : Handler :=
  ⟨id, [⟨"f", [param], .any, false⟩], fun _ _ _ => pure .null⟩

/-- Two handlers with an `f` each, of which the second one is for texts. -/
def FunctionRegistry.twoHandlers : FunctionRegistry := ⟨[.single "first" .any], [.single "second" (.type .string)]⟩

/-- Points that are made of nothing, of a label, or of a number. -/
def RecordFactory.labelledPoint : RecordFactory :=
  let label : Member := ⟨"label", .field, .any⟩
  let x : Member := ⟨"x", .field, .int64⟩
  ⟨⟨"Point", [label, x]⟩, [[], [label], [x]]⟩

def Setting.withPoints : Setting :=
  ⟨.any, ⟨TypeRegistry.empty.registerFactory .labelledPoint, .twoHandlers⟩, ⟨0, none⟩⟩

open Meaning FunctionRegistry RecordFactory in
/-- A text goes to the `f` for texts, though the other one is asked first. A number makes a point of a number, though
a label may be any value. -/
theorem overloads_earliest_best_of_points :
    (∃ resolution, twoHandlers.resolve "f" [.string] = some resolution ∧ resolution.handlerId = "second" ∧
      IsEarliestBest (twoHandlers.scoreAt "f" [.string]) (toLex (1, 0)) resolution.score) ∧
    (construct "Point" [constant (.int64 5)] []).prepare .withPoints .start =
      .ok () { World.start with memory := World.start.memory.withState (.construction labelledPoint 2) } := by
  obtain ⟨-, resolved, -, constructed⟩ := overloads_earliest_best twoHandlers "f" [.string]
  have named : sameName "f" "f" = true := beq_self_eq_true _
  have offered : twoHandlers.candidates "f" 1 =
      [((0, .single "first" .any, 0, ⟨"f", [.any], .any, false⟩), [.any]),
        ((1, .single "second" (.type .string), 0, ⟨"f", [.type .string], .any, false⟩), [.type .string])] := by
    simp [candidates, handlers, twoHandlers, Handler.single, named]
  have found : twoHandlers.resolve "f" [.string] =
      some ⟨1, "second", 0, ⟨"f", [.type .string], .any, false⟩, 2⟩ := by
    rw [resolve, List.length_singleton, offered]
    rfl
  have best : IsEarliestBest (labelledPoint.scoreAt [.int64]) 2 4 := by
    refine ⟨rfl, fun place fit scored => ?_, fun place fit before scored => ?_⟩
    · match place with
      | 0 => cases scored
      | 1 => cases scored; decide
      | 2 => cases scored; decide
      | _ + 3 => cases scored
    · match place with
      | 0 => cases scored
      | 1 => cases scored; decide
  have began : forEach [constant (.int64 5)] (·.prepare .withPoints) .start = .ok () .start := rfl
  have known : Setting.withPoints.environment.types.factory? "Point" = some labelledPoint := rfl
  refine ⟨⟨_, found, rfl, ((resolved _).mp found).2⟩, ?_⟩
  exact ((constructed _ [constant (.int64 5)] [] _ _ _ _ began known).1 _).mpr ⟨2, 4, best, rfl⟩

end RecordQuery
