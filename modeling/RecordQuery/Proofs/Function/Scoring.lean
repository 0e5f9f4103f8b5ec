import Mathlib.Data.List.Forall2
import RecordQuery.Function.Signature
/-! How well signatures fit the types of arguments. No parameter fits a type better than the one that declares this very
type, so no signature scores higher than the exact one, and one that scores as high rivals it at every place. -/

namespace RecordQuery

namespace DataType

variable {type : DataType}

theorem isPrimitive_of_isNumeric (number : type.isNumeric = true) : type.isPrimitive = true := by
  cases type <;> first | rfl | cases number

theorem isAny_of_ne (known : type ≠ .any) : type.isAny = false := by
  cases type <;> first | rfl | exact absurd rfl known

end DataType

namespace ParamType

variable {param : ParamType} {argument : DataType}

/-- The parameter declares the very type of the argument or, for an argument that is neither a number nor a boolean,
the type any. -/
def Rivals (param : ParamType) (argument : DataType) : Prop :=
  param = .type argument ∨ param = .type .any ∧ argument.isPrimitive = false

/-- The exact type gains all that there is to gain. -/
theorem fit_exact (argument : DataType) :
    (ParamType.type argument).fit argument = 2 + (if argument.isNumeric then 1 else 0)
      + (if argument.isPrimitive then 1 else 0) + (if argument.isAny then 1 else 0) := by
  simp [fit, DataType.accepts]

theorem fit_exact_pos (argument : DataType) : 0 < (ParamType.type argument).fit argument := by
  rw [fit_exact]
  omega

/-- The type any gains nothing for a number or a boolean. -/
theorem fit_any (argument : DataType) :
    (ParamType.type .any).fit argument = 2 + (if argument.isAny then 1 else 0) := rfl

theorem fit_of_rivals (rivals : param.Rivals argument) :
    param.fit argument = (ParamType.type argument).fit argument := by
  rcases rivals with rfl | ⟨rfl, other⟩
  · rfl
  · have noNumber : argument.isNumeric = false := by
      rw [← Bool.not_eq_true] at other ⊢
      exact fun number => other (DataType.isPrimitive_of_isNumeric number)
    simp [fit_any, fit_exact, noNumber, other]

/-- A parameter that declares no type, another type, or for a primitive the type any, gains less. -/
theorem fit_lt_exact (behind : ¬param.Rivals argument) :
    param.fit argument < (ParamType.type argument).fit argument := by
  rw [fit_exact]
  cases param with
  | any | expression =>
    unfold fit
    dsimp only
    omega
  | type declared =>
    have other : declared ≠ argument := fun same => behind (.inl (same ▸ rfl))
    by_cases unknown : declared = .any
    · subst unknown
      have primitive : argument.isPrimitive = true := by
        simpa [Rivals, other] using behind
      rw [fit_any, if_pos primitive]
      omega
    · have refused : declared.accepts argument = false := by
        simp [DataType.accepts, other, DataType.isAny_of_ne unknown]
      have numbers :
          (if declared.isNumeric && argument.isNumeric then 1 else 0) ≤ if argument.isNumeric then 1 else 0 := by
        grind
      have primitives :
          (if declared.isPrimitive && argument.isPrimitive then 1 else 0) ≤ if argument.isPrimitive then 1 else 0 := by
        grind
      unfold fit
      dsimp only
      rw [refused, if_neg Bool.false_ne_true]
      omega

theorem fit_le_exact (param : ParamType) (argument : DataType) :
    param.fit argument ≤ (ParamType.type argument).fit argument := by
  by_cases rivals : param.Rivals argument
  · exact Nat.le_of_eq (fit_of_rivals rivals)
  · exact Nat.le_of_lt (fit_lt_exact rivals)

theorem fit_eq_exact_iff : param.fit argument = (ParamType.type argument).fit argument ↔ param.Rivals argument := by
  refine ⟨fun level => ?_, fit_of_rivals⟩
  by_contra behind
  exact Nat.ne_of_lt (fit_lt_exact behind) level

end ParamType

variable {params : List ParamType} {arguments : List DataType}

theorem score_cons (param : ParamType) (params : List ParamType) (argument : DataType) (arguments : List DataType) :
    score (param :: params) (argument :: arguments) =
      if param.fit argument = 0 then none else (score params arguments).map (param.fit argument + ·) := by
  rw [score]
  split <;> simp_all

/-- The signature that declares the very types of the arguments. -/
def exactParams (arguments : List DataType) : List ParamType := arguments.map ParamType.type

/-- No signature scores higher than the one that declares exactly the types of the arguments, and one that scores as
high declares at every place the exact type or, for neither number nor boolean, any type. -/
theorem score_le_exact {total : Nat} (scored : score params arguments = some total) :
    ∃ exact, score (exactParams arguments) arguments = some exact ∧ total ≤ exact ∧
      (total = exact ↔ List.Forall₂ ParamType.Rivals params arguments) := by
  induction params generalizing arguments total with
  | nil =>
    cases arguments <;> cases scored
    exact ⟨0, rfl, Nat.le_refl 0, iff_of_true rfl .nil⟩
  | cons param params ih =>
    cases arguments with
    | nil => cases scored
    | cons argument arguments =>
      rw [score_cons] at scored
      split at scored
      · cases scored
      · obtain ⟨rest, began, rfl⟩ := Option.map_eq_some_iff.mp scored
        obtain ⟨exact, exactly, bound, level⟩ := ih began
        have here := ParamType.fit_le_exact param argument
        refine ⟨(ParamType.type argument).fit argument + exact, ?_, Nat.add_le_add here bound, ?_⟩
        · rw [exactParams, List.map_cons, score_cons, if_neg (Nat.ne_of_gt (ParamType.fit_exact_pos argument))]
          exact Option.map_eq_some_iff.mpr ⟨exact, exactly, rfl⟩
        · -- neither place can make up for what the other loses
          rw [List.forall₂_cons, ← level, ← ParamType.fit_eq_exact_iff]
          omega

/-- For a text and a number, any type and the very type of the number score as high as the exact signature. -/
theorem score_le_exact_of_text :
    score [.type .any, .type .int32] [.string, .int32] = some 6 ∧
      ∃ exact, score (exactParams [.string, .int32]) [.string, .int32] = some exact ∧ 6 ≤ exact ∧
        (6 = exact ↔ List.Forall₂ ParamType.Rivals [.type .any, .type .int32] [.string, .int32]) :=
  ⟨rfl, score_le_exact rfl⟩

end RecordQuery
