import RecordQuery.Proofs.Evaluation.Unvarying
import RecordQuery.Proofs.Meaning.Readiness
/-! Expressions that look at the row at hand, and not at the set of rows it is from: their outcome on a row is one and
the same among whatever rows, and they set no save value. -/

namespace RecordQuery

/-- Whether a function is no aggregate, and no access to a path. -/
def isPerRow (name : String) : Bool :=
  !FunctionRegistry.sameName name "accessor" && Aggregate.variants.all fun variant =>
    !FunctionRegistry.sameName name variant.aggregate.name

/-- To have one outcome however what it is about is varied, and to leave the variables as they are: no variable is read
that varies, and no aggregate called. -/
def Trait.unvarying (variation : Frame.Variation) (scope : Scope) (binds saves : NameTable Value) : Trait where
  conduct := Conduct.unvarying variation scope binds saves
  within := Conduct.unvarying_within variation scope binds saves
  on := Conduct.unvarying_on
  reads name := ∀ index frame, Meaning.bindValue name (variation.vary index frame) = Meaning.bindValue name frame
  bindValue _ _ read := bindValue_unvarying read
  saveValue _ name := saveValue_unvarying name
  calls name := isPerRow name = true
  calls_congr same called := by
    simp only [isPerRow, FunctionRegistry.sameName_congr same] at called
    exact called
  not_accessor called := by
    simp only [isPerRow, Bool.and_eq_true, Bool.not_eq_true'] at called
    exact called.1
  aggregates valid aggregate called index := by
    have listed : ∃ variant ∈ Aggregate.variants, variant.aggregate = aggregate := by
      cases aggregate <;> decide
    obtain ⟨variant, member, rfl⟩ := listed
    simp only [isPerRow, Bool.and_eq_true, List.all_eq_true] at called
    have other := called.2 variant member
    simp [FunctionRegistry.sameName] at other

/-- With given variables, a computation about a row has one outcome, whatever rows it is from, and leaves the variables
as they are. -/
abbrev Conduct.byRow : Scope → NameTable Value → NameTable Value → (Memory → Prop) → Conduct := Conduct.unvarying .rows

/-- To have one outcome on a row, whatever rows it is from. -/
abbrev Trait.byRow : Scope → NameTable Value → NameTable Value → Trait := Trait.unvarying .rows

/-- All variables but the set of rows have the same value on a row among whatever rows. -/
theorem bindValue_rows {name : String} (other : name ≠ "_allobjs") (rows : List Value) (frame : Frame) :
    Meaning.bindValue name { frame with rows } = Meaning.bindValue name frame := by
  unfold Meaning.bindValue
  split <;> first | rfl | exact absurd rfl other

namespace Vocabulary

/-- All variables with a name but the set of rows, and all functions but aggregates and access to a path. -/
def perRow : Vocabulary where
  reads name := name.any fun name => normalizeName name != "_allobjs"
  calls := isPerRow

theorem perRow_fits (scope : Scope) (binds saves : NameTable Value) : perRow.Fits (.byRow scope binds saves) where
  reads {name} read known := by
    cases name with
    | none => cases read
    | some name =>
      have other : normalizeName name ≠ "_allobjs" := by simpa [perRow] using read
      exact bindValue_rows other
  calls called := called

theorem perRow_fits_view (view : View) : perRow.Fits view.trait where
  reads _ _ := trivial
  calls called := by
    simp only [perRow, isPerRow, Bool.and_eq_true, Bool.not_eq_true'] at called
    exact called.1

end Vocabulary

end RecordQuery
