import RecordQuery.Proofs.Accessor.Steps
import RecordQuery.Proofs.Record.Types
/-! The type that an accessor leads to. A type is only told of a path that leads from one registered record type to the
next, and on values that conform to the type at the root such a path never binds itself anew. -/

namespace RecordQuery

namespace Step

variable {registry : TypeRegistry}

/-- Steps lead from a type to another one: by members of registered types, or to whatever they find. -/
inductive Leads (registry : TypeRegistry) : DataType → List Step → DataType → Prop where
  | done (type : DataType) : Leads registry type [] type
  | member {type : RecordType} {segment : String} {found : Member} {rest : List Step} {result : DataType}
      (known : registry.get? type.name = some type) (listed : found ∈ type.members)
      (onward : Leads registry found.dataType rest result) :
      Leads registry (.record type.name) (.member type.name segment found.name :: rest) result
  | loose (type : DataType) (steps : List Step) : Leads registry type steps .any

/-- From a type that is not known no path leads to one that is. -/
theorem Leads.loose_of_any {steps : List Step} {result : DataType} (leads : Leads registry .any steps result) :
    result = .any := by
  cases leads <;> rfl

theorem mem_of_resolve {type : RecordType} {segment : String} {found : Member}
    (resolved : type.resolve? segment = some found) : found ∈ type.members := by
  unfold RecordType.resolve? at resolved
  rcases Option.or_eq_some_iff.mp resolved with field | ⟨-, other⟩
  · exact List.mem_of_find?_eq_some field
  · rcases Option.or_eq_some_iff.mp other with getter | ⟨-, method⟩
    · exact List.mem_of_find?_eq_some getter
    · exact List.mem_of_find?_eq_some method

/-- A resolved step goes before those that lead on from its type. -/
theorem ofSegment_leads {path : AccessorPath} {segment : Segment} {current next result : DataType} {step : Step}
    {rest : List Step} (named : registry.Named) (resolved : ofSegment path segment current registry = .ok (step, next))
    (onward : Leads registry next rest result) : Leads registry current (step :: rest) result := by
  have open_ (unknown : next = .any) : Leads registry current (step :: rest) result := by
    subst unknown
    rw [onward.loose_of_any]
    exact .loose _ _
  unfold ofSegment at resolved
  split at resolved
  · unfold ofName at resolved
    split at resolved
    · split at resolved
      · cases resolved
        exact open_ rfl
      · next type known =>
        split at resolved
        · next found member =>
          cases resolved
          have same := named.types.found known
          subst same
          exact .member known (mem_of_resolve member) onward
        · cases resolved
    · cases resolved
      exact open_ rfl
    · cases resolved
      exact open_ rfl
    · cases resolved
  all_goals cases resolved
  all_goals exact open_ rfl

theorem ofSegments_leads {path : AccessorPath} {segments : List Segment} {current result : DataType}
    {steps : List Step} (named : registry.Named)
    (resolved : ofSegments path registry segments current = .ok (steps, result)) :
    Leads registry current steps result := by
  induction segments generalizing current steps result with
  | nil =>
    cases resolved
    exact .done _
  | cons segment rest ih =>
    obtain ⟨head, next, tail, first, later, rfl⟩ := exists_of_ofSegments_cons resolved
    exact ofSegment_leads named first (ih later)

/-- Steps applied to a value that conforms to their root go on leading to the same type, and find a value that conforms
to it. -/
theorem applyAll_conforms {path : String} {steps : List Step} {root result : DataType} {value : Value}
    (leads : Leads registry root steps result) (conforms : value.Conforms registry root) :
    Leads registry root (applyAll path steps value).2 result ∧
      ∀ found, (applyAll path steps value).1 = .ok found → found.Conforms registry result := by
  induction leads generalizing value with
  | done type =>
    refine ⟨.done type, fun found success => ?_⟩
    cases success
    exact conforms
  | loose type steps => exact ⟨.loose type _, fun found _ => .any found⟩
  | @member type segment found rest result known listed onward ih =>
    rcases conforms.null_or_record with rfl | ⟨record, rfl, same, held⟩
    · refine ⟨.member known listed onward, fun found success => ?_⟩
      cases success
      exact .null result
    · have applied : (member type.name segment found.name).apply path (.object record) =
          (.ok ((record.get? found.name).getD .null), member type.name segment found.name) := by
        simp [apply, bind, lookUp, same]
      obtain ⟨steps, finds⟩ := ih (held type known found listed)
      simp only [applyAll, applied, Value.isNull, Bool.false_eq_true, if_false]
      exact ⟨.member known listed steps, finds⟩

end Step

namespace Accessor

variable {registry : TypeRegistry} {accessor : Accessor}

/-- The steps of the accessor lead from its root type to its result type. -/
def Leads (registry : TypeRegistry) (accessor : Accessor) : Prop :=
  Step.Leads registry accessor.rootType accessor.steps accessor.resultType

theorem resolve_leads {path : AccessorPath} {root : DataType} (named : registry.Named)
    (resolved : resolve path root registry = .ok accessor) : accessor.rootType = root ∧ accessor.Leads registry := by
  obtain ⟨steps, result, found, rfl⟩ := exists_of_resolve resolved
  exact ⟨rfl, Step.ofSegments_leads named found⟩

/-- On a value that conforms to its root type an accessor finds one that conforms to its result type, and stays one
that does. -/
theorem get_conforms {value : Value} (leads : accessor.Leads registry)
    (conforms : value.Conforms registry accessor.rootType) :
    (accessor.get value).2.Leads registry ∧
      ∀ found, (accessor.get value).1 = .ok found → found.Conforms registry accessor.resultType :=
  Step.applyAll_conforms leads conforms

end Accessor

end RecordQuery
