import Mathlib.Data.List.Forall2
import RecordQuery.Accessor
import RecordQuery.Proofs.Evaluation.Outcome
import RecordQuery.Proofs.Value.Records
/-! What the steps of an accessor can become as they are applied. A dotted name binds itself to the type of the
records it meets; from then on it reads records as before, but no maps. -/

namespace RecordQuery

/-- The types of a registry are described as their names say. -/
def TypeRegistry.Follows (registry : TypeRegistry) (types : String → RecordType) : Prop :=
  ∀ name type, registry.get? name = some type → type = types name ∧ type.name = name

namespace Step

/-- Whether a step stands for a dotted name that binds itself to record types. -/
def binds : Step → Bool
  | member .. | deferred _ => true
  | entry _ | index _ | key _ => false

/-- A member step leads to the member that its segment stands for on its owner. -/
def Reads (types : String → RecordType) : Step → Prop
  | member owner segment name => ((types owner).resolve? segment).map (·.name) = some name
  | _ => True

/-- What use can make of a step: the step itself, or its segment bound to a record type. -/
inductive Became (types : String → RecordType) (fresh : Step) : Step → Prop where
  | same : Became types fresh fresh
  | bound {owner : String} {found : Member} (binds : fresh.binds = true)
      (resolved : (types owner).resolve? fresh.text = some found) :
      Became types fresh (member owner fresh.text found.name)

/-- A step used where a dotted name was left open answers that it cannot be applied to a map. -/
def mapRefused (path name : String) : Error := .accessorMismatch (path ++ " at " ++ name) DataType.map.text

variable {types : String → RecordType} {path : String} {fresh used : Step}

/-- Segments are resolved in turn, each on the type that the one before it leads to. -/
theorem exists_of_ofSegments_cons {written : AccessorPath} {registry : TypeRegistry} {segment : Segment}
    {rest : List Segment} {current result : DataType} {steps : List Step}
    (resolved : ofSegments written registry (segment :: rest) current = .ok (steps, result)) :
    ∃ head next tail, ofSegment written segment current registry = .ok (head, next) ∧
      ofSegments written registry rest next = .ok (tail, result) ∧ steps = head :: tail := by
  obtain ⟨⟨head, next⟩, first, resolved⟩ := Except.bind_eq_ok resolved
  obtain ⟨⟨tail, last⟩, later, resolved⟩ := Except.bind_eq_ok resolved
  cases resolved
  exact ⟨head, next, tail, first, later, rfl⟩

theorem ofName_reads {name : String} {current next : DataType} {registry : TypeRegistry} {step : Step}
    (known : registry.Follows types) (resolved : ofName name current registry = .ok (step, next)) :
    step.Reads types := by
  unfold ofName at resolved
  split at resolved
  · split at resolved
    · cases resolved
      trivial
    · rename_i typeName type present
      obtain ⟨described, named⟩ := known _ _ present
      split at resolved
      · rename_i found member
        cases resolved
        simp only [Reads, named, ← described, member, Option.map_some]
      · cases resolved
  · cases resolved
    trivial
  · cases resolved
    trivial
  · cases resolved

theorem ofSegment_reads {written : AccessorPath} {segment : Segment} {current next : DataType}
    {registry : TypeRegistry} {step : Step} (known : registry.Follows types)
    (resolved : ofSegment written segment current registry = .ok (step, next)) : step.Reads types := by
  unfold ofSegment at resolved
  split at resolved
  · exact ofName_reads known resolved
  all_goals cases resolved
  all_goals trivial

theorem ofSegments_reads {written : AccessorPath} {segments : List Segment} {current result : DataType}
    {registry : TypeRegistry} {steps : List Step} (known : registry.Follows types)
    (resolved : ofSegments written registry segments current = .ok (steps, result)) :
    ∀ step ∈ steps, step.Reads types := by
  induction segments generalizing current steps result with
  | nil =>
    cases resolved
    simp
  | cons segment rest ih =>
    obtain ⟨head, next, tail, first, later, rfl⟩ := exists_of_ofSegments_cons resolved
    intro step member
    rcases List.mem_cons.mp member with own | other
    · subst own
      exact ofSegment_reads known first
    · exact ih later step other

theorem Became.text (became : Became types fresh used) : used.text = fresh.text := by
  cases became <;> rfl

theorem Became.binds (became : Became types fresh used) : used.binds = fresh.binds := by
  cases became with
  | same => rfl
  | bound binds _ => rw [binds]; rfl

theorem Became.reads (became : Became types fresh used) (reads : fresh.Reads types) : used.Reads types := by
  cases became with
  | same => exact reads
  | bound _ resolved => simp [Reads, resolved]

/-- A dotted name on a record is the member that the record's type has for it, whatever it was bound to. -/
theorem bind_of_binds {step : Step} {record : Record} (binds : step.binds = true) (reads : step.Reads types)
    (described : record.type = types record.typeName) :
    step.bind record = match record.type.resolve? step.text with
      | some found => .ok (member record.typeName step.text found.name)
      | none => .error (.unresolvedMember step.text record.typeName) := by
  cases step with
  | member owner segment name =>
    by_cases same : owner = record.typeName
    · subst owner
      simp only [Reads, ← described, Option.map_eq_some_iff] at reads
      obtain ⟨found, resolved, named⟩ := reads
      simp [Step.bind, Step.text, resolved, named]
    · exact if_pos (bne_iff_ne.mpr same)
  | deferred name => rfl
  | entry _ | index _ | key _ => simp [Step.binds] at binds

theorem bind_of_not_binds {step : Step} (record : Record) (fixed : step.binds = false) :
    step.bind record = .ok step := by
  cases step <;> simp [Step.bind, Step.binds] at *

/-- On a record a step finds what the fresh one finds. -/
theorem Became.apply_record {record : Record} (became : Became types fresh used) (reads : fresh.Reads types)
    (described : record.type = types record.typeName) :
    (used.apply path (.object record)).1 = (fresh.apply path (.object record)).1 := by
  cases binding : fresh.binds with
  | false =>
    cases became with
    | same => rfl
    | bound binds _ => simp [binding] at binds
  | true =>
    have own := bind_of_binds binding reads described
    have other := bind_of_binds (became.binds.trans binding) (became.reads reads) described
    rw [became.text] at other
    simp only [Step.apply, own, other]
    cases record.type.resolve? fresh.text <;> rfl

/-- On anything but a record a step finds what the fresh one finds, unless it has been bound and finds a map. -/
theorem Became.apply_other {value : Value} (became : Became types fresh used)
    (other : ∀ record, value ≠ .object record)
    (open_ : ∀ name entries, fresh = deferred name → value = .map entries → used = fresh) :
    (used.apply path value).1 = (fresh.apply path value).1 := by
  cases became with
  | same => rfl
  | bound binds _ =>
    cases fresh with
    | entry _ | index _ | key _ => simp [Step.binds] at binds
    | member => cases value <;> simp_all [Step.apply, lookUp, Step.text]
    | deferred => cases value <;> simp_all [Step.apply, lookUp, Step.text]

/-- A step stays what a fresh one can become. -/
theorem Became.apply {value : Value} (became : Became types fresh used) (reads : fresh.Reads types)
    (described : value.Follows types) : Became types fresh (used.apply path value).2 := by
  cases value with
  | object record =>
    cases binding : fresh.binds with
    | false =>
      have bound := bind_of_not_binds record (became.binds.trans binding)
      simpa only [Step.apply, bound] using became
    | true =>
      have bound := bind_of_binds (became.binds.trans binding) (became.reads reads) described.record
      rw [became.text] at bound
      cases resolved : record.type.resolve? fresh.text with
      | none =>
        rw [resolved] at bound
        simpa only [Step.apply, bound] using became
      | some found =>
        rw [resolved] at bound
        simp only [Step.apply, bound]
        rw [described.record] at resolved
        exact .bound binding resolved
  | _ => simpa only [Step.apply] using became

/-- What a step finds is part of the value it is applied to. -/
theorem lookUp_follows {step : Step} {value found : Value} (described : value.Follows types)
    (success : step.lookUp path value = .ok found) : found.Follows types := by
  unfold lookUp at success
  split at success <;> cases success
  · exact described.field _
  · exact described.entry _
  · exact described.entry _
  · split
    · exact Value.follows_null types
    · exact described.item _
  · exact described.entry _
  · exact described.entry _

theorem apply_follows {step : Step} {value found : Value} (described : value.Follows types)
    (success : (step.apply path value).1 = .ok found) : found.Follows types := by
  unfold apply at success
  split at success
  · split at success
    · cases success
    · exact lookUp_follows described success
  · exact lookUp_follows described success

end Step

/-- A path is resolved to the steps of its segments on the root type. -/
theorem Accessor.exists_of_resolve {path : AccessorPath} {root : DataType} {registry : TypeRegistry}
    {accessor : Accessor} (resolved : resolve path root registry = .ok accessor) :
    ∃ steps result, Step.ofSegments path registry path.segments root = .ok (steps, result) ∧
      accessor = ⟨path, root, result, steps⟩ := by
  obtain ⟨⟨steps, result⟩, found, resolved⟩ := Except.bind_eq_ok resolved
  cases resolved
  exact ⟨steps, result, found, rfl⟩

end RecordQuery
