import Mathlib.Data.List.Induction
import Mathlib.Data.Nat.Find
import Mathlib.Tactic.SplitIfs
import RecordQuery.Proofs.Accessor.Steps
/-! What an accessor finds after it has been used on other values. Use binds dotted names that were left open, and
nothing else of it can be seen later: only a map that reaches a bound name is answered in another way. -/

namespace RecordQuery

namespace Step

/-- The values that steps are applied to, each with the step at its place. -/
def inputs (path : String) : List Step → Value → List Value
  | [], _ => []
  | step :: rest, value =>
    if value.isNull then []
    else
      match (step.apply path value).1 with
      | .error _ => [value]
      | .ok found => value :: inputs path rest found

/-- A map reaches the place of a dotted name that was left open and has been bound since. -/
def MissesAt (path : String) (fresh used : List Step) (value : Value) (place : Nat) (name : String) : Prop :=
  fresh[place]? = some (deferred name) ∧ used[place]? ≠ some (deferred name) ∧
    ∃ entries, (inputs path fresh value)[place]? = some (.map entries)

variable {types : String → RecordType} {path : String} {fresh used : List Step}

/-- Applying steps changes each by the value that reached it. -/
theorem applyAll_getElem? (path : String) (steps : List Step) (value : Value) (place : Nat) :
    (applyAll path steps value).2[place]? =
      match steps[place]?, (inputs path steps value)[place]? with
      | some step, some input => some (step.apply path input).2
      | found, _ => found := by
  induction steps generalizing value place with
  | nil => simp [applyAll]
  | cons step rest ih =>
    by_cases null : value.isNull = true
    · rw [applyAll, inputs, if_pos null, if_pos null]
      cases found : (step :: rest)[place]? <;> simp
    · rw [applyAll, inputs, if_neg null, if_neg null]
      rcases applied : step.apply path value with ⟨error | found, next⟩
      · cases place with
        | zero => simp [applied]
        | succ place => cases later : rest[place]? <;> simp [later]
      · cases place with
        | zero => simp [applied]
        | succ place => simpa using ih found place

theorem applyAll_became {value : Value} (became : List.Forall₂ (Became types) fresh used)
    (reads : ∀ step ∈ fresh, step.Reads types) (described : value.Follows types) :
    List.Forall₂ (Became types) fresh (applyAll path used value).2 := by
  induction became generalizing value with
  | nil => exact .nil
  | @cons first step fresh used head tail ih =>
    rw [applyAll]
    split
    · exact .cons head tail
    · have next : Became types first (step.apply path value).2 :=
        head.apply (reads first (List.mem_cons_self ..)) described
      have rest : ∀ step ∈ fresh, step.Reads types := fun step member => reads step (List.mem_cons_of_mem _ member)
      have follows : ∀ found, (step.apply path value).1 = .ok found → found.Follows types :=
        fun found success => apply_follows described success
      rcases applied : step.apply path value with ⟨error | found, bound⟩ <;> rw [applied] at next follows
      · exact .cons next tail
      · exact .cons next (ih rest (follows found rfl))

/-- The first step that is not missed finds what the fresh one finds. -/
theorem apply_eq_of_not_missed {first step : Step} {value : Value} (became : Became types first step)
    (reads : first.Reads types) (described : value.Follows types) (present : value.isNull = false)
    (kept : ∀ name, ¬MissesAt path (first :: fresh) (step :: used) value 0 name) :
    (step.apply path value).1 = (first.apply path value).1 := by
  by_cases object : ∃ record, value = .object record
  · obtain ⟨record, rfl⟩ := object
    exact became.apply_record reads described.record
  · refine became.apply_other (fun record same => object ⟨record, same⟩) fun name entries opened map => ?_
    by_contra other
    subst opened map
    refine kept name ⟨rfl, ?_, entries, ?_⟩
    · simpa using other
    · simp [inputs, Value.isNull, Step.apply, Step.lookUp]

theorem missesAt_succ {first step : Step} {value found : Value} {place : Nat} {name : String}
    (present : value.isNull = false) (success : (first.apply path value).1 = .ok found) :
    MissesAt path (first :: fresh) (step :: used) value (place + 1) name ↔
      MissesAt path fresh used found place name := by
  simp [MissesAt, inputs, present, success]

/-- Steps that are missed by no map find what the fresh ones find. -/
theorem applyAll_eq_of_not_missed {value : Value} (became : List.Forall₂ (Became types) fresh used)
    (reads : ∀ step ∈ fresh, step.Reads types) (described : value.Follows types)
    (kept : ∀ place name, ¬MissesAt path fresh used value place name) :
    (applyAll path used value).1 = (applyAll path fresh value).1 := by
  induction became generalizing value with
  | nil => rfl
  | @cons first step fresh used head tail ih =>
    rw [applyAll, applyAll]
    cases null : value.isNull with
    | true => rfl
    | false =>
      have own := reads first (List.mem_cons_self ..)
      have same := apply_eq_of_not_missed head own described null (kept 0)
      rcases unused : first.apply path value with ⟨error | found, next⟩ <;>
        rcases applied : step.apply path value with ⟨error' | found', next'⟩ <;>
        rw [unused, applied] at same <;> cases same
      · rfl
      · have success : (first.apply path value).1 = .ok found := by rw [unused]
        have inside := apply_follows described success
        exact ih (fun step member => reads step (List.mem_cons_of_mem _ member)) inside fun place name missed =>
          kept (place + 1) name ((missesAt_succ null success).mpr missed)

/-- The first missed place refuses the map. -/
theorem applyAll_of_missed {value : Value} {place : Nat} {name : String}
    (became : List.Forall₂ (Became types) fresh used) (reads : ∀ step ∈ fresh, step.Reads types)
    (described : value.Follows types) (missed : MissesAt path fresh used value place name)
    (kept : ∀ earlier < place, ∀ other, ¬MissesAt path fresh used value earlier other) :
    (applyAll path used value).1 = .error (mapRefused path name) := by
  induction became generalizing value place with
  | nil => cases missed.1
  | @cons first step fresh used head tail ih =>
    have null : value.isNull = false := by
      obtain ⟨-, -, entries, reached⟩ := missed
      cases null : value.isNull with
      | false => rfl
      | true => simp [inputs, null] at reached
    rw [applyAll, if_neg (by simp [null])]
    cases place with
    | zero =>
      obtain ⟨opened, changed, entries, reached⟩ := missed
      have input : value = .map entries := by
        rw [inputs, if_neg (by simp [null])] at reached
        split at reached <;> simpa using reached
      cases head with
      | same => exact absurd opened changed
      | bound =>
        cases opened
        subst input
        rfl
    | succ place =>
      have own := reads first (List.mem_cons_self ..)
      have same := apply_eq_of_not_missed head own described null fun name => kept 0 (Nat.succ_pos place) name
      cases unused : (first.apply path value).1 with
      | error error =>
        obtain ⟨-, -, entries, reached⟩ := missed
        simp [inputs, null, unused] at reached
      | ok found =>
        rw [unused] at same
        rcases applied : step.apply path value with ⟨result, bound⟩
        rw [applied] at same
        cases same
        exact ih (fun step member => reads step (List.mem_cons_of_mem _ member)) (apply_follows described unused)
          ((missesAt_succ null unused).mp missed) fun earlier before other missed =>
            kept (earlier + 1) (Nat.succ_lt_succ before) other ((missesAt_succ null unused).mpr missed)

theorem bind_ok {step next : Step} {record : Record} (bound : step.bind record = .ok next) :
    next = step ∨ ∃ owner segment name, next = member owner segment name := by
  unfold Step.bind at bound
  dsimp only at bound
  split_ifs at bound
  · cases resolved : record.type.resolve? step.text with
    | none =>
      rw [resolved] at bound
      cases bound
    | some found =>
      rw [resolved] at bound
      cases bound
      exact .inr ⟨_, _, _, rfl⟩
  · cases bound
    exact .inl rfl

/-- A dotted name left open is bound by a record that has a member for it, and by nothing else. -/
theorem apply_ne_deferred_iff {step : Step} {name : String} {input : Value} :
    (step.apply path input).2 ≠ deferred name ↔
      step ≠ deferred name ∨ ∃ record, input = .object record ∧ (record.type.resolve? name).isSome := by
  by_cases opened : step = deferred name
  · subst opened
    cases input with
    | object record => cases resolved : record.type.resolve? name <;> simp [Step.apply, Step.bind, Step.text, resolved]
    | _ => simp [Step.apply]
  · refine ⟨fun _ => .inl opened, fun _ => ?_⟩
    cases input with
    | object record =>
      simp only [Step.apply]
      cases bound : step.bind record with
      | error => exact opened
      | ok next =>
        rcases bind_ok bound with rfl | ⟨owner, segment, found, rfl⟩
        · exact opened
        · simp
    | _ => simpa [Step.apply] using opened

end Step

namespace Accessor

/-- The accessor as it is after use on values, one after the other. -/
def after (accessor : Accessor) (history : List Value) : Accessor :=
  history.foldl (fun used value => (used.get value).2) accessor

/-- The values that the steps of an accessor are applied to. -/
def inputs (accessor : Accessor) (value : Value) : List Value := Step.inputs accessor.path.text accessor.steps value

/-- A value of the history led a place of the accessor to a record with a member of the name. -/
def Led (accessor : Accessor) (history : List Value) (place : Nat) (name : String) : Prop :=
  ∃ earlier value later record, history = earlier ++ value :: later ∧
    ((accessor.after earlier).inputs value)[place]? = some (.object record) ∧ (record.type.resolve? name).isSome

/-- The history has bound a dotted name that was left open. -/
def BoundBy (accessor : Accessor) (history : List Value) (place : Nat) (name : String) : Prop :=
  accessor.steps[place]? = some (.deferred name) ∧ accessor.Led history place name

/-- The value leads to a map at the place of a dotted name that the history has bound. -/
def Misses (accessor : Accessor) (history : List Value) (value : Value) (place : Nat) (name : String) : Prop :=
  accessor.BoundBy history place name ∧ ∃ entries, (accessor.inputs value)[place]? = some (.map entries)

/-- The first place at which a value misses. -/
def FirstMiss (accessor : Accessor) (history : List Value) (value : Value) (place : Nat) (name : String) : Prop :=
  accessor.Misses history value place name ∧ ∀ earlier < place, ∀ other, ¬accessor.Misses history value earlier other

variable {types : String → RecordType} {accessor : Accessor} {registry : TypeRegistry} {root : DataType}
  {path : AccessorPath}

theorem after_append_singleton (accessor : Accessor) (history : List Value) (value : Value) :
    accessor.after (history ++ [value]) = ((accessor.after history).get value).2 := by
  simp [after]

theorem after_path (accessor : Accessor) (history : List Value) : (accessor.after history).path = accessor.path := by
  induction history using List.reverseRecOn with
  | nil => rfl
  | append_singleton history value ih => rw [after_append_singleton]; exact ih

theorem resolve_reads (known : registry.Follows types) (resolved : resolve path root registry = .ok accessor) :
    ∀ step ∈ accessor.steps, step.Reads types := by
  obtain ⟨steps, result, found, rfl⟩ := exists_of_resolve resolved
  exact Step.ofSegments_reads known found

/-- Over any history each step stays the fresh one or its segment bound to a record type. -/
theorem after_became {history : List Value} (reads : ∀ step ∈ accessor.steps, step.Reads types)
    (described : ∀ value ∈ history, value.Follows types) :
    List.Forall₂ (Step.Became types) accessor.steps (accessor.after history).steps := by
  induction history using List.reverseRecOn with
  | nil => exact List.forall₂_same.mpr fun _ _ => .same
  | append_singleton history value ih =>
    rw [after_append_singleton]
    have earlier := ih fun value member => described value (List.mem_append_left _ member)
    exact Step.applyAll_became earlier reads (described value (by simp))

theorem led_append_singleton (accessor : Accessor) (history : List Value) (value : Value) (place : Nat)
    (name : String) : accessor.Led (history ++ [value]) place name ↔ accessor.Led history place name ∨
      ∃ record, ((accessor.after history).inputs value)[place]? = some (.object record) ∧
        (record.type.resolve? name).isSome := by
  constructor
  · rintro ⟨earlier, leading, later, record, whole, reached, found⟩
    rcases List.eq_nil_or_concat later with rfl | ⟨later, last, rfl⟩
    · obtain ⟨rfl, same⟩ := List.append_inj' whole rfl
      cases same
      exact .inr ⟨record, reached, found⟩
    · rw [List.concat_eq_append, ← List.cons_append, ← List.append_assoc] at whole
      exact .inl ⟨earlier, leading, later, record, (List.append_inj' whole rfl).1, reached, found⟩
  · rintro (⟨earlier, leading, later, record, rfl, reached, found⟩ | ⟨record, reached, found⟩)
    · exact ⟨earlier, leading, later ++ [value], record, by simp, reached, found⟩
    · exact ⟨history, value, [], record, rfl, reached, found⟩

theorem after_steps_length (accessor : Accessor) (history : List Value) (place : Nat) :
    (accessor.after history).steps[place]? = none ↔ accessor.steps[place]? = none := by
  induction history using List.reverseRecOn with
  | nil => rfl
  | append_singleton history value ih =>
    rw [← ih, after_append_singleton, Accessor.get, Step.applyAll_getElem?]
    split <;> simp_all

/-- A dotted name that was left open is bound exactly when a value of the history led it to a record with a member
for it. -/
theorem led_iff {history : List Value} {place : Nat} {name : String}
    (opened : accessor.steps[place]? = some (.deferred name)) :
    accessor.Led history place name ↔ (accessor.after history).steps[place]? ≠ some (.deferred name) := by
  induction history using List.reverseRecOn with
  | nil => simp [Led, after, opened]
  | append_singleton history value ih =>
    rw [led_append_singleton, ih, after_append_singleton, Accessor.get, Step.applyAll_getElem?, inputs]
    cases present : (accessor.after history).steps[place]? with
    | none => simp [(after_steps_length accessor history place).mp present] at opened
    | some step =>
      cases reached : (Step.inputs (accessor.after history).path.text (accessor.after history).steps value)[place]? with
      | none => simp
      | some input => simp [Step.apply_ne_deferred_iff]

theorem misses_iff {history : List Value} {value : Value} {place : Nat} {name : String} :
    accessor.Misses history value place name ↔
      Step.MissesAt accessor.path.text accessor.steps (accessor.after history).steps value place name := by
  constructor
  · rintro ⟨⟨opened, led⟩, reached⟩
    exact ⟨opened, (led_iff opened).mp led, reached⟩
  · rintro ⟨opened, changed, reached⟩
    exact ⟨⟨opened, (led_iff opened).mpr changed⟩, reached⟩

theorem exists_firstMiss {history : List Value} {value : Value}
    (missed : ∃ place name, accessor.Misses history value place name) :
    ∃ place name, accessor.FirstMiss history value place name := by
  classical
  obtain ⟨name, here⟩ := Nat.find_spec missed
  exact ⟨_, name, here, fun earlier less other before => Nat.find_min missed less ⟨other, before⟩⟩

theorem get_after_of_not_misses {history : List Value} {value : Value}
    (reads : ∀ step ∈ accessor.steps, step.Reads types) (described : ∀ used ∈ history, used.Follows types)
    (asked : value.Follows types) (kept : ∀ place name, ¬accessor.Misses history value place name) :
    ((accessor.after history).get value).1 = (accessor.get value).1 := by
  have became := after_became reads described
  simp only [Accessor.get, after_path]
  exact Step.applyAll_eq_of_not_missed became reads asked fun place name missed =>
    kept place name (misses_iff.mpr missed)

/-- The map at the first miss is refused. -/
theorem get_after_of_firstMiss {history : List Value} {value : Value} {place : Nat} {name : String}
    (reads : ∀ step ∈ accessor.steps, step.Reads types) (described : ∀ used ∈ history, used.Follows types)
    (asked : value.Follows types) (missed : accessor.FirstMiss history value place name) :
    ((accessor.after history).get value).1 = .error (Step.mapRefused accessor.path.text name) := by
  have became := after_became reads described
  simp only [Accessor.get, after_path]
  exact Step.applyAll_of_missed became reads asked (misses_iff.mp missed.1) fun earlier before other here =>
    missed.2 earlier before other (misses_iff.mpr here)

/-- What an accessor finds after use on other values is what the fresh one finds, unless a dotted name that an
earlier value bound to a record type now meets a map: that map is refused. -/
theorem get_after_eq_iff {history : List Value} {value : Value} (known : registry.Follows types)
    (resolved : resolve path root registry = .ok accessor) (described : ∀ used ∈ history, used.Follows types)
    (asked : value.Follows types) :
    ((accessor.after history).get value).1 = (accessor.get value).1 ↔
      ∀ place name, accessor.FirstMiss history value place name →
        (accessor.get value).1 = .error (Step.mapRefused accessor.path.text name) := by
  have reads := resolve_reads known resolved
  constructor
  · intro same place name missed
    rw [← same]
    exact get_after_of_firstMiss reads described asked missed
  · intro refused
    by_cases missed : ∃ place name, accessor.Misses history value place name
    · obtain ⟨place, name, first⟩ := exists_firstMiss missed
      rw [refused place name first]
      exact get_after_of_firstMiss reads described asked first
    · exact get_after_of_not_misses reads described asked fun place name here => missed ⟨place, name, here⟩

/-- A record whose only member is its city. -/
def recordIn (typeName city : String) : Record := ⟨typeName, [(⟨"city", .field, .string⟩, .string city)], none⟩

/-- Reads a city of whatever it is applied to. -/
def ofCity : Accessor := ⟨⟨"city", [.name "city"]⟩, .any, .any, [.deferred "city"]⟩

theorem recordIn_follows (typeName city : String) :
    (Value.object (recordIn typeName city)).Follows fun name => ⟨name, [⟨"city", .field, .string⟩]⟩ := by
  intro record inside
  rw [recordIn, Value.records, recordsOfFields, recordsOfFields] at inside
  simp only [Value.records, List.append_nil, List.mem_singleton] at inside
  subst inside
  rfl

theorem get_after_eq_iff_on_records :
    TypeRegistry.empty.Follows (fun name => ⟨name, [⟨"city", .field, .string⟩]⟩) ∧
      resolve ⟨"city", [.name "city"]⟩ .any .empty = .ok ofCity ∧
      ((ofCity.after [.object (recordIn "Address" "Rome")]).get (.object (recordIn "Office" "Oslo"))).1 =
        (ofCity.get (.object (recordIn "Office" "Oslo"))).1 := by
  have known : TypeRegistry.empty.Follows fun name => ⟨name, [⟨"city", .field, .string⟩]⟩ := by
    intro name type present
    cases present
  have resolved : resolve ⟨"city", [.name "city"]⟩ .any .empty = .ok ofCity := rfl
  refine ⟨known, resolved, (get_after_eq_iff known resolved ?_ (recordIn_follows "Office" "Oslo")).mpr ?_⟩
  · intro used member
    cases List.mem_singleton.mp member
    exact recordIn_follows "Address" "Rome"
  · rintro place name ⟨⟨-, entries, reached⟩, -⟩
    cases place with
    | zero => cases reached
    | succ place => cases reached

/-- The fresh accessor finds the city of a map; bound to a record type before, it refuses the map. -/
theorem get_map_after_record :
    resolve ⟨"city", [.name "city"]⟩ .any .empty = .ok ofCity ∧
      (Value.map [(.string "city", .string "Oslo")]).records = [] ∧
      (ofCity.get (.map [(.string "city", .string "Oslo")])).1 = .ok (.string "Oslo") ∧
      ((ofCity.after [.object (recordIn "Address" "Rome")]).get (.map [(.string "city", .string "Oslo")])).1 =
        .error (Step.mapRefused "city" "city") := by
  refine ⟨rfl, rfl, ?_, ?_⟩
  · rfl
  · rfl

end Accessor

end RecordQuery
