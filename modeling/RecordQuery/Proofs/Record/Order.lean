import RecordQuery.Proofs.Value.Equality
import RecordQuery.Record.Basic
/-! Equality and order of records without a natural order. Equality goes by the members of the record on the left, the
order of unequal ones by the name of their type and their text; both are lawful among records exactly where the two
notions agree. -/

namespace RecordQuery

/-- Declaring members one after another declares each once. -/
theorem RecordType.named_withMember {type : RecordType} (named : (type.members.map (·.name)).Nodup) (member : Member) :
    ((type.withMember member).members.map (·.name)).Nodup := by
  have others : ((type.members.filter (·.name != member.name)).map (·.name)).Nodup :=
    named.sublist (List.filter_sublist.map _)
  rw [withMember, List.map_append]
  refine List.nodup_append.mpr ⟨others, by simp, ?_⟩
  intro name old _ new same
  obtain ⟨other, kept, rfl⟩ := List.mem_map.mp old
  have differs : other.name ≠ member.name := by simpa using (List.mem_filter.mp kept).2
  exact differs (same.trans (by simpa using new))

namespace RecordOf

def names (record : Record) : List String := record.fields.map (·.1.name)

/-- A record as a description of its members and values for them make it: every member once, no natural order. Its
values hold no records. -/
structure Dynamic (record : Record) : Prop where
  unordered : record.orderedBy = none
  named : record.names.Nodup
  plain : ∀ field ∈ record.fields, field.2.records = []

instance (record : Record) : Decidable record.Dynamic :=
  decidable_of_iff (record.orderedBy = none ∧ record.names.Nodup ∧ ∀ field ∈ record.fields, field.2.records = [])
    ⟨fun ⟨unordered, named, plain⟩ => ⟨unordered, named, plain⟩,
      fun ⟨unordered, named, plain⟩ => ⟨unordered, named, plain⟩⟩

theorem names_eq (record : Record) : record.names = record.type.members.map (·.name) := by
  simp [names, RecordOf.type]

theorem dynamic_ofType {type : RecordType} (named : (type.members.map (·.name)).Nodup) : (ofType type).Dynamic where
  unordered := rfl
  named := by simpa [names, ofType, Function.comp_def] using named
  plain := by simp [ofType, Value.records]

theorem Dynamic.put {record : Record} {value : Value} (dynamic : record.Dynamic) (name : String)
    (plain : value.records = []) : (record.put name value).Dynamic where
  unordered := dynamic.unordered
  named := by simpa [names, RecordOf.put, Function.comp_def] using dynamic.named
  plain := by
    intro changed present
    obtain ⟨field, old, rfl⟩ := List.mem_map.mp present
    by_cases here : field.1.name == name
    · simpa [here] using plain
    · simpa [here] using dynamic.plain field old

theorem Dynamic.assign {record result : Record} {property : String} {value : Value} (dynamic : record.Dynamic)
    (plain : value.records = []) (assigned : record.assign property value = .ok result) : result.Dynamic := by
  obtain ⟨member, -, rfl⟩ := exists_of_assign assigned
  exact dynamic.put member.name plain

def text (record : Record) : String := (Value.object record).text

def compare (a b : Record) : Ordering := (Value.object a).compare (.object b)

/-- The order that unequal records fall back to. -/
def compareText (a b : Record) : Ordering := (Ord.compare a.typeName b.typeName).then (Ord.compare a.text b.text)

instance : Std.TransCmp compareText :=
  inferInstanceAs (Std.TransCmp (compareLex (compareOn RecordOf.typeName) (compareOn text)))

variable {a b c : Record}

theorem compare_of_unordered (unordered : a.orderedBy = none) (b : Record) :
    a.compare b = if a.equal b then .eq else a.compareText b := by
  obtain ⟨typeName, fields, orderedBy⟩ := a
  cases unordered
  rfl

theorem mem_of_get? {name : String} {value : Value} (found : a.get? name = some value) :
    ∃ member, (member, value) ∈ a.fields ∧ member.name = name := by
  obtain ⟨⟨member, _⟩, present, rfl⟩ := Option.map_eq_some_iff.mp found
  exact ⟨member, List.mem_of_find?_eq_some present, by simpa using List.find?_some present⟩

theorem get?_of_mem {member : Member} {value : Value} (named : a.names.Nodup)
    (present : (member, value) ∈ a.fields) : a.get? member.name = some value := by
  unfold get?
  unfold names at named
  generalize a.fields = fields at *
  induction fields with
  | nil => cases present
  | cons field rest ih =>
    obtain ⟨fresh, named⟩ := List.nodup_cons.mp named
    rcases List.mem_cons.mp present with rfl | later
    · simp
    · have other : field.1.name ≠ member.name := fun same =>
        fresh (List.mem_map.mpr ⟨(member, value), later, same.symm⟩)
      rw [List.find?_cons_of_neg (by simpa using other)]
      exact ih named later

/-- The text of a record goes through the members that its type declares. -/
theorem text_eq (dynamic : a.Dynamic) :
    a.text = a.typeName ++ "\x7b" ++ ", ".intercalate (a.type.members.map fun member =>
      member.name ++ "=" ++ ((a.get? member.name).getD .null).text) ++ "\x7d" := by
  have parts : textFields a.fields = a.type.members.map fun member =>
      member.name ++ "=" ++ ((a.get? member.name).getD .null).text := by
    rw [textFields_eq, RecordOf.type, List.map_map]
    refine List.map_congr_left fun field present => ?_
    have found : a.get? field.1.name = some field.2 := get?_of_mem dynamic.named present
    simp [found]
  rw [← parts]
  rfl

theorem plain_of_get? {name : String} {value : Value} (dynamic : a.Dynamic) (found : a.get? name = some value) :
    value.records = [] := by
  obtain ⟨member, present, -⟩ := mem_of_get? found
  exact dynamic.plain (member, value) present

theorem mem_names_iff {name : String} : name ∈ a.names ↔ ∃ value, a.get? name = some value := by
  constructor
  · intro declared
    obtain ⟨field, present, rfl⟩ := List.mem_map.mp declared
    have found : (a.fields.find? (·.1.name == field.1.name)).isSome := by
      rw [List.find?_isSome]
      exact ⟨field, present, beq_self_eq_true _⟩
    obtain ⟨first, found⟩ := Option.isSome_iff_exists.mp found
    exact ⟨first.2, by simp [get?, found]⟩
  · rintro ⟨value, found⟩
    obtain ⟨member, present, rfl⟩ := mem_of_get? found
    exact List.mem_map.mpr ⟨_, present, rfl⟩

theorem equalFields_iff (fields : List (Member × Value)) (other : Record) :
    equalFields fields other = true ↔
      ∀ member value, (member, value) ∈ fields →
        ∃ found, other.get? member.name = some found ∧ value.equal found = true := by
  induction fields with
  | nil => simp [equalFields]
  | cons field rest ih =>
    rw [equalFields, Bool.and_eq_true, ih]
    cases present : other.get? field.1.name with
    | none => simpa using ⟨field.1, field.2, .inl rfl, fun _ _ => by simp_all⟩
    | some found =>
      constructor
      · rintro ⟨same, others⟩ member value (_ | later)
        · exact ⟨found, present, same⟩
        · exact others member value ‹_›
      · intro all
        refine ⟨?_, fun member value later => all member value (List.mem_cons_of_mem _ later)⟩
        obtain ⟨found', present', same⟩ := all field.1 field.2 List.mem_cons_self
        cases present.symm.trans present'
        exact same

/-- A record equals another of its type in which each of its own members has an equal value. -/
theorem equal_iff (dynamic : a.Dynamic) (b : Record) :
    a.equal b = true ↔ a.typeName = b.typeName ∧
      ∀ name value, a.get? name = some value → ∃ found, b.get? name = some found ∧ value.equal found = true := by
  have unfolded : a.equal b = (a.typeName == b.typeName && equalFields a.fields b) := by
    obtain ⟨typeName, fields, orderedBy⟩ := a
    cases dynamic.unordered
    rfl
  rw [unfolded, Bool.and_eq_true, beq_iff_eq, equalFields_iff]
  refine and_congr_right fun _ => ⟨fun all name value found => ?_, fun all member value present => ?_⟩
  · obtain ⟨member, present, rfl⟩ := mem_of_get? found
    exact all member value present
  · exact all _ _ (get?_of_mem dynamic.named present)

theorem equal_refl (dynamic : a.Dynamic) : a.equal a = true :=
  (equal_iff dynamic a).mpr ⟨rfl, fun _ value found => ⟨value, found, Value.equal_refl (plain_of_get? dynamic found)⟩⟩

theorem equal_trans (first : a.Dynamic) (second : b.Dynamic) (third : c.Dynamic) (left : a.equal b = true)
    (right : b.equal c = true) : a.equal c = true := by
  obtain ⟨type, left⟩ := (equal_iff first b).mp left
  obtain ⟨type', right⟩ := (equal_iff second c).mp right
  refine (equal_iff first c).mpr ⟨type.trans type', fun name x found => ?_⟩
  obtain ⟨y, found', same⟩ := left name x found
  obtain ⟨z, found'', same'⟩ := right name y found'
  exact ⟨z, found'', Value.equal_trans (plain_of_get? first found) (plain_of_get? second found')
    (plain_of_get? third found'') same same'⟩

/-- Equality holds from the other side too exactly if the other record has no more members. -/
theorem equal_symm_iff (first : a.Dynamic) (second : b.Dynamic) (same : a.equal b = true) :
    b.equal a = true ↔ b.names ⊆ a.names := by
  obtain ⟨type, left⟩ := (equal_iff first b).mp same
  rw [equal_iff second a]
  constructor
  · rintro ⟨-, right⟩ name declared
    obtain ⟨value, found⟩ := mem_names_iff.mp declared
    obtain ⟨found', present, -⟩ := right name value found
    exact mem_names_iff.mpr ⟨found', present⟩
  · refine fun fewer => ⟨type.symm, fun name y found => ?_⟩
    obtain ⟨x, found'⟩ := mem_names_iff.mp (fewer (mem_names_iff.mpr ⟨y, found⟩))
    obtain ⟨y', found'', equal⟩ := left name x found'
    cases found.symm.trans found''
    exact ⟨x, found', Value.equal_comm (plain_of_get? first found') (plain_of_get? second found) ▸ equal⟩

theorem equal_comm (first : a.Dynamic) (second : b.Dynamic) (left : a.equal b = true → b.names ⊆ a.names)
    (right : b.equal a = true → a.names ⊆ b.names) : a.equal b = b.equal a :=
  Bool.eq_iff_iff.mpr ⟨fun same => (equal_symm_iff first second same).mpr (left same),
    fun same => (equal_symm_iff second first same).mpr (right same)⟩

end RecordOf

/-- What grouping and sorting rely on among some records: equality is an equivalence, the order is total, and equal
records have one place in it. -/
structure RecordLaws (among : Record → Prop) : Prop where
  refl : ∀ a, among a → a.equal a = true
  symm : ∀ a b, among a → among b → a.equal b = true → b.equal a = true
  trans : ∀ a b c, among a → among b → among c → a.equal b = true → b.equal c = true → a.equal c = true
  swap : ∀ a b, among a → among b → b.compare a = (a.compare b).swap
  antisymm : ∀ a b, among a → among b → a.compare b ≠ .gt → b.compare a ≠ .gt → a.equal b = true
  le_trans : ∀ a b c, among a → among b → among c → a.compare b ≠ .gt → b.compare c ≠ .gt → a.compare c ≠ .gt
  congr : ∀ a b c, among a → among b → among c → a.equal b = true → a.compare c = b.compare c

/-- Records without a natural order of which no two differ and still have the same type name and text. -/
structure ToldApart (among : Record → Prop) : Prop where
  dynamic : ∀ a, among a → a.Dynamic
  equal : ∀ a b, among a → among b → a.typeName = b.typeName → a.text = b.text → a.equal b = true

/-- Equal records are alike: they have the same members and the same place among the texts of the others of their
type. -/
structure EqualAlike (among : Record → Prop) : Prop where
  members : ∀ a b, among a → among b → a.equal b = true → b.names ⊆ a.names
  texts : ∀ a b c, among a → among b → among c → a.equal b = true → c.typeName = a.typeName → a.equal c = false →
    Ord.compare a.text c.text = Ord.compare b.text c.text

instance (records : List Record) : Decidable (ToldApart (· ∈ records)) :=
  decidable_of_iff ((∀ a ∈ records, a.Dynamic) ∧ ∀ a ∈ records, ∀ b ∈ records, a.typeName = b.typeName →
      a.text = b.text → a.equal b = true)
    ⟨fun ⟨dynamic, equal⟩ => ⟨dynamic, fun a b first => equal a first b⟩, fun ⟨dynamic, equal⟩ =>
      ⟨dynamic, fun a first b => equal a b first⟩⟩

instance (records : List Record) : Decidable (EqualAlike (· ∈ records)) :=
  decidable_of_iff ((∀ a ∈ records, ∀ b ∈ records, a.equal b = true → b.names ⊆ a.names) ∧
      ∀ a ∈ records, ∀ b ∈ records, ∀ c ∈ records, a.equal b = true → c.typeName = a.typeName → a.equal c = false →
        Ord.compare a.text c.text = Ord.compare b.text c.text)
    ⟨fun ⟨members, texts⟩ => ⟨fun a b first => members a first b, fun a b c first second => texts a first b second c⟩,
      fun ⟨members, texts⟩ => ⟨fun a first b => members a b first, fun a first b second c => texts a b c first second⟩⟩

namespace ToldApart

variable {among : Record → Prop} {a b c : Record}

theorem compare_eq (told : ToldApart among) (first : among a) (b : Record) :
    a.compare b = if a.equal b then .eq else a.compareText b :=
  RecordOf.compare_of_unordered (told.dynamic a first).unordered b

theorem typeName_eq (told : ToldApart among) (first : among a) (same : a.equal b = true) : a.typeName = b.typeName :=
  ((RecordOf.equal_iff (told.dynamic a first) b).mp same).1

theorem equal_trans (told : ToldApart among) (first : among a) (second : among b) (third : among c)
    (left : a.equal b = true) (right : b.equal c = true) : a.equal c = true :=
  RecordOf.equal_trans (told.dynamic a first) (told.dynamic b second) (told.dynamic c third) left right

theorem equal_comm (told : ToldApart among) (alike : EqualAlike among) (first : among a) (second : among b) :
    a.equal b = b.equal a :=
  RecordOf.equal_comm (told.dynamic a first) (told.dynamic b second) (alike.members a b first second)
    (alike.members b a second first)

theorem compare_swap (told : ToldApart among) (alike : EqualAlike among) (first : among a) (second : among b) :
    b.compare a = (a.compare b).swap := by
  rw [told.compare_eq first, told.compare_eq second, told.equal_comm alike second first]
  split
  · rfl
  · exact Std.OrientedCmp.eq_swap

/-- Records that are in neither order are equal: unequal ones differ in type name or text. -/
theorem equal_of_compare_eq (told : ToldApart among) (first : among a) (second : among b)
    (level : a.compare b = .eq) : a.equal b = true :=
  ((RecordOf.compare_eq_iff a b).mp level).elim id fun confusable =>
    told.equal a b first second confusable.typeName confusable.text

/-- Equal records are ordered alike with a third one: both equal it, or its type decides, or its text. -/
theorem compare_congr (told : ToldApart among) (alike : EqualAlike among) (first : among a) (second : among b)
    (third : among c) (same : a.equal b = true) : a.compare c = b.compare c := by
  have back : b.equal a = true := told.equal_comm alike first second ▸ same
  have both : a.equal c = b.equal c := Bool.eq_iff_iff.mpr
    ⟨told.equal_trans second first third back, told.equal_trans first second third same⟩
  rw [told.compare_eq first, told.compare_eq second, both]
  split
  · rfl
  · next other =>
    have type := told.typeName_eq first same
    rw [RecordOf.compareText, RecordOf.compareText, type]
    by_cases mine : c.typeName = a.typeName
    · rw [alike.texts a b c first second third same mine (by simpa [both] using other)]
    · have decided : Ord.compare b.typeName c.typeName ≠ .eq := fun equal =>
        mine (type ▸ (Std.LawfulEqOrd.eq_of_compare equal).symm)
      cases verdict : Ord.compare b.typeName c.typeName <;> first | rfl | exact absurd verdict decided

theorem compare_trans (told : ToldApart among) (alike : EqualAlike among) (first : among a) (second : among b)
    (third : among c) (left : a.compare b ≠ .gt) (right : b.compare c ≠ .gt) : a.compare c ≠ .gt := by
  by_cases start : a.equal b = true
  · rwa [told.compare_congr alike first second third start]
  by_cases stop : b.equal c = true
  · have level := told.compare_congr alike second third first stop
    rw [told.compare_swap alike first second, told.compare_swap alike first third, Ordering.swap_inj] at level
    rwa [← level]
  by_cases outer : a.equal c = true
  · rw [told.compare_eq first, if_pos outer]
    nofun
  rw [told.compare_eq first, if_neg start] at left
  rw [told.compare_eq second, if_neg stop] at right
  rw [told.compare_eq first, if_neg outer]
  have below := Ordering.isLE_iff_ne_gt.mpr left
  have above := Ordering.isLE_iff_ne_gt.mpr right
  exact Ordering.isLE_iff_ne_gt.mp (Std.TransCmp.isLE_trans below above)

theorem recordLaws (told : ToldApart among) (alike : EqualAlike among) : RecordLaws among where
  refl a first := RecordOf.equal_refl (told.dynamic a first)
  symm a b first second same := told.equal_comm alike first second ▸ same
  trans a b c first second third := told.equal_trans first second third
  swap a b first second := told.compare_swap alike first second
  antisymm a b first second below above := by
    rw [told.compare_swap alike first second] at above
    refine told.equal_of_compare_eq first second ?_
    cases verdict : a.compare b with
    | lt => simp [verdict] at above
    | eq => rfl
    | gt => exact absurd verdict below
  le_trans a b c first second third := told.compare_trans alike first second third
  congr a b c first second third := told.compare_congr alike first second third

theorem equalAlike (told : ToldApart among) (laws : RecordLaws among) : EqualAlike among where
  members a b first second same :=
    (RecordOf.equal_symm_iff (told.dynamic a first) (told.dynamic b second) same).mp (laws.symm a b first second same)
  texts a b c first second third same type other := by
    have other' : b.equal c = false := by
      rw [← Bool.not_eq_true] at other ⊢
      exact fun equal => other (laws.trans a b c first second third same equal)
    have type' : c.typeName = b.typeName := type.trans (told.typeName_eq first same)
    have level := laws.congr a b c first second third same
    rwa [told.compare_eq first, told.compare_eq second, other, other', RecordOf.compareText, RecordOf.compareText,
      ← type, ← type', Std.ReflOrd.compare_self] at level

end ToldApart

/-- Equal records are alike where a type name stands for one list of members and equal values of a member print the
same. -/
theorem equalAlike_of_described {among : Record → Prop} {types : String → RecordType} (told : ToldApart among)
    (described : ∀ a, among a → a.type = types a.typeName)
    (printed : ∀ a b name v w, among a → among b → a.get? name = some v → b.get? name = some w →
      v.equal w = true → v.text = w.text) : EqualAlike among := by
  have shared (a b : Record) (first : among a) (second : among b) (same : a.equal b = true) : a.type = b.type := by
    rw [described a first, described b second, told.typeName_eq first same]
  constructor
  case members =>
    intro a b first second same
    rw [RecordOf.names_eq, RecordOf.names_eq, shared a b first second same]
    exact List.Subset.refl _
  case texts =>
    intro a b c first second _ same _ _
    obtain ⟨type, values⟩ := (RecordOf.equal_iff (told.dynamic a first) b).mp same
    have texts : a.text = b.text := by
      rw [RecordOf.text_eq (told.dynamic a first), RecordOf.text_eq (told.dynamic b second), type,
        ← shared a b first second same]
      congr 3
      refine List.map_congr_left fun member declared => ?_
      have named : member.name ∈ a.names := RecordOf.names_eq a ▸ List.mem_map_of_mem declared
      obtain ⟨v, found⟩ := RecordOf.mem_names_iff.mp named
      obtain ⟨w, found', equal⟩ := values _ v found
      simp only [found, found', Option.getD_some, printed a b _ v w first second found found' equal]
    rw [texts]

/-- Among records told apart, equality and order are lawful exactly if equal records are alike. -/
theorem recordLaws_iff {among : Record → Prop} (told : ToldApart among) : RecordLaws among ↔ EqualAlike among :=
  ⟨told.equalAlike, told.recordLaws⟩

/-- A point on a line. -/
def RecordOf.point (x : Value) : Record := (ofType ⟨"Point", [⟨"x", .field, .any⟩]⟩).put "x" x

/-- A point on a plane, of a type with the same name. -/
def RecordOf.planePoint (x y : Value) : Record :=
  ((ofType ⟨"Point", [⟨"x", .field, .any⟩, ⟨"y", .field, .any⟩]⟩).put "x" x).put "y" y

open RecordOf in
/-- One and one as a double are equal points with one text, and two lies behind both. -/
theorem recordLaws_iff_on_points :
    let points := [point (.int32 1), point (.float64 .one), point (.int64 2)]
    ToldApart (· ∈ points) ∧ (RecordLaws (· ∈ points) ↔ EqualAlike (· ∈ points)) ∧ RecordLaws (· ∈ points) := by
  intro points
  have told : ToldApart (· ∈ points) := by decide
  exact ⟨told, recordLaws_iff told, (recordLaws_iff told).mpr (by decide)⟩

open RecordOf in
/-- A point on a line equals one on a plane that does not equal it, and is in no order with it while that one comes
before. Zero and minus zero are equal points on different sides of minus one. -/
theorem recordLaws_fail_on_points :
    let mixed := [point (.int32 1), planePoint (.int32 1) (.int32 2)]
    let signed := [point (.float64 .zero), point (.float64 (.neg .zero)), point (.float64 (.neg .one))]
    (ToldApart (· ∈ mixed) ∧ ¬RecordLaws (· ∈ mixed)) ∧ ToldApart (· ∈ signed) ∧ ¬RecordLaws (· ∈ signed) := by
  intro mixed signed
  refine ⟨⟨by decide, fun laws => ?_⟩, by decide, fun laws => ?_⟩
  · have symm := laws.symm (point (.int32 1)) (planePoint (.int32 1) (.int32 2)) (by simp [mixed]) (by simp [mixed])
    exact absurd (symm (by decide)) (by decide)
  · have congr := laws.congr (point (.float64 .zero)) (point (.float64 (.neg .zero))) (point (.float64 (.neg .one)))
      (by simp [signed]) (by simp [signed]) (by simp [signed])
    exact absurd (congr (by decide)) (by decide)

end RecordQuery
