import RecordQuery.Proofs.Value.Records
/-! The order of values without records: a total preorder, over all kinds and widths of numbers and through lists and
maps. -/

namespace RecordQuery

/-- The order of the outer two of three items is what their orders with the middle one make of it. -/
structure Fits (left right whole : Ordering) : Prop where
  eq_left : left = .eq → whole = right
  eq_right : right = .eq → whole = left
  lt : left = .lt → right = .lt → whole = .lt
  gt : left = .gt → right = .gt → whole = .gt

theorem fits_of_transCmp {α : Type} (order : α → α → Ordering) [Std.TransCmp order] (a b c : α) :
    Fits (order a b) (order b c) (order a c) where
  eq_left same := Std.TransCmp.congr_left same
  eq_right same := (Std.TransCmp.congr_right same).symm
  lt := Std.TransCmp.lt_trans
  gt := Std.TransCmp.gt_trans

theorem Fits.isLE {left right whole : Ordering} (fits : Fits left right whole) (first : left.isLE = true)
    (second : right.isLE = true) : whole.isLE = true := by
  obtain ⟨eqLeft, eqRight, less, -⟩ := fits
  cases left with
  | eq => exact eqLeft rfl ▸ second
  | gt => cases first
  | lt =>
    cases right with
    | eq => exact eqRight rfl ▸ first
    | lt => exact less rfl rfl ▸ rfl
    | gt => cases second

theorem fits_eq : Fits .eq .eq .eq := ⟨fun _ => rfl, fun _ => rfl, nofun, nofun⟩

/-- A second comparison has to fit only where the first decides nothing. -/
theorem Fits.andThen {left right whole left' right' whole' : Ordering} (first : Fits left right whole)
    (second : left = .eq → right = .eq → Fits left' right' whole') :
    Fits (left.then left') (right.then right') (whole.then whole') := by
  cases left <;> cases right
  case eq.eq =>
    cases first.eq_left rfl
    exact second rfl rfl
  case lt.lt => cases first.lt rfl rfl; constructor <;> simp
  case gt.gt => cases first.gt rfl rfl; constructor <;> simp
  case lt.eq | gt.eq =>
    cases first.eq_right rfl
    constructor <;> simp
  case eq.lt | eq.gt =>
    cases first.eq_left rfl
    constructor <;> simp
  case lt.gt | gt.lt => constructor <;> simp

theorem fits_compareLists {α : Type} (order : α → α → Ordering) [Std.TransCmp order] (as bs cs : List α) :
    Fits (compareLists order as bs) (compareLists order bs cs) (compareLists order as cs) := by
  induction as generalizing bs cs with
  | nil => cases bs <;> cases cs <;> constructor <;> simp [compareLists]
  | cons a as ih =>
    cases bs with
    | nil => cases cs <;> constructor <;> simp [compareLists]
    | cons b bs =>
      cases cs with
      | nil => constructor <;> simp [compareLists]
      | cons c cs => exact (fits_of_transCmp order a b c).andThen fun _ _ => ih bs cs

theorem compareLists_swap {α : Type} (order : α → α → Ordering) [Std.OrientedCmp order] (as bs : List α) :
    compareLists order bs as = (compareLists order as bs).swap := by
  induction as generalizing bs with
  | nil => cases bs <;> rfl
  | cons a as ih =>
    cases bs with
    | nil => rfl
    | cons b bs =>
      have head : order b a = (order a b).swap := Std.OrientedCmp.eq_swap
      rw [compareLists, compareLists, Ordering.swap_then, ih bs, head]

/-- Bytes are ordered as numbers. -/
instance transCmp_toNat : Std.TransCmp fun a b : UInt8 => Ord.compare a.toNat b.toNat :=
  inferInstanceAs (Std.TransCmp (compareOn UInt8.toNat))

namespace Exact

/-- The units of a finite value. -/
def amount : Exact → Int
  | finite units => units
  | _ => 0

theorem compare_eq (a b : Exact) :
    a.compare b = (Ord.compare a.rank b.rank).then (Ord.compare a.amount b.amount) := by
  rcases a with ⟨_ | _⟩ | units | _ <;> rcases b with ⟨_ | _⟩ | units' | _ <;> rfl

theorem compare_fits (a b c : Exact) : Fits (a.compare b) (b.compare c) (a.compare c) := by
  simp only [compare_eq]
  exact (fits_of_transCmp Ord.compare _ _ _).andThen fun _ _ => fits_of_transCmp Ord.compare _ _ _

end Exact

namespace Value

theorem compareExact_of_rank_ne {a b : Value} (other : a.kindRank ≠ b.kindRank) :
    a.compareExact b = Ord.compare a.kindRank b.kindRank := by
  unfold compareExact
  split
  · rename_i left right
    cases a <;> cases left <;> cases b <;> cases right <;> exact absurd rfl other
  · rfl

/-- Values of different kinds are ordered by kind. -/
theorem compare_of_rank_ne {a b : Value} (other : a.kindRank ≠ b.kindRank) :
    a.compare b = Ord.compare a.kindRank b.kindRank := by
  rw [← compareExact_of_rank_ne other, ← compareNumbers_eq]
  cases a <;> cases b <;> first | rfl | exact absurd rfl other

/-- The kinds decide first. -/
theorem compare_eq_then (a b : Value) : a.compare b = (Ord.compare a.kindRank b.kindRank).then (a.compare b) := by
  by_cases same : a.kindRank = b.kindRank
  · rw [Nat.compare_eq_eq.mpr same, Ordering.eq_then]
  · rw [compare_of_rank_ne same]
    cases Ord.compare a.kindRank b.kindRank <;> rfl

theorem compare_numeric {a : Value} (b : Value) (number : a.isNumeric = true) : a.compare b = a.compareExact b := by
  rw [← compareNumbers_eq]
  cases a <;> first | rfl | cases number

theorem exactValue?_of_rank {a b : Value} (number : a.isNumeric = true) (same : a.kindRank = b.kindRank) :
    b.isNumeric = true ∧ ∃ exact, b.exactValue? = some exact := by
  cases a <;> cases number <;> cases b <;> first | exact ⟨rfl, _, rfl⟩ | cases same

theorem fits_of_same_kind {a b c : Value} (within : a.kindRank = b.kindRank → b.kindRank = c.kindRank →
    Fits (a.compare b) (b.compare c) (a.compare c)) : Fits (a.compare b) (b.compare c) (a.compare c) := by
  have kinds := fits_of_transCmp Ord.compare a.kindRank b.kindRank c.kindRank
  have all := kinds.andThen fun left right => within (Nat.compare_eq_eq.mp left) (Nat.compare_eq_eq.mp right)
  rwa [← compare_eq_then, ← compare_eq_then, ← compare_eq_then] at all

theorem swap_of_same_kind {a b : Value} (within : a.kindRank = b.kindRank → b.compare a = (a.compare b).swap) :
    b.compare a = (a.compare b).swap := by
  by_cases same : a.kindRank = b.kindRank
  · exact within same
  · rw [compare_of_rank_ne same, compare_of_rank_ne (Ne.symm same), Std.OrientedOrd.eq_swap]

theorem compare_fits_of_numeric {a b c : Value} (number : a.isNumeric = true) :
    Fits (a.compare b) (b.compare c) (a.compare c) := by
  refine fits_of_same_kind fun left right => ?_
  obtain ⟨-, x, denoted⟩ := exactValue?_of_rank number rfl
  obtain ⟨number', y, denoted'⟩ := exactValue?_of_rank number left
  obtain ⟨-, z, denoted''⟩ := exactValue?_of_rank number' right
  rw [compare_numeric b number, compare_numeric c number', compare_numeric c number]
  simp only [compareExact, denoted, denoted', denoted'']
  exact Exact.compare_fits x y z

theorem compare_swap_of_numeric {a b : Value} (number : a.isNumeric = true) :
    b.compare a = (a.compare b).swap := by
  refine swap_of_same_kind fun same => ?_
  obtain ⟨-, x, denoted⟩ := exactValue?_of_rank number rfl
  obtain ⟨number', y, denoted'⟩ := exactValue?_of_rank number same
  rw [compare_numeric b number, compare_numeric a number']
  simp only [compareExact, denoted, denoted']
  exact Exact.compare_swap x y

end Value

mutual
/-- Values without records are ordered transitively. -/
theorem Value.compare_fits : ∀ (a b c : Value), a.records = [] → b.records = [] → c.records = [] →
    Fits (a.compare b) (b.compare c) (a.compare c)
  | .null, b, c, _, _, _ => Value.fits_of_same_kind fun left right => by
    cases b <;> cases left
    cases c <;> cases right
    exact fits_eq
  | .boolean _, b, c, _, _, _ => Value.fits_of_same_kind fun left right => by
    cases b <;> cases left
    cases c <;> cases right
    exact fits_of_transCmp Ord.compare _ _ _
  | .int32 _, _, _, _, _, _ => Value.compare_fits_of_numeric rfl
  | .int64 _, _, _, _, _, _ => Value.compare_fits_of_numeric rfl
  | .float64 _, _, _, _, _, _ => Value.compare_fits_of_numeric rfl
  | .string _, b, c, _, _, _ => Value.fits_of_same_kind fun left right => by
    cases b <;> cases left
    cases c <;> cases right
    exact fits_of_transCmp Ord.compare _ _ _
  | .dateTime _, b, c, _, _, _ => Value.fits_of_same_kind fun left right => by
    cases b <;> cases left
    cases c <;> cases right
    exact fits_of_transCmp Ord.compare _ _ _
  | .bytes as, b, c, _, _, _ => Value.fits_of_same_kind fun left right => by
    cases b <;> cases left
    cases c <;> cases right
    exact fits_compareLists _ as _ _
  | .list as, b, c, first, second, third => Value.fits_of_same_kind fun left right => by
    cases b <;> cases left
    cases c <;> cases right
    exact compareItems_fits as _ _ first second third
  | .map as, b, c, first, second, third => Value.fits_of_same_kind fun left right => by
    cases b <;> cases left
    cases c <;> cases right
    exact compareEntries_fits as _ _ first second third
  | .object _, _, _, first, _, _ => by simp [Value.records] at first

theorem compareItems_fits : ∀ (as bs cs : List Value), recordsOfItems as = [] → recordsOfItems bs = [] →
    recordsOfItems cs = [] → Fits (compareItems as bs) (compareItems bs cs) (compareItems as cs)
  | [], bs, cs, _, _, _ => by cases bs <;> cases cs <;> constructor <;> simp [compareItems]
  | a :: as, bs, cs, first, second, third => by
    cases bs with
    | nil => cases cs <;> constructor <;> simp [compareItems]
    | cons b bs =>
      cases cs with
      | nil => constructor <;> simp [compareItems]
      | cons c cs =>
        simp only [recordsOfItems, List.append_eq_nil_iff] at first second third
        exact (Value.compare_fits a b c first.1 second.1 third.1).andThen fun _ _ =>
          compareItems_fits as bs cs first.2 second.2 third.2

theorem compareEntries_fits : ∀ (as bs cs : List (Value × Value)), recordsOfEntries as = [] →
    recordsOfEntries bs = [] → recordsOfEntries cs = [] →
    Fits (compareEntries as bs) (compareEntries bs cs) (compareEntries as cs)
  | [], bs, cs, _, _, _ => by cases bs <;> cases cs <;> constructor <;> simp [compareEntries]
  | (key, value) :: as, bs, cs, first, second, third => by
    cases bs with
    | nil => cases cs <;> constructor <;> simp [compareEntries]
    | cons b bs =>
      cases cs with
      | nil => constructor <;> simp [compareEntries]
      | cons c cs =>
        simp only [recordsOfEntries, List.append_eq_nil_iff] at first second third
        have keys := Value.compare_fits key b.1 c.1 first.1.1 second.1.1 third.1.1
        have values := Value.compare_fits value b.2 c.2 first.1.2 second.1.2 third.1.2
        exact (keys.andThen fun _ _ => values).andThen fun _ _ =>
          compareEntries_fits as bs cs first.2 second.2 third.2
end

mutual
/-- Two values without records are in opposite orders from their two sides. -/
theorem Value.compare_swap : ∀ (a b : Value), a.records = [] → b.compare a = (a.compare b).swap
  | .null, b, _ => Value.swap_of_same_kind fun same => by
    cases b <;> cases same
    rfl
  | .boolean _, b, _ => Value.swap_of_same_kind fun same => by
    cases b <;> cases same
    exact Std.OrientedOrd.eq_swap
  | .int32 _, _, _ => Value.compare_swap_of_numeric rfl
  | .int64 _, _, _ => Value.compare_swap_of_numeric rfl
  | .float64 _, _, _ => Value.compare_swap_of_numeric rfl
  | .string _, b, _ => Value.swap_of_same_kind fun same => by
    cases b <;> cases same
    exact Std.OrientedOrd.eq_swap
  | .dateTime _, b, _ => Value.swap_of_same_kind fun same => by
    cases b <;> cases same
    exact Std.OrientedOrd.eq_swap
  | .bytes as, b, _ => Value.swap_of_same_kind fun same => by
    cases b <;> cases same
    exact compareLists_swap _ as _
  | .list as, b, plain => Value.swap_of_same_kind fun same => by
    cases b <;> cases same
    exact compareItems_swap as _ plain
  | .map as, b, plain => Value.swap_of_same_kind fun same => by
    cases b <;> cases same
    exact compareEntries_swap as _ plain
  | .object _, _, plain => by simp [Value.records] at plain

theorem compareItems_swap : ∀ (as bs : List Value), recordsOfItems as = [] →
    compareItems bs as = (compareItems as bs).swap
  | [], bs, _ => by cases bs <;> rfl
  | a :: as, bs, plain => by
    cases bs with
    | nil => rfl
    | cons b bs =>
      simp only [recordsOfItems, List.append_eq_nil_iff] at plain
      simp only [compareItems, Ordering.swap_then, Value.compare_swap a b plain.1, compareItems_swap as bs plain.2]

theorem compareEntries_swap : ∀ (as bs : List (Value × Value)), recordsOfEntries as = [] →
    compareEntries bs as = (compareEntries as bs).swap
  | [], bs, _ => by cases bs <;> rfl
  | (key, value) :: as, bs, plain => by
    cases bs with
    | nil => rfl
    | cons b bs =>
      simp only [recordsOfEntries, List.append_eq_nil_iff] at plain
      simp only [compareEntries, Ordering.swap_then, Value.compare_swap key b.1 plain.1.1,
        Value.compare_swap value b.2 plain.1.2, compareEntries_swap as bs plain.2]
end

/-- A value without records. -/
def Value.Plain : Type := { value : Value // value.records = [] }

def Value.Plain.compare (a b : Value.Plain) : Ordering := a.1.compare b.1

/-- Values without records are in a total preorder. -/
instance : Std.TransCmp Value.Plain.compare where
  eq_swap {a b} := Value.compare_swap b.1 a.1 b.2
  isLE_trans {a b c} := (Value.compare_fits a.1 b.1 c.1 a.2 b.2 c.2).isLE

end RecordQuery
