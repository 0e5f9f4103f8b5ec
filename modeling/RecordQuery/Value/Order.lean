import RecordQuery.Number.Integer
import RecordQuery.Value.Text
/-! Equality and order of values. Numbers of every width compare by what they denote, containers item by item,
values of different kinds by kind. -/

namespace RecordQuery

/-- The order of two lists by their first difference; a list that ends first comes first. -/
def compareLists {α : Type} (order : α → α → Ordering) : List α → List α → Ordering
  | [], [] => .eq
  | [], _ :: _ => .lt
  | _ :: _, [] => .gt
  | a :: as, b :: bs => (order a b).then (compareLists order as bs)

/-- The place of a kind among the kinds. -/
def Value.kindRank : Value → Nat
  | .null => 0
  | .boolean _ => 1
  | .int32 _ | .int64 _ | .float64 _ => 2
  | .string _ => 3
  | .dateTime _ => 4
  | .bytes _ => 5
  | .list _ => 6
  | .map _ => 7
  | .object _ => 8

/-- The order of two numbers by exact value; other values are ordered by kind. -/
def Value.compareExact (a b : Value) : Ordering :=
  match a.exactValue?, b.exactValue? with
  | some x, some y => x.compare y
  | _, _ => compare a.kindRank b.kindRank

/-- The order of two numbers: of two integers or two doubles directly, of an integer and a double by the whole part of
the double. -/
def Value.compareNumbers (a b : Value) : Ordering :=
  match a.integer?, b.integer?, a, b with
  | some i, some j, _, _ => Ord.compare i.toInt j.toInt
  | some i, none, _, .float64 y => y.compareInteger i
  | none, some j, .float64 x, _ => (x.compareInteger j).swap
  | none, none, .float64 x, .float64 y => x.compare y
  | _, _, _, _ => compare a.kindRank b.kindRank

/-- Numbers are in the order of the values they denote. -/
theorem Value.compareNumbers_eq (a b : Value) : a.compareNumbers b = a.compareExact b := by
  cases a <;> cases b
  case float64.float64 x y => exact (Double.compare_exact x y).symm
  case float64.int32 x j | float64.int64 x j =>
    unfold compareNumbers compareExact
    simp only [integer?, exactValue?, Double.compareInteger_eq, Int32.toInt_toInt64]
    exact (Exact.compare_swap ..).symm
  case int32.float64 i y | int64.float64 i y =>
    unfold compareNumbers compareExact
    simp only [integer?, exactValue?, Double.compareInteger_eq, Int32.toInt_toInt64]
  case int32.int32 i j | int32.int64 i j | int64.int32 i j | int64.int64 i j =>
    unfold compareNumbers compareExact
    simp only [integer?, exactValue?, Exact.compare_ofInt, Int32.toInt_toInt64]
  all_goals rfl

/-- Whether two values are numbers that denote the same value. -/
def Value.sameExact (a b : Value) : Bool :=
  match a.exactValue?, b.exactValue? with
  | some x, some y => x == y
  | _, _ => false

/-- Whether two values are the same number: an integer and a double are by the integer that the double denotes, and a
missing number is the same as another. -/
def Value.sameNumber (a b : Value) : Bool :=
  match a.integer?, b.integer?, a, b with
  | some i, some j, _, _ => i == j
  | some i, none, _, .float64 y => y.int64? == some i
  | none, some j, .float64 x, _ => x.int64? == some j
  | none, none, .float64 x, .float64 y => x.isNaN && y.isNaN || x.same y
  | _, _, _, _ => false

/-- Numbers are the same if they denote the same value. -/
theorem Value.sameNumber_eq (a b : Value) : a.sameNumber b = a.sameExact b := by
  have integers (i j : Int64) : (i == j) = (Exact.ofInt i.toInt == Exact.ofInt j.toInt) := by
    rw [Bool.eq_iff_iff, beq_iff_eq, beq_iff_eq]
    exact ⟨fun equal => equal ▸ rfl, fun denoted => Int64.toInt_inj.mp (Exact.ofInt_inj denoted)⟩
  have mixed (i : Int64) (x : Double) : (x.int64? == some i) = (x.exact == Exact.ofInt i.toInt) := by
    rw [Bool.eq_iff_iff, beq_iff_eq, beq_iff_eq, Double.int64?_eq_some_iff]
  cases a <;> cases b
  case float64.float64 x y => exact Double.same_or_missing x y
  case float64.int32 x j | float64.int64 x j =>
    unfold sameNumber sameExact
    simp only [integer?, exactValue?, mixed, Int32.toInt_toInt64]
  case int32.float64 i y | int64.float64 i y =>
    unfold sameNumber sameExact
    simp only [integer?, exactValue?, mixed, BEq.comm, Int32.toInt_toInt64]
  case int32.int32 i j | int32.int64 i j | int64.int32 i j | int64.int64 i j =>
    unfold sameNumber sameExact
    simp only [integer?, exactValue?, integers, Int32.toInt_toInt64]
  all_goals rfl

/-- What ends a comparison of two records: equality, then a natural order, then the names of their types, then
their texts. -/
def compareRecords (equal : Bool) (natural : Option Ordering) (a b : Record) : Ordering :=
  if equal then .eq
  else natural.getD ((compare a.typeName b.typeName).then (compare (Value.object a).text (Value.object b).text))

mutual
/-- Equality of values. -/
def Value.equal : Value → Value → Bool
  | .null, .null => true
  | .boolean a, .boolean b => a == b
  | .string a, .string b => a == b
  | .dateTime a, .dateTime b => a == b
  | .bytes a, .bytes b => a == b
  | .list as, .list bs => equalItems as bs
  | .map as, .map bs => equalEntries as bs
  | .object ⟨typeName, fields, orderedBy⟩, .object b =>
    match orderedBy with
    | none => typeName == b.typeName && equalFields fields b
    | some member => typeName == b.typeName && compareMember fields member ((b.get? member).getD .null) == .eq
  | a, b => a.sameNumber b
termination_by structural a => a

/-- The order of values; records have one of their own only through a member that they name. -/
def Value.compare : Value → Value → Ordering
  | .boolean a, .boolean b => Ord.compare a b
  | .string a, .string b => Ord.compare a b
  | .dateTime a, .dateTime b => Ord.compare a.toInt b.toInt
  | .bytes as, .bytes bs => compareLists (fun a b => Ord.compare a.toNat b.toNat) as bs
  | .list as, .list bs => compareItems as bs
  | .map as, .map bs => compareEntries as bs
  | .object ⟨typeName, fields, orderedBy⟩, .object b =>
    match orderedBy with
    | none =>
      compareRecords (typeName == b.typeName && equalFields fields b) none ⟨typeName, fields, none⟩ b
    | some member =>
      let natural :=
        if typeName == b.typeName then some (compareMember fields member ((b.get? member).getD .null)) else none
      compareRecords (natural == some .eq) natural ⟨typeName, fields, some member⟩ b
  | a, b => a.compareNumbers b
termination_by structural a => a

def equalItems : List Value → List Value → Bool
  | [], [] => true
  | a :: as, b :: bs => a.equal b && equalItems as bs
  | _, _ => false
termination_by structural as => as

def compareItems : List Value → List Value → Ordering
  | [], [] => .eq
  | [], _ :: _ => .lt
  | _ :: _, [] => .gt
  | a :: as, b :: bs => (a.compare b).then (compareItems as bs)
termination_by structural as => as

def equalEntries : List (Value × Value) → List (Value × Value) → Bool
  | [], [] => true
  | (k, v) :: as, (l, w) :: bs => k.equal l && v.equal w && equalEntries as bs
  | _, _ => false
termination_by structural as => as

def compareEntries : List (Value × Value) → List (Value × Value) → Ordering
  | [], [] => .eq
  | [], _ :: _ => .lt
  | _ :: _, [] => .gt
  | (k, v) :: as, (l, w) :: bs => ((k.compare l).then (v.compare w)).then (compareEntries as bs)
termination_by structural as => as

/-- Whether the other record has each of these members with an equal value. -/
def equalFields : List (Member × Value) → Record → Bool
  | [], _ => true
  | (member, value) :: rest, other =>
    (match other.get? member.name with
      | some found => value.equal found
      | none => false) && equalFields rest other
termination_by structural fields => fields

/-- The order of the value of the named member, null if there is none, and a given value. -/
def compareMember : List (Member × Value) → String → Value → Ordering
  | [], _, other => if other.isNull then .eq else .lt
  | (member, value) :: rest, name, other =>
    if member.name == name then value.compare other else compareMember rest name other
termination_by structural fields => fields
end

instance : BEq Value := ⟨Value.equal⟩

instance : Ord Value := ⟨Value.compare⟩

/-- The order two records have of their own: that of the member the first one names, within one type. -/
def RecordOf.compare? (a b : Record) : Option Ordering :=
  match a.orderedBy with
  | none => none
  | some member =>
    if a.typeName == b.typeName then some (compareMember a.fields member ((b.get? member).getD .null)) else none

def RecordOf.equal (a b : Record) : Bool := (Value.object a).equal (.object b)

end RecordQuery
