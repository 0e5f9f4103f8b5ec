import RecordQuery.Value.Order
import Std.Data.HashMap
/-! Digests: what a table of values may look at before it compares two of them. Numbers that denote the same value
have one digest, whatever their width, and of a record it shows the type alone, so equal values have one digest.
Items can then be filed under digests. -/

namespace RecordQuery

inductive DigestItem where
  | kind (rank : Nat)
  | flag (flag : Bool)
  | integer (number : Int64)
  | word (bits : UInt64)
  | text (text : String)
  | data (bytes : List UInt8)
  | length (count : Nat)
deriving DecidableEq, Hashable

/-- What stands for a double: the integer of 64 bits that it denotes, one word for every missing number, and its own
bits otherwise. -/
def Double.digest (x : Double) : DigestItem :=
  match x.int64? with
  | some i => .integer i
  | none => .word (if x.isNaN then .ofNat (1 <<< 64 - 1) else x.bits)

mutual
def Value.digest : Value → List DigestItem
  | .null => [.kind 0]
  | .boolean b => [.kind 1, .flag b]
  | .int32 i => [.kind 2, .integer i.toInt64]
  | .int64 i => [.kind 2, .integer i]
  | .float64 x => [.kind 2, x.digest]
  | .string s => [.kind 3, .text s]
  | .dateTime ms => [.kind 4, .integer ms]
  | .bytes data => [.kind 5, .data data]
  | .list items => .kind 6 :: .length items.length :: digestItems items
  | .map entries => .kind 7 :: digestEntries entries
  | .object ⟨typeName, _, _⟩ => [.kind 8, .text typeName]
termination_by structural value => value

def digestItems : List Value → List DigestItem
  | [] => []
  | item :: rest => item.digest ++ digestItems rest
termination_by structural items => items

def digestEntries : List (Value × Value) → List DigestItem
  | [] => []
  | (key, value) :: rest => key.digest ++ value.digest ++ digestEntries rest
termination_by structural entries => entries
end

/-- The digest of a tuple of values, as of a list: how many there are, then theirs. -/
def tupleDigest (values : List Value) : List DigestItem := .length values.length :: digestItems values

namespace Double

/-- A double that denotes an integer of 64 bits has that integer's digest. -/
theorem digest_of_integer {x : Double} {i : Int64} (denoted : x.exact = .ofInt i.toInt) : x.digest = .integer i := by
  rw [digest, int64?_eq_some_iff.mpr denoted]

/-- Doubles that denote the same value have one digest. -/
theorem digest_eq_of_exact {x y : Double} (equal : x.exact = y.exact) : x.digest = y.digest := by
  cases found : x.int64? with
  | some i =>
    have denoted := int64?_eq_some_iff.mp found
    rw [digest_of_integer denoted, digest_of_integer (equal ▸ denoted)]
  | none =>
    have absent : y.int64? = none := by
      refine Option.eq_none_iff_forall_ne_some.mpr fun i found' => ?_
      simp [int64?_eq_some_iff.mpr (equal.trans (int64?_eq_some_iff.mp found'))] at found
    rw [digest, digest, found, absent, isNaN_congr equal]
    cases missing : y.isNaN
    · have nonzero : x.isZero = false := by
        cases zero : x.isZero
        · rfl
        · have denoted : x.exact = .ofInt (0 : Int64).toInt := isZero_iff.mp zero
          simp [int64?_eq_some_iff.mpr denoted] at found
      rw [bits_eq_of_exact equal (isNaN_congr equal ▸ missing) nonzero]
    · rfl

end Double

theorem Value.digest_eq_of_sameExact {a b : Value} (same : a.sameExact b = true) : a.digest = b.digest := by
  have integers {i j : Int64} (denoted : Exact.ofInt i.toInt = Exact.ofInt j.toInt) : i = j :=
    Int64.toInt_inj.mp (Exact.ofInt_inj denoted)
  unfold sameExact at same
  cases a <;> cases b <;>
    simp only [exactValue?, beq_iff_eq, Bool.false_eq_true, ← Int32.toInt_toInt64] at same <;> simp only [digest]
  case float64.float64 x y => rw [Double.digest_eq_of_exact same]
  case int32.float64 i x | int64.float64 i x => rw [Double.digest_of_integer same.symm]
  case float64.int32 x j | float64.int64 x j => rw [Double.digest_of_integer same]
  all_goals rw [integers same]

mutual
/-- Equal values have one digest. -/
theorem Value.digest_eq_of_equal : ∀ (a b : Value), a.equal b = true → a.digest = b.digest
  | .list as, b, same => by
    cases b <;> simp only [Value.equal, Value.sameNumber_eq, Value.sameExact, Value.exactValue?,
      Bool.false_eq_true] at same
    simp only [Value.digest, length_eq_of_equalItems as _ same, digestItems_eq_of_equal as _ same]
  | .map as, b, same => by
    cases b <;> simp only [Value.equal, Value.sameNumber_eq, Value.sameExact, Value.exactValue?,
      Bool.false_eq_true] at same
    simp only [Value.digest, digestEntries_eq_of_equal as _ same]
  | .object ⟨_, _, orderedBy⟩, b, same => by
    cases b <;> simp only [Value.equal, Value.sameNumber_eq, Value.sameExact, Value.exactValue?,
      Bool.false_eq_true] at same
    cases orderedBy <;> simp_all [Value.digest]
  | .int32 i, b, same => by
    refine Value.digest_eq_of_sameExact (Value.sameNumber_eq (.int32 i) b ▸ ?_)
    cases b <;> exact same
  | .int64 i, b, same => by
    refine Value.digest_eq_of_sameExact (Value.sameNumber_eq (.int64 i) b ▸ ?_)
    cases b <;> exact same
  | .float64 x, b, same => by
    refine Value.digest_eq_of_sameExact (Value.sameNumber_eq (.float64 x) b ▸ ?_)
    cases b <;> exact same
  | .null, b, same | .boolean _, b, same | .string _, b, same | .dateTime _, b, same | .bytes _, b, same => by
    cases b <;> simp_all [Value.equal, Value.sameNumber_eq, Value.sameExact, Value.exactValue?]

theorem length_eq_of_equalItems : ∀ (as bs : List Value), equalItems as bs = true → as.length = bs.length
  | [], bs, same => by cases bs <;> simp_all [equalItems]
  | a :: as, bs, same => by
    cases bs <;> simp only [equalItems, Bool.and_eq_true, Bool.false_eq_true] at same
    simp only [List.length_cons, length_eq_of_equalItems as _ same.2]

theorem digestItems_eq_of_equal : ∀ (as bs : List Value), equalItems as bs = true → digestItems as = digestItems bs
  | [], bs, same => by cases bs <;> simp_all [equalItems]
  | a :: as, bs, same => by
    cases bs <;> simp only [equalItems, Bool.and_eq_true, Bool.false_eq_true] at same
    simp only [digestItems, Value.digest_eq_of_equal a _ same.1, digestItems_eq_of_equal as _ same.2]

theorem digestEntries_eq_of_equal : ∀ (as bs : List (Value × Value)),
    equalEntries as bs = true → digestEntries as = digestEntries bs
  | [], bs, same => by cases bs <;> simp_all [equalEntries]
  | (key, value) :: as, bs, same => by
    cases bs <;> simp only [equalEntries, Bool.and_eq_true, Bool.false_eq_true] at same
    simp only [digestEntries, Value.digest_eq_of_equal key _ same.1.1, Value.digest_eq_of_equal value _ same.1.2,
      digestEntries_eq_of_equal as _ same.2]
end

theorem tupleDigest_eq_of_equal (as bs : List Value) (same : equalItems as bs = true) :
    tupleDigest as = tupleDigest bs := by
  rw [tupleDigest, tupleDigest, length_eq_of_equalItems as bs same, digestItems_eq_of_equal as bs same]

end RecordQuery
