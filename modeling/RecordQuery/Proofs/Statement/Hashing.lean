import RecordQuery.Statement.Grouping
/-! Tables of values under hashes. Equal values have one digest, so whichever hash is made of digests, looking among
the values of one hash tells values apart exactly as equality does. -/

namespace RecordQuery

variable (hash : List DigestItem → UInt64)

theorem hash_eq_of_equal (a b : Value) (same : a.equal b = true) : hash a.digest = hash b.digest :=
  congrArg hash (Value.digest_eq_of_equal a b same)

theorem hash_eq_of_equalItems (as bs : List Value) (same : equalItems as bs = true) :
    hash (tupleDigest as) = hash (tupleDigest bs) :=
  congrArg hash (tupleDigest_eq_of_equal as bs same)

/-- A set of values under their hashes keeps those that equal none before them. -/
theorem firsts_hash (rows : List Value) :
    Filing.firsts (fun row => hash row.digest) Value.equal rows = rows.eraseDupsBy Value.equal :=
  Filing.firsts_eq (hash_eq_of_equal hash) rows

/-- A table of groups under the hashes of their keys has a row join the first group whose key equals its own. -/
theorem groups_hash (pairs : List (List Value × Value)) :
    (GroupTable.ofPairs (fun key => hash (tupleDigest key)) pairs).toGrouped =
      pairs.foldl (fun groups pair => Grouped.add groups pair.1 pair.2) [] :=
  GroupTable.toGrouped_ofPairs (hash_eq_of_equalItems hash) pairs

/-- Looking for a key under its hash finds what belongs to the first key that equals it. -/
theorem find?_hash {α : Type} (groups : Grouped α) (key : List Value) :
    (Filing.ofList (fun group => hash (tupleDigest group.1)) groups).find? (hash (tupleDigest key))
      (fun group => equalItems key group.1) = List.find? (fun group => equalItems key group.1) groups :=
  Filing.find?_ofList (fun group same => (hash_eq_of_equalItems hash key group.1 same).symm) groups

end RecordQuery
