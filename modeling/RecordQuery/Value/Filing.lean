import RecordQuery.Value.Digest
/-! Items filed under what can be told of them at once, so that the ones equal to an item are found without looking
at all. What is found is what looking at all would find. -/

namespace RecordQuery

/-- Items under labels, in their order under each. -/
abbrev Filing (κ α : Type) [BEq κ] [Hashable κ] := Std.HashMap κ (List α)

namespace Filing

section

variable {κ α : Type} [BEq κ] [LawfulBEq κ] {label : α → κ} {asked : κ} {wanted : α → Bool}

private theorem wanted_and_label (sound : ∀ item, wanted item = true → label item = asked) :
    (fun item => (label item == asked) && wanted item) = wanted := by
  funext item
  cases found : wanted item
  · simp
  · simp [sound item found]

/-- Looking under one label is enough when what is wanted has that label. -/
theorem any_filter_label (sound : ∀ item, wanted item = true → label item = asked) (items : List α) :
    (items.filter (label · == asked)).any wanted = items.any wanted := by
  rw [List.any_filter, wanted_and_label sound]

theorem find?_filter_label (sound : ∀ item, wanted item = true → label item = asked) (items : List α) :
    (items.filter (label · == asked)).find? wanted = items.find? wanted := by
  rw [List.find?_filter]
  simp only [Bool.decide_and, Bool.decide_eq_true, wanted_and_label sound]

end

variable {κ α : Type} [BEq κ] [Hashable κ]

/-- The items under a label. -/
def under (filing : Filing κ α) (label : κ) : List α := filing.getD label []

/-- Files an item before those under its label. -/
def file (filing : Filing κ α) (label : κ) (item : α) : Filing κ α :=
  filing.insert label (item :: filing.under label)

/-- Files an item after those under its label. -/
def fileLast (filing : Filing κ α) (label : κ) (item : α) : Filing κ α :=
  filing.insert label (filing.under label ++ [item])

/-- Each item under its label. -/
def ofList (label : α → κ) (items : List α) : Filing κ α :=
  items.foldr (fun item filing => filing.file (label item) item) ∅

/-- The items that are the same as none filed and none before them, each looked for under its label alone. -/
def firstsAfter (label : α → κ) (same : α → α → Bool) (filing : Filing κ α) : List α → List α
  | [] => []
  | item :: rest =>
    if (filing.under (label item)).any (same item) then firstsAfter label same filing rest
    else item :: firstsAfter label same (filing.file (label item) item) rest

/-- The first occurrences among items. -/
def firsts (label : α → κ) (same : α → α → Bool) (items : List α) : List α := firstsAfter label same ∅ items

/-- The first item under a label that is wanted. -/
def find? (filing : Filing κ α) (asked : κ) (wanted : α → Bool) : Option α := (filing.under asked).find? wanted

variable [LawfulBEq κ] [LawfulHashable κ]

theorem under_file (filing : Filing κ α) (label asked : κ) (item : α) :
    (filing.file label item).under asked =
      if label == asked then item :: filing.under asked else filing.under asked := by
  unfold file under
  rw [Std.HashMap.getD_insert]
  split
  next equal => rw [LawfulBEq.eq_of_beq equal]
  · rfl

theorem under_fileLast (filing : Filing κ α) (label asked : κ) (item : α) :
    (filing.fileLast label item).under asked =
      if label == asked then filing.under asked ++ [item] else filing.under asked := by
  unfold fileLast under
  rw [Std.HashMap.getD_insert]
  split
  next equal => rw [LawfulBEq.eq_of_beq equal]
  · rfl

/-- What was filed under a label are the items that have it. -/
theorem under_ofList (label : α → κ) (items : List α) (asked : κ) :
    (ofList label items).under asked = items.filter (label · == asked) := by
  induction items with
  | nil => simp [ofList, under]
  | cons item rest ih =>
    have step : ofList label (item :: rest) = (ofList label rest).file (label item) item := rfl
    rw [step, under_file, ih, List.filter_cons]

theorem find?_ofList {label : α → κ} {asked : κ} {wanted : α → Bool}
    (sound : ∀ item, wanted item = true → label item = asked) (items : List α) :
    (ofList label items).find? asked wanted = items.find? wanted := by
  rw [find?, under_ofList, find?_filter_label sound]

private theorem firstsAfter_eq {label : α → κ} {same : α → α → Bool}
    (sound : ∀ a b, same a b = true → label a = label b) (items seen : List α) (filing : Filing κ α)
    (filed : ∀ asked, filing.under asked = seen.filter (label · == asked)) :
    seen.reverse ++ firstsAfter label same filing items = List.eraseDupsBy.loop same items seen := by
  induction items generalizing seen filing with
  | nil => simp [firstsAfter, List.eraseDupsBy.loop]
  | cons item rest ih =>
    unfold firstsAfter List.eraseDupsBy.loop
    rw [filed, any_filter_label fun other equal => (sound item other equal).symm]
    cases found : seen.any (same item)
    · have next := ih (item :: seen) (filing.file (label item) item) fun asked => by
        rw [under_file, filed, List.filter_cons]
      simpa [found] using next
    · simpa [found] using ih seen filing filed

/-- The first occurrences are those that looking through all earlier ones finds. -/
theorem firsts_eq {label : α → κ} {same : α → α → Bool} (sound : ∀ a b, same a b = true → label a = label b)
    (items : List α) : firsts label same items = items.eraseDupsBy same := by
  simpa [firsts, List.eraseDupsBy] using firstsAfter_eq sound items [] ∅ fun asked => by simp [under]

end Filing

end RecordQuery
