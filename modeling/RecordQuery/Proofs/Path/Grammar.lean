import Mathlib.Data.List.DropRight
import RecordQuery.Path.Parser
/-! The grammar of accessor paths, and that reading a path accepts exactly the texts it describes. A name is as long as
it can be, and a bracket's bare literal ends at the first closing, so a text has no more than one reading. -/

namespace RecordQuery

/-- Only blanks. -/
def AllBlank (chars : List Char) : Prop := ∀ c ∈ chars, isBlank c = true

/-- At least one character, and all of them make up names. -/
structure IsName (chars : List Char) : Prop where
  nonempty : chars ≠ []
  all : ∀ c ∈ chars, isNameChar c = true

/-- What follows a name does not go on with it. -/
def EndsName (rest : List Char) : Prop := ∀ c ∈ rest.head?, isNameChar c = false

/-- At least one character, and all of them decimal digits. -/
structure IsDigits (chars : List Char) : Prop where
  nonempty : chars ≠ []
  all : ∀ c ∈ chars, c.isDigit = true

/-- The number that decimal digits write. -/
def decimal (digits : List Char) : Nat := digits.foldl (fun n c => 10 * n + digitValue c) 0

/-- Digits, perhaps behind a sign, write an integer. -/
inductive WritesInteger : List Char → Int → Prop where
  | plain {digits : List Char} (isDigits : IsDigits digits) : WritesInteger digits (decimal digits)
  | plus {digits : List Char} (isDigits : IsDigits digits) : WritesInteger ('+' :: digits) (decimal digits)
  | minus {digits : List Char} (isDigits : IsDigits digits) : WritesInteger ('-' :: digits) (-decimal digits)

/-- What a bracket's bare literal stands for: an index if it writes an integer of 64 bits, a key otherwise. -/
inductive Literal : List Char → Segment → Prop where
  | index {chars : List Char} {i : Int64} (writes : WritesInteger chars i.toInt) : Literal chars (.index i)
  | key {chars : List Char} (other : ∀ i : Int64, ¬WritesInteger chars i.toInt) :
    Literal chars (.key (String.ofList chars))

/-- A character that opens and closes a quoted key. -/
def IsQuote (c : Char) : Prop := c = '\'' ∨ c = '"'

/-- A bracket, from its opening to its closing, and its segment. -/
inductive Bracket : List Char → Segment → Prop where
  /-- A quoted key, without its own quote inside. -/
  | quoted {quote : Char} {before key after : List Char} (quotes : IsQuote quote) (blankBefore : AllBlank before)
    (inside : quote ∉ key) (blankAfter : AllBlank after) :
    Bracket ('[' :: (before ++ quote :: (key ++ quote :: (after ++ [']'])))) (.key (String.ofList key))
  /-- A literal without quotes around it, up to the first closing, without the blanks around it. -/
  | bare {before literal after : List Char} {segment : Segment} (blankBefore : AllBlank before)
    (blankAfter : AllBlank after) (nonempty : literal ≠ []) (first : ∀ c ∈ literal.head?, isBlank c = false)
    (last : ∀ c ∈ literal.getLast?, isBlank c = false) (unquoted : ∀ c ∈ literal.head?, ¬IsQuote c)
    (inside : ']' ∉ literal) (meant : Literal literal segment) :
    Bracket ('[' :: (before ++ literal ++ after ++ [']'])) segment

/-- Brackets and dotted names, blanks before each, and their segments. -/
inductive Continuation : List Char → List Segment → Prop where
  | done {blanks : List Char} (blank : AllBlank blanks) : Continuation blanks []
  | bracket {blanks text rest : List Char} {segment : Segment} {segments : List Segment} (blank : AllBlank blanks)
    (bracket : Bracket text segment) (onward : Continuation rest segments) :
    Continuation (blanks ++ text ++ rest) (segment :: segments)
  | name {blanks inner name rest : List Char} {segments : List Segment} (blank : AllBlank blanks)
    (blankInner : AllBlank inner) (isName : IsName name) (ends : EndsName rest) (onward : Continuation rest segments) :
    Continuation (blanks ++ '.' :: (inner ++ name ++ rest)) (.name (String.ofList name) :: segments)

/-- A whole path: a name or a bracket, and what continues it. -/
inductive PathText : List Char → List Segment → Prop where
  | name {blanks name rest : List Char} {segments : List Segment} (blank : AllBlank blanks) (isName : IsName name)
    (ends : EndsName rest) (onward : Continuation rest segments) :
    PathText (blanks ++ name ++ rest) (.name (String.ofList name) :: segments)
  | bracket {blanks text rest : List Char} {segment : Segment} {segments : List Segment} (blank : AllBlank blanks)
    (bracket : Bracket text segment) (onward : Continuation rest segments) :
    PathText (blanks ++ text ++ rest) (segment :: segments)

/-! Runs of characters. -/

theorem dropWhile_of_head {p : Char → Bool} {chars : List Char} (stops : ∀ c ∈ chars.head?, p c = false) :
    chars.dropWhile p = chars := by
  cases chars with
  | nil => rfl
  | cons c rest => rw [List.dropWhile_cons_of_neg (by simp [stops c rfl])]

theorem takeWhile_of_head {p : Char → Bool} {chars : List Char} (stops : ∀ c ∈ chars.head?, p c = false) :
    chars.takeWhile p = [] := by
  cases chars with
  | nil => rfl
  | cons c rest => rw [List.takeWhile_cons_of_neg (by simp [stops c rfl])]

/-- A run before the first character that does not belong to it. -/
theorem dropWhile_run {p : Char → Bool} {run rest : List Char} (all : ∀ c ∈ run, p c = true)
    (stops : ∀ c ∈ rest.head?, p c = false) : (run ++ rest).dropWhile p = rest := by
  rw [List.dropWhile_append_of_pos all, dropWhile_of_head stops]

theorem takeWhile_run {p : Char → Bool} {run rest : List Char} (all : ∀ c ∈ run, p c = true)
    (stops : ∀ c ∈ rest.head?, p c = false) : (run ++ rest).takeWhile p = run := by
  rw [List.takeWhile_append_of_pos all, takeWhile_of_head stops, List.append_nil]

theorem head?_dropWhile {p : Char → Bool} {chars : List Char} : ∀ c ∈ (chars.dropWhile p).head?, p c = false := by
  intro c head
  have stops := List.head?_dropWhile_not p chars
  rw [Option.mem_def.mp head] at stops
  exact stops

theorem all_takeWhile (p : Char → Bool) (chars : List Char) : ∀ c ∈ chars.takeWhile p, p c = true :=
  fun _ member => List.mem_takeWhile_imp member

/-- Blanks that are skipped stand before what is left. -/
theorem exists_blanks {chars left : List Char} (skipped : chars.dropWhile isBlank = left) :
    ∃ blanks, AllBlank blanks ∧ chars = blanks ++ left :=
  ⟨chars.takeWhile isBlank, all_takeWhile isBlank chars, by rw [← skipped, List.takeWhile_append_dropWhile]⟩

/-- Blanks are skipped up to a character that is visible. -/
theorem dropWhile_blanks {blanks : List Char} (blank : AllBlank blanks) {c : Char} (visible : isBlank c = false)
    (rest : List Char) : (blanks ++ c :: rest).dropWhile isBlank = c :: rest :=
  dropWhile_run blank (by rintro d ⟨⟩; exact visible)

/-- Text in which a character was found is a run without it, and the character before what is left. -/
theorem eq_of_dropWhile_bne {stop c : Char} {chars behind : List Char}
    (ended : chars.dropWhile (· != stop) = c :: behind) :
    stop ∉ chars.takeWhile (· != stop) ∧ chars = chars.takeWhile (· != stop) ++ stop :: behind := by
  have found : (c != stop) = false := head?_dropWhile c (by rw [ended]; rfl)
  have whole := List.takeWhile_append_dropWhile (p := (· != stop)) (l := chars)
  rw [ended, bne_eq_false_iff_eq.mp found] at whole
  exact ⟨fun member => by simpa using all_takeWhile _ chars stop member, whole.symm⟩

theorem bne_of_not_mem {stop : Char} {run : List Char} (inside : stop ∉ run) : ∀ c ∈ run, (c != stop) = true :=
  fun c member => by simpa using fun same : c = stop => inside (same ▸ member)

theorem takeWhile_bne {stop : Char} {run : List Char} (inside : stop ∉ run) (rest : List Char) :
    (run ++ stop :: rest).takeWhile (· != stop) = run :=
  takeWhile_run (bne_of_not_mem inside) (by rintro c ⟨⟩; simp)

theorem dropWhile_bne {stop : Char} {run : List Char} (inside : stop ∉ run) (rest : List Char) :
    (run ++ stop :: rest).dropWhile (· != stop) = stop :: rest :=
  dropWhile_run (bne_of_not_mem inside) (by rintro c ⟨⟩; simp)

theorem isBlank_quote {c : Char} (quotes : IsQuote c) : isBlank c = false := by
  rcases quotes with rfl | rfl <;> rfl

/-- The blanks by their code points. -/
def blankCodes : List Nat :=
  [9, 10, 11, 12, 13, 0x20, 0x85, 0xA0, 0x1680, 0x2000, 0x2001, 0x2002, 0x2003, 0x2004, 0x2005, 0x2006, 0x2007, 0x2008,
    0x2009, 0x200A, 0x2028, 0x2029, 0x202F, 0x205F, 0x3000]

theorem mem_blankCodes {c : Char} (blank : isBlank c = true) : c.toNat ∈ blankCodes := by
  simp only [isBlank, Bool.or_eq_true, Bool.and_eq_true, decide_eq_true_eq, beq_iff_eq] at blank
  simp only [blankCodes, List.mem_cons, List.not_mem_nil, or_false]
  omega

/-- No character of a name is blank. -/
theorem isBlank_of_isNameChar {c : Char} (named : isNameChar c = true) : isBlank c = false := by
  have none : ∀ code ∈ blankCodes, isNameChar (Char.ofNat code) = false := by decide +kernel
  by_contra blank
  have code := none c.toNat (mem_blankCodes (by simpa using blank))
  rw [Char.ofNat_toNat, named] at code
  cases code

/-! Literals. -/

theorem isDigits_iff {chars : List Char} :
    IsDigits chars ↔ (chars.isEmpty || !chars.all Char.isDigit) = false := by
  constructor
  · intro digits
    simpa [digits.nonempty] using digits.all
  · intro digits
    simp only [Bool.or_eq_false_iff, Bool.not_eq_false', List.isEmpty_eq_false_iff, List.all_eq_true] at digits
    exact ⟨digits.1, digits.2⟩

theorem readInteger?_of_digits (sign : List Char) (negative : Bool) {digits : List Char}
    (signed : splitSign (sign ++ digits) = (negative, digits)) (isDigits : IsDigits digits) :
    readInteger? (sign ++ digits) = some (if negative then -(decimal digits : Int) else decimal digits) := by
  unfold readInteger?
  rw [signed]
  simp only [isDigits_iff.mp isDigits, digitsValue_eq]
  rfl

/-- Reading integers accepts what writes one. -/
theorem readInteger?_eq_some_iff {chars : List Char} {n : Int} :
    readInteger? chars = some n ↔ WritesInteger chars n := by
  constructor
  · intro read
    unfold readInteger? at read
    rcases signed : splitSign chars with ⟨negative, digits⟩
    rw [signed] at read
    by_cases refused : (digits.isEmpty || !digits.all Char.isDigit) = true
    · simp [refused] at read
    · have isDigits := isDigits_iff.mpr (by simpa using refused)
      simp only [refused, digitsValue_eq] at read
      unfold splitSign at signed
      split at signed <;> cases signed <;> cases read
      · exact .minus isDigits
      · exact .plus isDigits
      · exact .plain isDigits
  · intro writes
    cases writes with
    | plain isDigits =>
      obtain ⟨c, rest, rfl⟩ := List.exists_cons_of_ne_nil isDigits.nonempty
      have digit := isDigits.all c (List.mem_cons_self ..)
      refine readInteger?_of_digits [] false ?_ isDigits
      rw [List.nil_append]
      unfold splitSign
      split
      · rename_i same
        cases same
        cases digit
      · rename_i same
        cases same
        cases digit
      · rfl
    | plus isDigits => exact readInteger?_of_digits ['+'] false rfl isDigits
    | minus isDigits => exact readInteger?_of_digits ['-'] true rfl isDigits

theorem readInt64?_eq_some_iff {chars : List Char} {i : Int64} :
    readInt64? (String.ofList chars) = some i ↔ WritesInteger chars i.toInt := by
  unfold readInt64?
  rw [String.toList_ofList, ← readInteger?_eq_some_iff]
  constructor
  · intro read
    cases integer : readInteger? chars with
    | none => simp [integer] at read
    | some n =>
      by_cases inside : Int64.minValue.toInt ≤ n ∧ n ≤ Int64.maxValue.toInt
      · simp only [integer, inside, and_self, if_true, Option.some.injEq] at read
        rw [← read, Int64.toInt_ofInt_of_le inside.1 (Int.lt_of_le_of_lt inside.2 (by decide))]
      · simp only [integer, if_neg inside] at read
        cases read
  · intro integer
    simp only [integer, Int64.minValue_le_toInt, Int64.toInt_le, and_self, if_true, Int64.ofInt_toInt]

/-- A bare literal stands for the segment that reading makes of it. -/
theorem literal_iff {chars : List Char} {segment : Segment} :
    Literal chars segment ↔ segment = literalSegment (String.ofList chars) := by
  unfold literalSegment
  constructor
  · intro meant
    cases meant with
    | index writes => rw [readInt64?_eq_some_iff.mpr writes]
    | key other =>
      cases read : readInt64? (String.ofList chars) with
      | none => rfl
      | some i => exact absurd (readInt64?_eq_some_iff.mp read) (other i)
  · intro same
    subst same
    cases read : readInt64? (String.ofList chars) with
    | none =>
      refine .key fun i writes => ?_
      rw [readInt64?_eq_some_iff.mpr writes] at read
      cases read
    | some i => exact .index (readInt64?_eq_some_iff.mp read)

theorem trimBlanks_eq (chars : List Char) : trimBlanks chars = (chars.dropWhile isBlank).rdropWhile isBlank := rfl

/-- Blanks around what neither begins nor ends with one are what is left out of it. -/
theorem trimBlanks_around {before literal after : List Char} (blankBefore : AllBlank before)
    (blankAfter : AllBlank after) (nonempty : literal ≠ []) (first : ∀ c ∈ literal.head?, isBlank c = false)
    (last : ∀ c ∈ literal.getLast?, isBlank c = false) : trimBlanks (before ++ literal ++ after) = literal := by
  have begins : ∀ c ∈ (literal ++ after).head?, isBlank c = false := by
    rw [List.head?_append_of_ne_nil _ nonempty]
    exact first
  have ends : ∀ c ∈ literal.reverse.head?, isBlank c = false := by
    rw [List.head?_reverse]
    exact last
  have behind : ∀ c ∈ after.reverse, isBlank c = true := fun c member => blankAfter c (List.mem_reverse.mp member)
  rw [trimBlanks, List.append_assoc, dropWhile_run blankBefore begins, List.reverse_append, dropWhile_run behind ends,
    List.reverse_reverse]

/-- What begins with no blank is left without the blanks behind it, and begins as before. -/
theorem exists_behind {chars : List Char} (first : ∀ c ∈ chars.head?, isBlank c = false)
    (nonempty : trimBlanks chars ≠ []) :
    (∃ after, AllBlank after ∧ chars = trimBlanks chars ++ after) ∧ (trimBlanks chars).head? = chars.head? ∧
      ∀ c ∈ (trimBlanks chars).getLast?, isBlank c = false := by
  have trimmed : trimBlanks chars = chars.rdropWhile isBlank := by rw [trimBlanks_eq, dropWhile_of_head first]
  rw [trimmed] at nonempty ⊢
  refine ⟨⟨chars.rtakeWhile isBlank, fun c member => List.mem_rtakeWhile_imp member,
    List.rdropWhile_append_rtakeWhile.symm⟩, ?_, ?_⟩
  · conv_rhs => rw [← List.rdropWhile_append_rtakeWhile (p := isBlank) (l := chars)]
    rw [List.head?_append_of_ne_nil _ nonempty]
  · intro c last
    rw [List.getLast?_eq_some_getLast nonempty] at last
    cases last
    simpa using List.rdropWhile_last_not isBlank chars nonempty

/-! Brackets. -/

theorem closeBracket_eq_ok_iff {segment found : Segment} {chars rest : List Char} :
    closeBracket segment chars = .ok (found, rest) ↔
      found = segment ∧ ∃ blanks, AllBlank blanks ∧ chars = blanks ++ ']' :: rest := by
  constructor
  · intro closed
    unfold closeBracket at closed
    split at closed
    · rename_i after same
      cases closed
      exact ⟨rfl, exists_blanks same⟩
    · cases closed
  · rintro ⟨rfl, blanks, blank, rfl⟩
    rw [closeBracket, dropWhile_blanks blank rfl]
    rfl

/-- Dropping up to the first closing and then blanks drops no blank. -/
theorem nil_of_dropWhile_closing {chars blanks rest : List Char} (blank : AllBlank blanks)
    (ended : chars.dropWhile (· != ']') = blanks ++ ']' :: rest) : blanks = [] := by
  cases blanks with
  | nil => rfl
  | cons c more =>
    have closing : (c != ']') = false := head?_dropWhile c (by rw [ended]; rfl)
    have visible := blank c (List.mem_cons_self ..)
    rw [bne_eq_false_iff_eq.mp closing] at visible
    cases visible

/-- A quoted key is read up to its quote. -/
theorem readBracket_of_quoted {quote : Char} {chars key rest : List Char} (quotes : IsQuote quote)
    (start : chars.dropWhile isBlank = quote :: (key ++ quote :: rest)) (inside : quote ∉ key) :
    readBracket chars = closeBracket (.key (String.ofList key)) rest := by
  unfold readBracket
  rw [start]
  dsimp only
  rw [if_pos (show quote = '\'' ∨ quote = '"' from quotes), takeWhile_bne inside, dropWhile_bne inside]

/-- A bare literal is read up to the first closing. -/
theorem readBracket_of_bare {c : Char} {chars more rest : List Char} (unquoted : ¬IsQuote c)
    (start : chars.dropWhile isBlank = c :: more ++ ']' :: rest) (inside : ']' ∉ c :: more)
    (nonempty : trimBlanks (c :: more) ≠ []) :
    readBracket chars = .ok (literalSegment (String.ofList (trimBlanks (c :: more))), rest) := by
  have closed (segment : Segment) : closeBracket segment (']' :: rest) = .ok (segment, rest) :=
    closeBracket_eq_ok_iff.mpr ⟨rfl, [], nofun, rfl⟩
  unfold readBracket
  rw [start, List.cons_append]
  dsimp only
  rw [if_neg (show ¬(c = '\'' ∨ c = '"') from unquoted), ← List.cons_append, takeWhile_bne inside,
    dropWhile_bne inside, if_neg (by simpa using nonempty), closed]

/-- A literal with the blanks around it, up to the first closing, makes up a bracket. -/
theorem Bracket.of_bare {c : Char} {before more : List Char} (blankBefore : AllBlank before)
    (visible : isBlank c = false) (unquoted : ¬IsQuote c) (inside : ']' ∉ c :: more)
    (nonempty : trimBlanks (c :: more) ≠ []) :
    Bracket ('[' :: (before ++ (c :: more) ++ [']'])) (literalSegment (String.ofList (trimBlanks (c :: more)))) := by
  have first : ∀ d ∈ (c :: more).head?, isBlank d = false := by
    rintro d ⟨⟩
    exact visible
  obtain ⟨⟨after, blankAfter, whole⟩, begins, last⟩ := exists_behind first nonempty
  have head : ∀ d ∈ (trimBlanks (c :: more)).head?, d = c := by
    rw [begins]
    rintro d ⟨⟩
    rfl
  have outside : ']' ∉ trimBlanks (c :: more) := fun member =>
    inside (whole ▸ List.mem_append_left after member)
  have bracket := Bracket.bare blankBefore blankAfter nonempty (fun d found => head d found ▸ visible) last
    (fun d found => head d found ▸ unquoted) outside (literal_iff.mpr rfl)
  rwa [List.append_assoc before, ← whole] at bracket

/-- What is read as a bracket is one. -/
theorem readBracket_sound {segment : Segment} {chars rest : List Char}
    (read : readBracket chars = .ok (segment, rest)) :
    ∃ text, '[' :: chars = text ++ rest ∧ Bracket text segment := by
  unfold readBracket at read
  split at read
  · cases read
  · rename_i first tail start
    have visible : isBlank first = false := head?_dropWhile first (by rw [start]; rfl)
    obtain ⟨before, blankBefore, rfl⟩ := exists_blanks start
    split at read
    · rename_i quotes
      split at read
      · cases read
      · rename_i quote behind ended
        obtain ⟨rfl, blanks, blankAfter, rfl⟩ := closeBracket_eq_ok_iff.mp read
        obtain ⟨inside, whole⟩ := eq_of_dropWhile_bne ended
        refine ⟨_, ?_, .quoted quotes blankBefore inside blankAfter⟩
        conv_lhs => rw [whole]
        simp
    · rename_i unquoted
      dsimp only at read
      split at read
      · cases read
      · rename_i nonempty
        obtain ⟨rfl, blanks, blank, ended⟩ := closeBracket_eq_ok_iff.mp read
        obtain rfl := nil_of_dropWhile_closing blank ended
        obtain ⟨inside, whole⟩ := eq_of_dropWhile_bne ended
        generalize (first :: tail).takeWhile (· != ']') = body at *
        cases body with
        | nil => exact absurd rfl nonempty
        | cons c more =>
          cases whole
          exact ⟨_, by simp, .of_bare blankBefore visible unquoted inside (by simpa using nonempty)⟩

/-- A bracket is read as far as it goes. -/
theorem readBracket_complete {text : List Char} {segment : Segment} (bracket : Bracket text segment)
    (rest : List Char) : ∃ inner, text = '[' :: inner ∧ readBracket (inner ++ rest) = .ok (segment, rest) := by
  cases bracket with
  | @quoted quote before key after quotes blankBefore inside blankAfter =>
    refine ⟨_, rfl, ?_⟩
    have start : (before ++ quote :: (key ++ quote :: (after ++ [']'])) ++ rest).dropWhile isBlank =
        quote :: (key ++ quote :: (after ++ ']' :: rest)) := by
      simpa using dropWhile_blanks blankBefore (isBlank_quote quotes) (key ++ quote :: (after ++ ']' :: rest))
    rw [readBracket_of_quoted quotes start inside]
    exact closeBracket_eq_ok_iff.mpr ⟨rfl, after, blankAfter, rfl⟩
  | @bare before literal after _ blankBefore blankAfter nonempty first last unquoted inside meant =>
    refine ⟨_, rfl, ?_⟩
    have trimmed : trimBlanks (literal ++ after) = literal :=
      @trimBlanks_around [] literal after nofun blankAfter nonempty first last
    have outside : ']' ∉ literal ++ after := fun member => by
      rcases List.mem_append.mp member with own | behind
      · exact inside own
      · cases blankAfter ']' behind
    obtain ⟨c, more, rfl⟩ := List.exists_cons_of_ne_nil nonempty
    have start : (before ++ c :: more ++ after ++ [']'] ++ rest).dropWhile isBlank =
        c :: (more ++ after) ++ ']' :: rest := by
      simpa using dropWhile_blanks blankBefore (first c rfl) (more ++ (after ++ ']' :: rest))
    rw [List.cons_append] at trimmed outside
    rw [readBracket_of_bare (unquoted c rfl) start outside (by rw [trimmed]; exact nonempty), trimmed,
      ← literal_iff.mp meant]

/-! Whole paths. -/

theorem map_eq_ok {α β : Type} {f : α → β} {result : Except PathProblem α} {value : β}
    (success : result.map f = .ok value) : ∃ part, result = .ok part ∧ f part = value := by
  cases result with
  | error problem => cases success
  | ok part =>
    cases success
    exact ⟨part, rfl, rfl⟩

theorem readContinuation_of_blank {chars : List Char} (blank : AllBlank chars) : readContinuation chars = .ok [] := by
  have nothing : chars.dropWhile isBlank = [] := List.dropWhile_eq_nil_iff.mpr blank
  rw [readContinuation]
  split
  · rfl
  · rename_i more
    rw [nothing] at more
    cases more

theorem readContinuation_of_bracket {chars rest after : List Char} {segment : Segment}
    (start : chars.dropWhile isBlank = '[' :: rest) (read : readBracket rest = .ok (segment, after)) :
    readContinuation chars = (readContinuation after).map (segment :: ·) := by
  rw [readContinuation]
  split
  · rename_i nothing
    rw [start] at nothing
    cases nothing
  · rename_i same
    rw [start] at same
    cases same
    rw [if_pos rfl]
    split
    · rename_i failed
      rw [read] at failed
      cases failed
    · rename_i found
      rw [read] at found
      cases found
      rfl

theorem readContinuation_of_name {chars rest : List Char} (start : chars.dropWhile isBlank = '.' :: rest)
    (named : ((rest.dropWhile isBlank).takeWhile isNameChar) ≠ []) :
    readContinuation chars = (readContinuation ((rest.dropWhile isBlank).dropWhile isNameChar)).map
      (.name (String.ofList ((rest.dropWhile isBlank).takeWhile isNameChar)) :: ·) := by
  rw [readContinuation]
  split
  · rename_i nothing
    rw [start] at nothing
    cases nothing
  · rename_i same
    rw [start] at same
    cases same
    rw [if_neg (by decide), if_pos rfl]
    simp only [List.isEmpty_iff, named, if_false]

/-- What is read behind a first segment continues it. -/
theorem readContinuation_sound {chars : List Char} {segments : List Segment}
    (read : readContinuation chars = .ok segments) : Continuation chars segments := by
  fun_induction readContinuation chars generalizing segments with
  | case1 chars nothing =>
    cases read
    exact .done (List.dropWhile_eq_nil_iff.mp nothing)
  | case2 chars rest start problem failed => cases read
  | case3 chars rest segment after found start ih =>
    obtain ⟨later, success, rfl⟩ := map_eq_ok read
    obtain ⟨text, same, bracket⟩ := readBracket_sound found
    obtain ⟨blanks, blank, rfl⟩ := exists_blanks start
    rw [same, ← List.append_assoc]
    exact .bracket blank bracket (ih success)
  | case4 => cases read
  | case5 chars rest inner named start _ =>
    rename_i ih
    obtain ⟨later, success, rfl⟩ := map_eq_ok read
    obtain ⟨blanks, blank, rfl⟩ := exists_blanks start
    obtain ⟨between, blankInner, whole⟩ := exists_blanks (rfl : rest.dropWhile isBlank = inner)
    have isName : IsName (inner.takeWhile isNameChar) :=
      ⟨by simpa [List.isEmpty_iff] using named, all_takeWhile isNameChar _⟩
    have path := Continuation.name blank blankInner isName head?_dropWhile (ih success)
    rwa [List.append_assoc between, List.takeWhile_append_dropWhile, ← whole] at path
  | case6 => cases read

theorem dropWhile_to_bracket {blanks : List Char} (blank : AllBlank blanks) (inner rest : List Char) :
    (blanks ++ '[' :: inner ++ rest).dropWhile isBlank = '[' :: (inner ++ rest) := by
  rw [List.append_assoc]
  exact dropWhile_blanks blank rfl _

/-- What continues a path is read as that. -/
theorem readContinuation_complete {chars : List Char} {segments : List Segment}
    (onward : Continuation chars segments) : readContinuation chars = .ok segments := by
  induction onward with
  | done blank => exact readContinuation_of_blank blank
  | @bracket blanks text rest segment segments blank bracket _ ih =>
    obtain ⟨inner, rfl, read⟩ := readBracket_complete bracket rest
    rw [readContinuation_of_bracket (dropWhile_to_bracket blank inner rest) read, ih]
    rfl
  | @name blanks inner name rest segments blank blankInner isName ends _ ih =>
    have start : (blanks ++ '.' :: (inner ++ name ++ rest)).dropWhile isBlank = '.' :: (inner ++ name ++ rest) :=
      dropWhile_blanks blank rfl _
    have visible : ∀ c ∈ (name ++ rest).head?, isBlank c = false := by
      rw [List.head?_append_of_ne_nil _ isName.nonempty]
      exact fun c head => isBlank_of_isNameChar (isName.all c (List.mem_of_mem_head? head))
    have behind : (inner ++ name ++ rest).dropWhile isBlank = name ++ rest := by
      rw [List.append_assoc]
      exact dropWhile_run blankInner visible
    have taken : (name ++ rest).takeWhile isNameChar = name := takeWhile_run isName.all ends
    have dropped : (name ++ rest).dropWhile isNameChar = rest := dropWhile_run isName.all ends
    rw [readContinuation_of_name start (by rw [behind, taken]; exact isName.nonempty), behind, taken, dropped, ih]
    rfl

/-- What continues a path and opens a bracket is a path. -/
theorem PathText.of_continuation {blanks rest : List Char} {segments : List Segment} (blank : AllBlank blanks)
    (onward : Continuation ('[' :: rest) segments) : PathText (blanks ++ '[' :: rest) segments := by
  have visible : ∀ more, AllBlank more → ∀ c tail, more ++ c :: tail = '[' :: rest → more = [] := by
    intro more allBlank c tail same
    cases more with
    | nil => rfl
    | cons d others =>
      cases same
      exact absurd (allBlank '[' (List.mem_cons_self ..)) (by decide)
  generalize whole : '[' :: rest = chars at onward
  cases onward with
  | done allBlank =>
    subst whole
    exact absurd (allBlank '[' (List.mem_cons_self ..)) (by decide)
  | @bracket more text behind segment segments allBlank bracket onward =>
    have blanks := List.forall_mem_append.mpr ⟨blank, allBlank⟩
    rw [← List.append_assoc, ← List.append_assoc]
    exact .bracket blanks bracket onward
  | @name more inner name behind segments allBlank _ _ _ _ =>
    obtain rfl := visible more allBlank _ _ whole.symm
    cases whole

/-- What is read as the segments of a path is one. -/
theorem readSegments_sound {chars : List Char} {segments : List Segment}
    (read : readSegments chars = .ok segments) : PathText chars segments := by
  unfold readSegments at read
  split at read
  · cases read
  · rename_i first rest start
    obtain ⟨blanks, blank, rfl⟩ := exists_blanks start
    split at read
    · rename_i named
      obtain ⟨later, success, rfl⟩ := map_eq_ok read
      have isName : IsName ((first :: rest).takeWhile isNameChar) :=
        ⟨by rw [List.takeWhile_cons_of_pos named]; exact List.cons_ne_nil _ _, all_takeWhile isNameChar _⟩
      have path := PathText.name blank isName head?_dropWhile (readContinuation_sound success)
      rwa [List.append_assoc, List.takeWhile_append_dropWhile] at path
    · split at read
      · rename_i opening
        subst opening
        exact .of_continuation blank (readContinuation_sound read)
      · cases read

/-- The segments of a path are read. -/
theorem readSegments_complete {chars : List Char} {segments : List Segment} (path : PathText chars segments) :
    readSegments chars = .ok segments := by
  cases path with
  | @name blanks name rest segments blank isName ends onward =>
    obtain ⟨first, more, rfl⟩ := List.exists_cons_of_ne_nil isName.nonempty
    have named := isName.all first (List.mem_cons_self ..)
    have start : (blanks ++ first :: more ++ rest).dropWhile isBlank = first :: (more ++ rest) := by
      rw [List.append_assoc]
      exact dropWhile_blanks blank (isBlank_of_isNameChar named) _
    have taken : (first :: (more ++ rest)).takeWhile isNameChar = first :: more := takeWhile_run isName.all ends
    have dropped : (first :: (more ++ rest)).dropWhile isNameChar = rest := dropWhile_run isName.all ends
    unfold readSegments
    simp only [start, named, if_true, taken, dropped, readContinuation_complete onward]
    rfl
  | @bracket blanks text rest segment segments blank bracket onward =>
    have read := readContinuation_complete (@Continuation.bracket [] text rest _ _ nofun bracket onward)
    obtain ⟨inner, rfl, _⟩ := readBracket_complete bracket rest
    unfold readSegments
    rw [dropWhile_to_bracket blank inner rest]
    exact read

/-- Reading a path succeeds exactly on the texts of the grammar, with their parts in order as its segments. -/
theorem AccessorPath.parse_eq_ok_iff (text : String) (path : AccessorPath) :
    AccessorPath.parse text = .ok path ↔ PathText text.toList path.segments ∧ path.text = trim text := by
  unfold AccessorPath.parse
  constructor
  · intro parsed
    split at parsed
    · rename_i segments read
      cases parsed
      exact ⟨readSegments_sound read, rfl⟩
    · cases parsed
  · rintro ⟨described, same⟩
    rw [readSegments_complete described, ← same]

end RecordQuery
