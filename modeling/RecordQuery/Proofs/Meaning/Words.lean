import Mathlib.Data.List.Infix
import RecordQuery.Proofs.Statement.Script
/-! The words of a text. An expression is written without brackets round the operands of its operators, so that its text
tells its words and their order, and no more: texts whose names and literals can be told from the words around them are
the same if and only if their words are. -/

namespace RecordQuery

/-- What stands before an operand, between two, or behind one. -/
inductive Sign where
  | minus
  | not
  | arithmetic (op : ArithmeticOp)
  | compare (op : CompareOp) (ignoreCase : Bool)
  | logical (op : LogicalOp)
  | isNull (negated : Bool)
  | between (negated : Bool)
  | like (negated ignoreCase : Bool)
  | among (negated ignoreCase patterns all : Bool)
deriving DecidableEq

namespace Sign

def text : Sign → String
  | minus => "-"
  | not => "NOT "
  | arithmetic op => " " ++ op.symbol ++ " "
  | compare op ignoreCase => " " ++ (if ignoreCase then "$" else "") ++ op.symbol ++ " "
  | logical op => " " ++ op.symbol ++ " "
  | isNull negated => if negated then " IS NOT NULL" else " IS NULL"
  | between negated => (if negated then " NOT" else "") ++ " BETWEEN "
  | like negated ignoreCase =>
    " " ++ (if negated then "NOT " else "") ++ (if ignoreCase then "$" else "") ++ "LIKE "
  | among negated ignoreCase patterns all =>
    " " ++ (if negated then "NOT " else "") ++ (if ignoreCase then "$" else "") ++ "IN "
      ++ (if patterns then "LIKE " else "") ++ (if all then "ALL " else "") ++ "("

def isLeading : Sign → Bool
  | minus | not => true
  | _ => false

/-- Whether no operand is due behind it. -/
def isTrailing : Sign → Bool
  | isNull _ => true
  | _ => false

/-- The signs that stand behind an operand. -/
def joints : List Sign :=
  [.add, .sub, .mul, .div, .mod].map arithmetic
    ++ [CompareOp.eq, .ne, .lt, .le, .gt, .ge].flatMap (fun op => [true, false].map (compare op))
    ++ [.and, .or].map logical ++ [true, false].map isNull ++ [true, false].map between
    ++ [true, false].flatMap (fun negated => [true, false].map (like negated))
    ++ [true, false].flatMap fun negated => [true, false].flatMap fun ignoreCase =>
        [true, false].flatMap fun patterns => [true, false].map (among negated ignoreCase patterns)

theorem mem_joints {sign : Sign} (behind : sign.isLeading = false) : sign ∈ joints := by
  cases sign with
  | minus | not => cases behind
  | arithmetic op => cases op <;> decide
  | compare op ignoreCase => cases op <;> cases ignoreCase <;> decide
  | logical op => cases op <;> decide
  | isNull negated | between negated => cases negated <;> decide
  | like negated ignoreCase => cases negated <;> cases ignoreCase <;> decide
  | among negated ignoreCase patterns all =>
    cases negated <;> cases ignoreCase <;> cases patterns <;> cases all <;> decide

/-- No sign behind an operand begins with another one. -/
theorem joints_apart : ∀ sign ∈ joints, ∀ other ∈ joints,
    sign.text.toList.isPrefixOf other.text.toList = true → sign = other := by
  decide +kernel

theorem joints_spaced : ∀ sign ∈ joints, sign.text.toList.head? = some ' ' := by
  decide +kernel

end Sign

inductive Word where
  /-- A literal, a path or a variable. -/
  | operand (text : String)
  /-- The name of a function with the bracket before its arguments. -/
  | call (name : String)
  /-- The beginning of a constructor. -/
  | new (typeName : String)
  | sign (sign : Sign)
  | comma
  | close
deriving DecidableEq

def Word.text : Word → String
  | operand text => text
  | call name => name ++ "("
  | new typeName => "new " ++ typeName ++ "("
  | sign own => own.text
  | comma => ", "
  | close => ")"

/-- The text of words. -/
def written (words : List Word) : List Char := words.flatMap fun word => word.text.toList

@[simp] theorem written_nil : written [] = [] := rfl

@[simp] theorem written_cons (word : Word) (words : List Word) :
    written (word :: words) = word.text.toList ++ written words := rfl

@[simp] theorem written_append (words others : List Word) :
    written (words ++ others) = written words ++ written others := List.flatMap_append

mutual
/-- The words of an expression; what is not taken apart is one word. -/
def Expr.words : Expr → List Word
  | .arithmetic op left right => left.words ++ .sign (.arithmetic op) :: right.words
  | .compare op ignoreCase left right => left.words ++ .sign (.compare op ignoreCase) :: right.words
  | .negate operand => .sign .minus :: operand.words
  | .not operand => .sign .not :: operand.words
  | .logical op left right => left.words ++ .sign (.logical op) :: right.words
  | .isNull negated operand => operand.words ++ [.sign (.isNull negated)]
  | .between negated subject lower upper =>
    subject.words ++ .sign (.between negated) :: lower.words ++ .sign (.logical .and) :: upper.words
  | .like negated ignoreCase subject pattern => subject.words ++ .sign (.like negated ignoreCase) :: pattern.words
  | .among negated ignoreCase like all subject items =>
    subject.words ++ .sign (.among negated ignoreCase like all)
      :: List.intercalate [.comma] (wordLists items) ++ [.close]
  | .call name arguments => .call name :: List.intercalate [.comma] (wordLists arguments) ++ [.close]
  | .construct typeName arguments [] => .new typeName :: List.intercalate [.comma] (wordLists arguments) ++ [.close]
  | whole => [.operand whole.meaning.text]
termination_by structural expression => expression

def wordLists : List Expr → List (List Word)
  | [] => []
  | expression :: rest => expression.words :: wordLists rest
termination_by structural expressions => expressions
end

theorem wordLists_eq_map (expressions : List Expr) : wordLists expressions = expressions.map Expr.words := by
  induction expressions with
  | nil => rfl
  | cons expression rest ih => rw [wordLists, ih, List.map_cons]

theorem written_commas (lists : List (List Word)) :
    written (List.intercalate [.comma] lists) = ", ".toList.intercalate (lists.map written) := by
  induction lists with
  | nil => rfl
  | cons first rest ih =>
    cases rest with
    | nil => simp
    | cons second others => simp [List.intercalate_cons_cons, ih, Word.text]

theorem written_wordLists {expressions : List Expr}
    (own : ∀ expression ∈ expressions, expression.meaning.text.toList = written expression.words) :
    written (List.intercalate [.comma] (wordLists expressions)) =
      ", ".toList.intercalate (((meanings expressions).map (·.text)).map String.toList) := by
  rw [written_commas, meanings_eq_map, wordLists_eq_map, List.map_map, List.map_map, List.map_map]
  exact congrArg _ (List.map_congr_left fun expression member => (own expression member).symm)

theorem Expr.text_words (expression : Expr) : expression.meaning.text.toList = written expression.words := by
  induction expression using Expr.byParts with
  | whole expression ih =>
    cases expression with
    | constant _ | member _ | bind _ _ | save _ _ | subquery _ => simp [words, Word.text]
    | among negated ignoreCase patterns all subject items =>
      obtain ⟨first, others⟩ := List.forall_mem_cons.mp ih
      have items := written_wordLists (Meaning.forall_numbered.mp others)
      simp [words, Word.text, Sign.text, Expr.meaning, Meaning.among, first, items]
    | call name arguments =>
      have arguments := written_wordLists (Meaning.forall_numbered.mp ih)
      simp [words, Word.text, Expr.meaning, Meaning.call, arguments]
    | construct typeName arguments setters =>
      cases setters with
      | nil =>
        have arguments := written_wordLists (Meaning.forall_numbered.mp (List.forall_mem_append.mp ih).1)
        simp [words, Word.text, Expr.meaning, Meaning.construct, setterMeanings, arguments]
      | cons setter rest => simp [words, Word.text]
    | _ =>
      simp only [parts, List.forall_mem_cons] at ih
      simp [words, Word.text, Sign.text, LogicalOp.symbol, Expr.meaning, Meaning.arithmetic, Meaning.compare,
        Meaning.negate, Meaning.not, Meaning.logical, Meaning.isNull, Meaning.between, Meaning.like, ih]

/-! Where words stand. -/

namespace Word

/-- Where a word leads from behind an operand, or from where one is due, if it may stand there. -/
def after (behind : Bool) : Word → Option Bool
  | operand _ => if behind then none else some true
  | call _ | new _ => if behind then none else some false
  | sign own =>
    if own.isLeading then (if behind then none else some false)
    else if behind then some own.isTrailing else none
  | comma => if behind then some false else none
  | close => some true

/-- Where words lead one after the other. -/
def afterAll (behind : Bool) (words : List Word) : Option Bool := words.foldlM after behind

@[simp] theorem afterAll_nil (behind : Bool) : afterAll behind [] = some behind := rfl

@[simp] theorem afterAll_cons (behind : Bool) (word : Word) (words : List Word) :
    afterAll behind (word :: words) = (word.after behind).bind (afterAll · words) := List.foldlM_cons

@[simp] theorem afterAll_append (behind : Bool) (words others : List Word) :
    afterAll behind (words ++ others) = (afterAll behind words).bind (afterAll · others) := List.foldlM_append

/-- From behind the last item or, without items, from where the first one is due. -/
theorem afterAll_commas {lists : List (List Word)} (own : ∀ words ∈ lists, afterAll false words = some true) :
    afterAll false (List.intercalate [comma] lists) = some !lists.isEmpty := by
  induction lists with
  | nil => rfl
  | cons first rest ih =>
    obtain ⟨here, others⟩ := List.forall_mem_cons.mp own
    cases rest with
    | nil => simpa using here
    | cons second others => simp_all [List.intercalate_cons_cons, after]

theorem afterAll_wordLists {expressions : List Expr}
    (own : ∀ expression ∈ expressions, afterAll false expression.words = some true) :
    afterAll false (List.intercalate [comma] (wordLists expressions) ++ [close]) = some true := by
  rw [afterAll_append, afterAll_commas (by rwa [wordLists_eq_map, List.forall_mem_map])]
  rfl

end Word

open Word

/-- The words of an expression lead from where an operand is due to behind it. -/
theorem Expr.afterAll_words (expression : Expr) : afterAll false expression.words = some true := by
  induction expression using Expr.byParts with
  | whole expression ih =>
    cases expression with
    | constant _ | member _ | bind _ _ | save _ _ | subquery _ => rfl
    | among _ _ _ _ subject items =>
      obtain ⟨first, others⟩ := List.forall_mem_cons.mp ih
      have items := afterAll_wordLists (Meaning.forall_numbered.mp others)
      simpa [words, after, Sign.isLeading, Sign.isTrailing, first] using items
    | call name arguments =>
      have arguments := afterAll_wordLists (Meaning.forall_numbered.mp ih)
      simpa [words, after] using arguments
    | construct typeName arguments setters =>
      cases setters with
      | nil =>
        have arguments := afterAll_wordLists (Meaning.forall_numbered.mp (List.forall_mem_append.mp ih).1)
        simpa [words, after] using arguments
      | cons setter rest => rfl
    | _ =>
      simp only [parts, List.forall_mem_cons] at ih
      simp [words, after, Sign.isLeading, Sign.isTrailing, ih]

/-! Words that are told from what is written around them. -/

/-- What ends a name or a literal. -/
def isBreak (c : Char) : Bool := c == ' ' || c == ',' || c == '(' || c == ')'

/-- No blank, comma or round bracket outside quotes, and no quote left open. -/
def isSolid (quoted : Bool) : List Char → Bool
  | [] => !quoted
  | c :: rest => (quoted || !isBreak c) && isSolid (quoted != (c == '\'')) rest

/-- A text that is told from the words around it. -/
def isPlainWord (text : String) : Bool :=
  isSolid false text.toList && text.toList.head?.any (· != '-') && text != "NOT" && text != "new"

def Word.isLegible : Word → Bool
  | operand text | call text | new text => isPlainWord text
  | _ => true

/-- Whether the names and literals of an expression are told from the words around them, as quoted texts without quotes
in them, numbers that are not negative, and paths are. -/
def Expr.isLegible (expression : Expr) : Bool := expression.words.all Word.isLegible

/-- The text up to a blank, a comma or a round bracket outside quotes, and what follows. -/
def untilBreak (quoted : Bool) : List Char → List Char × List Char
  | [] => ([], [])
  | c :: rest =>
    if !quoted && isBreak c then ([], c :: rest)
    else (untilBreak (quoted != (c == '\'')) rest).map (c :: ·) id

theorem untilBreak_append {quoted : Bool} {text : List Char} (solid : isSolid quoted text = true) {rest : List Char}
    (ends : rest.head?.all isBreak = true) : untilBreak quoted (text ++ rest) = (text, rest) := by
  induction text generalizing quoted with
  | nil =>
    cases quoted with
    | true => cases solid
    | false =>
      cases rest with
      | nil => rfl
      | cons c rest => simp_all [untilBreak]
  | cons c text ih =>
    obtain ⟨inside, solid⟩ := Bool.and_eq_true_iff.mp solid
    have goesOn : (!quoted && isBreak c) = false := by
      cases quoted <;> simp_all
    rw [List.cons_append, untilBreak, goesOn, ih solid]
    rfl

/-- The first word of a text, read where an operand is due. -/
def readDue (text : List Char) : Word × List Char :=
  if text.head? = some '-' then (.sign .minus, text.tail)
  else if text.head? = some ')' then (.close, text.tail)
  else
    let (own, rest) := untilBreak false text
    if rest.head? = some '(' then (.call (String.ofList own), rest.tail)
    else if own = "NOT".toList then (.sign .not, rest.tail)
    else if own = "new".toList then
      let (typeName, rest) := untilBreak false rest.tail
      (.new (String.ofList typeName), rest.tail)
    else (.operand (String.ofList own), rest)

/-- The first word of a text, read behind an operand. -/
def readBehind (text : List Char) : Option (Word × List Char) :=
  if text.head? = some ',' then some (.comma, text.drop 2)
  else if text.head? = some ')' then some (.close, text.tail)
  else (Sign.joints.find? fun sign => sign.text.toList.isPrefixOf text).map fun sign =>
    (.sign sign, text.drop sign.text.toList.length)

/-- The first word of a text. -/
def readWord (behind : Bool) (text : List Char) : Option (Word × List Char) :=
  if behind then readBehind text else some (readDue text)

/-- Behind an operand stands nothing, a sign with a blank before it, a comma or a closing bracket. -/
theorem head_written {words : List Word} (read : afterAll true words = some true) :
    (written words).head? ∈ [none, some ' ', some ',', some ')'] := by
  cases words with
  | nil => simp
  | cons word rest =>
    cases word with
    | operand _ | call _ | new _ => simp [after] at read
    | comma | close => simp [Word.text]
    | sign own =>
      cases leading : own.isLeading with
      | true => simp [after, leading] at read
      | false =>
        have spaced := Sign.joints_spaced own (Sign.mem_joints leading)
        simp [Word.text, spaced]

/-- A name or a literal is read up to where it ends. -/
theorem readDue_plain {text : String} (plain : isPlainWord text = true) {rest : List Char}
    (ends : rest.head?.all isBreak = true) :
    readDue (text.toList ++ rest) =
      if rest.head? = some '(' then (.call text, rest.tail) else (.operand text, rest) := by
  simp only [isPlainWord, Bool.and_eq_true, bne_iff_ne, ne_eq] at plain
  obtain ⟨⟨⟨solid, first⟩, negation⟩, construction⟩ := plain
  have minus : (text.toList ++ rest).head? ≠ some '-' := by
    cases chars : text.toList <;> simp_all
  have closing : (text.toList ++ rest).head? ≠ some ')' := by
    cases chars : text.toList with
    | nil => simp [chars] at first
    | cons c others =>
      rw [chars] at solid
      rintro ⟨⟩
      cases solid
  rw [readDue, if_neg minus, if_neg closing, untilBreak_append solid ends]
  dsimp only
  rw [if_neg (mt String.toList_inj.mp negation), if_neg (mt String.toList_inj.mp construction), String.ofList_toList]

theorem readBehind_joint {sign : Sign} (behind : sign.isLeading = false) (rest : List Char) :
    readBehind (sign.text.toList ++ rest) = some (.sign sign, rest) := by
  have member := Sign.mem_joints behind
  have spaced : (sign.text.toList ++ rest).head? = some ' ' := by
    rw [List.head?_append, Sign.joints_spaced sign member]
    rfl
  have found : Sign.joints.find? (·.text.toList.isPrefixOf (sign.text.toList ++ rest)) = some sign := by
    cases found : Sign.joints.find? (·.text.toList.isPrefixOf (sign.text.toList ++ rest)) with
    | none =>
      have missed := List.find?_eq_none.mp found sign member
      simp at missed
    | some other =>
      have fits := List.find?_some found
      rw [List.isPrefixOf_iff_prefix] at fits
      have listed := List.mem_of_find?_eq_some found
      -- Of two signs that begin one text, one begins with the other.
      rcases List.prefix_or_prefix_of_prefix fits (List.prefix_append ..) with shorter | longer
      · rw [Sign.joints_apart other listed sign member (List.isPrefixOf_iff_prefix.mpr shorter)]
      · rw [Sign.joints_apart sign member other listed (List.isPrefixOf_iff_prefix.mpr longer)]
  rw [readBehind, spaced, if_neg (by decide), if_neg (by decide), found, Option.map_some, List.drop_left]

/-- Where an operand is due, the first of the words that are written is read back. -/
theorem readDue_written {next : Bool} {word : Word} {words : List Word} (legible : word.isLegible = true)
    (stands : word.after false = some next) (read : afterAll next words = some true) :
    readDue (word.text.toList ++ written words) = (word, written words) := by
  cases word with
  | operand text =>
    cases stands
    have ends := head_written read
    have bounded : (written words).head? ≠ some '(' ∧ (written words).head?.all isBreak = true := by
      simp only [List.mem_cons, List.not_mem_nil, or_false] at ends
      rcases ends with ends | ends | ends | ends <;> rw [ends] <;> decide
    rw [Word.text, readDue_plain legible bounded.2, if_neg bounded.1]
  | call name =>
    have split : (Word.call name).text.toList ++ written words = name.toList ++ '(' :: written words := by
      simp [Word.text]
    rw [split, readDue_plain legible rfl]
    exact if_pos rfl
  | new typeName =>
    have split : (Word.new typeName).text.toList ++ written words =
        "new".toList ++ ' ' :: (typeName.toList ++ '(' :: written words) := by
      simp [Word.text]
    have solid : isSolid false typeName.toList = true := by
      simp only [Word.isLegible, isPlainWord, Bool.and_eq_true] at legible
      exact legible.1.1.1
    rw [split, readDue, if_neg (by simp), if_neg (by simp), untilBreak_append (by decide) rfl]
    dsimp only
    rw [if_neg (by simp), if_neg (by decide), if_pos rfl, List.tail_cons, untilBreak_append solid rfl,
      String.ofList_toList]
    rfl
  | sign own =>
    cases own with
    | minus => rfl
    | not =>
      have split : (Word.sign .not).text.toList ++ written words = "NOT".toList ++ ' ' :: written words := by
        simp [Word.text, Sign.text]
      rw [split, readDue, if_neg (by simp), if_neg (by simp), untilBreak_append (by decide) rfl]
      rfl
    | _ => cases stands
  | comma => cases stands
  | close => rfl

/-- The first of the words that are written is read back. -/
theorem readWord_written {behind next : Bool} {word : Word} {words : List Word} (legible : word.isLegible = true)
    (stands : word.after behind = some next) (read : afterAll next words = some true) :
    readWord behind (word.text.toList ++ written words) = some (word, written words) := by
  cases behind with
  | false => exact congrArg some (readDue_written legible stands read)
  | true =>
    cases word with
    | operand _ | call _ | new _ => cases stands
    | comma | close => rfl
    | sign own =>
      cases leading : own.isLeading with
      | true => simp [after, leading] at stands
      | false => exact readBehind_joint leading _

theorem readWord_first {behind : Bool} {word : Word} {words : List Word}
    (legible : (word :: words).all Word.isLegible = true) (read : afterAll behind (word :: words) = some true) :
    readWord behind (written (word :: words)) = some (word, written words) ∧ words.all Word.isLegible = true ∧
      ∃ next, word.after behind = some next ∧ afterAll next words = some true := by
  obtain ⟨next, stands, read⟩ := Option.bind_eq_some_iff.mp read
  rw [List.all_cons, Bool.and_eq_true] at legible
  exact ⟨readWord_written legible.1 stands read, legible.2, next, stands, read⟩

theorem readWord_nil : readWord true [] = none := by
  decide +kernel

/-- Words that are written alike are the same. -/
theorem eq_of_written {behind : Bool} {words others : List Word} (legible : words.all Word.isLegible = true)
    (otherLegible : others.all Word.isLegible = true) (read : afterAll behind words = some true)
    (otherRead : afterAll behind others = some true) (same : written words = written others) : words = others := by
  induction words generalizing behind others with
  | nil =>
    cases read
    cases others with
    | nil => rfl
    | cons other rest =>
      obtain ⟨found, -⟩ := readWord_first otherLegible otherRead
      rw [← same, written_nil, readWord_nil] at found
      cases found
  | cons word rest ih =>
    obtain ⟨found, restLegible, next, stands, restRead⟩ := readWord_first legible read
    cases others with
    | nil =>
      cases otherRead
      rw [same, written_nil, readWord_nil] at found
      cases found
    | cons other others =>
      obtain ⟨otherFound, othersLegible, otherNext, otherStands, othersRead⟩ := readWord_first otherLegible otherRead
      rw [same, otherFound] at found
      obtain ⟨rfl, restSame⟩ := Prod.mk.inj (Option.some.inj found)
      cases stands.symm.trans otherStands
      rw [ih restLegible othersLegible restRead othersRead restSame.symm]

/-- Expressions whose names and literals are told from the words around them have one text if and only if they have the
same words. -/
theorem Expr.text_eq_iff_words {expression other : Expr} (legible : expression.isLegible = true)
    (otherLegible : other.isLegible = true) :
    expression.meaning.text = other.meaning.text ↔ expression.words = other.words := by
  rw [← String.toList_inj, text_words, text_words]
  exact ⟨eq_of_written legible otherLegible expression.afterAll_words other.afterAll_words, congrArg written⟩

end RecordQuery
