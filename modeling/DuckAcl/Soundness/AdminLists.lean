import DuckAcl.Model.AdminLists
import DuckAcl.Soundness.ClientStorage
import DuckAcl.Soundness.ColumnCsv

/-! # The items of a management list

An item is written as a quoted literal, its quotes doubled. The list is split where a comma stands outside the
literals, and each literal is read as its text, whatever it holds. Two readers then change texts: a list of
values is trimmed and loses its empty ones, and the readers of the JSON drop or refuse empty values, paths and
names. A condition's path is read from double quotes, and what a claim contains from single ones.
-/

namespace DuckAcl.AdminLists

open ClientStorage

/-! ## Literals -/

/-- The two quotes. -/
inductive Mark where
  | single
  | double
deriving DecidableEq

def Mark.char : Mark → Char
  | .single => '\''
  | .double => '"'

/-- A text and the quotes it is written in. -/
structure Literal where
  mark : Mark
  text : Text

/-- The literal after its opening quote. -/
def Literal.inner (literal : Literal) : Text := Text.double literal.mark.char literal.text ++ [literal.mark.char]

def Literal.written (literal : Literal) : Text := literal.mark.char :: literal.inner

/-- Items with a comma and a blank between them. -/
def listText (items : List Text) : Text := ", ".toList.intercalate items

theorem Mark.isQuote (mark : Mark) : mark.char = '\'' ∨ mark.char = '"' := by
  cases mark with
  | single => exact .inl rfl
  | double => exact .inr rfl

private theorem Mark.notSpace (mark : Mark) : Text.isSpace mark.char = false := by
  cases mark <;> decide

private theorem Literal.inner_append (literal : Literal) (after : Text) :
    literal.inner ++ after = Text.double literal.mark.char literal.text ++ literal.mark.char :: after := by
  rw [Literal.inner, List.append_assoc, List.singleton_append]

theorem readRun_double {quote : Char} (text : Text) {after : Text} (apart : after.head? ≠ some quote) :
    readRun quote (Text.double quote text ++ quote :: after) = (Text.double quote text ++ [quote], after) := by
  induction text with
  | nil =>
    cases after with
    | nil => simp [readRun]
    | cons d after =>
      have differs : d ≠ quote := fun same => apart (congrArg some same)
      simp [readRun, differs]
  | cons c text ih =>
    by_cases same : c = quote
    · subst same
      simp [Text.double_cons, readRun, ih]
    · rw [Text.double_cons, if_neg same, List.append_assoc, List.singleton_append, readRun_cons same, ih]
      rfl

theorem runCloses_double {quote : Char} (text : Text) {after : Text} (apart : after.head? ≠ some quote) :
    runCloses quote (Text.double quote text ++ quote :: after) = true := by
  induction text with
  | nil =>
    cases after with
    | nil => simp [runCloses]
    | cons d after =>
      have differs : d ≠ quote := fun same => apart (congrArg some same)
      simp [runCloses, differs]
  | cons c text ih =>
    by_cases same : c = quote
    · subst same
      simp [Text.double_cons, runCloses, ih]
    · rw [Text.double_cons, if_neg same, List.append_assoc, List.singleton_append, runCloses.eq_def]
      simp [same, ih]

theorem readQuoted_double {quote : Char} (text : Text) {after : Text} (apart : after.head? ≠ some quote) :
    readQuoted quote (Text.double quote text ++ quote :: after) = .ok ⟨text, after⟩ := by
  induction text with
  | nil =>
    cases after with
    | nil => simp [readQuoted]
    | cons d after =>
      have differs : d ≠ quote := fun same => apart (congrArg some same)
      simp [readQuoted, differs]
  | cons c text ih =>
    by_cases same : c = quote
    · subst same
      simp [Text.double_cons, readQuoted, ih, Except.map]
    · rw [Text.double_cons, if_neg same, List.append_assoc, List.singleton_append, readQuoted.eq_def]
      simp [same, ih, Except.map]

private theorem undouble_cons {quote c : Char} (differs : c ≠ quote) (text : Text) :
    undouble quote (c :: text) = c :: undouble quote text := by
  cases text with
  | nil => rfl
  | cons d text => rw [undouble, if_neg fun both => differs both.1]

theorem undouble_double (quote : Char) (text : Text) : undouble quote (Text.double quote text) = text := by
  induction text with
  | nil => rfl
  | cons c text ih =>
    rw [Text.double_cons]
    split_ifs with same
    · subst same
      rw [List.cons_append, List.cons_append, List.nil_append, undouble, if_pos ⟨rfl, rfl⟩, ih]
    · rw [List.singleton_append, undouble_cons same, ih]

/-- A literal starts and ends with its quote. -/
theorem trim_written (literal : Literal) : Text.trim literal.written = literal.written := by
  refine Text.trim_eq_self (fun c first => ?_) (fun c last => ?_)
  · obtain rfl : literal.mark.char = c := by simpa [Literal.written] using first
    exact literal.mark.notSpace
  · obtain rfl : literal.mark.char = c := by
      simpa [Literal.written, Literal.inner, List.getLast?_cons, List.getLast?_append] using last
    exact literal.mark.notSpace

/-- A literal is unquoted as its text, whatever the text. -/
theorem unquoted_written (literal : Literal) : unquoted literal.written = literal.text := by
  have ends : literal.inner.getLast? = some literal.mark.char := by
    simp [Literal.inner, List.getLast?_append]
  have more : literal.inner ≠ [] := by simp [Literal.inner]
  rw [unquoted, trim_written, Literal.written]
  simp only [more, ne_eq, not_false_eq_true, literal.mark.isQuote, ends, and_self, ↓reduceIte]
  rw [Literal.inner, List.dropLast_concat, undouble_double]

/-! ## Splitting a list -/

/-- A literal inside an item is passed as it is. -/
theorem isPart_written (literal : Literal) {after : Text} (apart : after.head? ≠ some literal.mark.char) (depth : ℕ) :
    isPart false depth (literal.written ++ after) = isPart false depth after := by
  rw [Literal.written, List.cons_append, isPart, if_pos literal.mark.isQuote, Literal.inner_append,
    runCloses_double _ apart, readRun_double _ apart]
  rfl

/-- The characters that mean nothing to the splitting of a list. -/
def isPlain (c : Char) : Bool := c != '\'' && c != '"' && c != '(' && c != ')' && c != ','

theorem isPart_plain {text : Text} (plain : text.all isPlain = true) (after : Text) (depth : ℕ) :
    isPart false depth (text ++ after) = isPart false depth after := by
  induction text with
  | nil => rfl
  | cons c text ih =>
    rw [List.all_cons, Bool.and_eq_true] at plain
    obtain ⟨own, rest⟩ := plain
    simp only [isPlain, Bool.and_eq_true, bne_iff_ne, ne_eq] at own
    obtain ⟨⟨⟨⟨noSingle, noDouble⟩, noOpen⟩, noClose⟩, noComma⟩ := own
    rw [List.cons_append, isPart, if_neg (not_or.mpr ⟨noSingle, noDouble⟩), if_neg noOpen, if_neg fun both => noClose both.1,
      if_neg fun both => noComma both.1, ih rest]

/-- A text that is one item of a list by itself. -/
structure IsItem (text : Text) : Prop where
  part : isPart false 0 text = true
  trimmed : Text.trim text = text
  given : text ≠ []

theorem splitTopLevel_listText {items : List Text} (each : ∀ item ∈ items, IsItem item) (some : items ≠ []) :
    splitTopLevel (listText items) ',' = items := by
  have split : ∀ current, (current = [] ∨ current = [' ']) →
      (splitFrom ',' current 0 (listText items)).map Text.trim = items := by
    induction items with
    | nil => exact absurd rfl some
    | cons item rest ih =>
      intro current blank
      obtain ⟨part, trimmed, -⟩ := each item List.mem_cons_self
      have led : Text.trim (current ++ item) = item := by
        rcases blank with rfl | rfl
        · exact trimmed
        · exact (trim_blank item).trans trimmed
      cases rest with
      | nil =>
        have whole := @splitFrom_part 0 item [] current part (fun c first => by cases first)
        rw [List.append_nil] at whole
        rw [listText, List.intercalate_singleton, whole, splitFrom, List.map_singleton, led]
      | cons next rest =>
        have later := ih (fun other member => each other (List.mem_cons_of_mem _ member)) (by simp) [' '] (.inr rfl)
        have joined : listText (item :: next :: rest) = item ++ ',' :: ' ' :: listText (next :: rest) := by
          simp [listText, List.intercalate]
        have follows : Unquoted (',' :: ' ' :: listText (next :: rest)) := by
          intro c first
          cases first
          decide
        rw [joined, splitFrom_part part follows, splitFrom, if_neg (by decide), if_neg (by decide), if_neg (by decide),
          if_pos ⟨rfl, rfl⟩, splitFrom, if_neg (by decide), if_neg (by decide), if_neg (by decide), if_neg (by decide),
          List.map_cons, List.nil_append, later, led]
  exact split [] (.inl rfl)

/-- The items of a list, none where nothing is written. -/
theorem items_listText {items : List Text} (each : ∀ item ∈ items, IsItem item) :
    (splitTopLevel (listText items) ',').filter (· ≠ []) = items := by
  by_cases none : items = []
  · subst none
    simp [listText]
  · rw [splitTopLevel_listText each none, List.filter_eq_self]
    exact fun item member => decide_eq_true (each item member).given

theorem isItem_written (literal : Literal) : IsItem literal.written := by
  refine ⟨?_, trim_written literal, List.cons_ne_nil _ _⟩
  have alone := @isPart_written literal [] (by simp) 0
  rw [List.append_nil] at alone
  rw [alone, isPart]
  rfl

/-- Literals between parentheses, or at the end of an item, are one part with what they stand in. -/
theorem isPart_literals (literals : List Literal) {after : Text} (apart : ∀ mark : Mark, after.head? ≠ some mark.char)
    (depth : ℕ) : isPart false (depth + 1) (listText (literals.map Literal.written) ++ after) = isPart false (depth + 1) after := by
  induction literals with
  | nil => rfl
  | cons literal literals ih =>
    cases literals with
    | nil =>
      rw [List.map_singleton, listText, List.intercalate_singleton]
      exact isPart_written literal (apart literal.mark) (depth + 1)
    | cons next literals =>
      have joined : listText ((literal :: next :: literals).map Literal.written) ++ after =
          literal.written ++ ',' :: ' ' :: (listText ((next :: literals).map Literal.written) ++ after) := by
        simp [listText, List.intercalate]
      have follows : (',' :: ' ' :: (listText ((next :: literals).map Literal.written) ++ after)).head? ≠ some literal.mark.char := by
        cases literal.mark <;> simp [Mark.char]
      rw [joined, isPart_written literal follows, isPart, if_neg (by decide), if_neg (by decide), if_neg (by simp),
        if_neg (by simp), isPart, if_neg (by decide), if_neg (by decide), if_neg (by simp), if_neg (by simp), ih]

/-! ## The JSON of a list -/

private theorem hexValue_hexDigit : ∀ n < 16, JsonValue.hexValue (hexDigit n) = some n := by
  decide

theorem jsonQuote_spelled (value : Text) :
    ∃ spelled, JsonValue.Spelled value spelled ∧ jsonQuote value = '"' :: (spelled ++ ['"']) := by
  refine ⟨_, ?_, rfl⟩
  induction value with
  | nil => exact .nil
  | cons c value ih =>
    rw [List.flatMap_cons]
    split_ifs with escaped control
    · rcases escaped with rfl | rfl
      · exact .escape rfl ih
      · exact .escape rfl ih
    · have whole : Char.ofNat (16 * (c.toNat / 16) + c.toNat % 16) = c := by
        rw [Nat.div_add_mod]
        exact Char.ofNat_toNat c
      have spells := JsonValue.Spelled.unicode (hexValue_hexDigit (c.toNat / 16) (by omega))
        (hexValue_hexDigit (c.toNat % 16) (Nat.mod_lt _ (by decide))) ih
      rw [whole] at spells
      exact spells
    · obtain ⟨noQuote, noEscape⟩ := not_or.mp escaped
      exact .raw (Nat.le_of_not_lt control) noQuote noEscape ih

theorem jsonQuote_written (value : Text) : JsonValue.Written (.str value) (jsonQuote value) := by
  obtain ⟨spelled, spells, same⟩ := jsonQuote_spelled value
  rw [same]
  exact .str spells

theorem jsonList_written (values : List Text) : JsonValue.Written (listValue values) (jsonList values) := by
  by_cases none : values = []
  · subst none
    exact .noItems
  · exact .arr (items_intercalate (fun value _ => jsonQuote_written value) none)

/-! ## Values -/

theorem listItemsJson_written (values : List Literal) :
    listItemsJson (listText (values.map Literal.written)) =
      jsonList ((values.map fun value => Text.trim value.text).filter (· ≠ [])) := by
  rw [listItemsJson]
  by_cases none : values = []
  · subst none
    simp [listText, unquoted, Text.trim]
  · rw [splitTopLevel_listText (fun item member => ?_) (by simpa using none), List.map_map]
    · congr 2
      exact List.map_congr_left fun value _ => congrArg Text.trim (unquoted_written value)
    · obtain ⟨value, -, rfl⟩ := List.mem_map.mp member
      exact isItem_written value

private theorem trimmed_iff {values : List Literal} :
    (values.map fun value => Text.trim value.text).filter (· ≠ []) = values.map Literal.text ↔
      ∀ value ∈ values, Text.trim value.text = value.text ∧ value.text ≠ [] := by
  constructor
  · intro same
    have long : ((values.map fun value => Text.trim value.text).filter (· ≠ [])).length =
        (values.map fun value => Text.trim value.text).length := by
      rw [same, List.length_map, List.length_map]
    have full := List.length_filter_eq_length_iff.mp long
    rw [List.filter_eq_self.mpr full] at same
    intro value member
    have own := List.map_inj_left.mp same value member
    refine ⟨own, ?_⟩
    have nonempty := of_decide_eq_true (full _ (List.mem_map_of_mem member))
    rw [own] at nonempty
    exact nonempty
  · intro each
    have same : (values.map fun value => Text.trim value.text) = values.map Literal.text :=
      List.map_congr_left fun value member => (each value member).1
    rw [same, List.filter_eq_self]
    intro text member
    obtain ⟨value, among, rfl⟩ := List.mem_map.mp member
    exact decide_eq_true (each value among).2

/-- The values of a list come back exactly when none is empty or has a blank at an end. -/
theorem values_read_back {yyjsonRead : Text → Option JsonValue} (reads : JsonValue.Reads yyjsonRead) (values : List Literal)
    (key : Text) :
    stringArray (yyjsonRead (listItemsJson (listText (values.map Literal.written)))) key = .ok (values.map Literal.text) ↔
      ∀ value ∈ values, Text.trim value.text = value.text ∧ value.text ≠ [] := by
  rw [listItemsJson_written, reads _ _ (jsonList_written _), stringArray_list, List.filter_filter]
  simp only [Bool.and_self, Except.ok.injEq]
  exact trimmed_iff

/-! ## What the scanner reads -/

private theorem skip_cons {c : Char} (notSpace : Text.isSpace c = false) (text : Text) : skip (c :: text) = c :: text := by
  rw [skip, List.dropWhile_cons_of_neg (by rw [notSpace]; exact Bool.false_ne_true)]

private theorem skip_blank (text : Text) : skip (' ' :: text) = skip text := rfl

theorem skip_written (literal : Literal) (after : Text) : skip (literal.written ++ after) = literal.written ++ after :=
  skip_cons literal.mark.notSpace _

/-- A literal is read as its text, from its start or from a blank before it. -/
theorem readLiteral_written (what : Text) (literal : Literal) {after : Text} (apart : after.head? ≠ some literal.mark.char) :
    readLiteral what (literal.written ++ after) = .ok ⟨literal.text, after⟩ := by
  have read := readQuoted_double literal.text apart
  rw [← Literal.inner_append] at read
  rw [readLiteral, skip_written, Literal.written, List.cons_append]
  simp only [literal.mark.isQuote, ↓reduceIte]
  exact read

theorem readLiteral_last (what : Text) (literal : Literal) : readLiteral what (' ' :: literal.written) = .ok ⟨literal.text, []⟩ := by
  have read := @readLiteral_written what literal [] (by simp)
  rw [List.append_nil] at read
  exact read

private theorem atQuote_written (literal : Literal) (after : Text) : atQuote (literal.written ++ after) = true := by
  rw [Literal.written, List.cons_append, atQuote]
  cases literal.mark <;> rfl

theorem claimPath_written (literal : Literal) {after : Text} (apart : after.head? ≠ some literal.mark.char) :
    claimPath (literal.written ++ after) = .ok ⟨literal.text, after⟩ := by
  rw [claimPath, skip_written, if_pos (atQuote_written literal after)]
  exact readLiteral_written _ literal apart

theorem claimPath_last (literal : Literal) : claimPath (' ' :: literal.written) = .ok ⟨literal.text, []⟩ := by
  have quoted := atQuote_written literal []
  have skipped := skip_written literal []
  rw [List.append_nil] at quoted skipped
  rw [claimPath, skip_blank, skipped, if_pos quoted]
  exact readLiteral_last _ literal

theorem requireValue_last (literal : Literal) : requireValue (' ' :: literal.written) = .ok ⟨literal.text, []⟩ := by
  have quoted := atQuote_written literal []
  have skipped := skip_written literal []
  rw [List.append_nil] at quoted skipped
  rw [requireValue, skip_blank, skipped, if_pos quoted]
  exact readLiteral_last _ literal

theorem parensFrom_written (literal : Literal) {after : Text} (apart : after.head? ≠ some literal.mark.char) (depth : ℕ)
    (body : Text) : parensFrom depth body (literal.written ++ after) = parensFrom depth (body ++ literal.written) after := by
  rw [Literal.written, List.cons_append, parensFrom, if_pos literal.mark.isQuote, Literal.inner_append,
    readQuoted_double _ apart, readRun_double _ apart]
  rfl

theorem parensFrom_literals (literals : List Literal) :
    ∀ body, parensFrom 0 body (listText (literals.map Literal.written) ++ [')']) =
      .ok ⟨body ++ listText (literals.map Literal.written), []⟩ := by
  induction literals with
  | nil =>
    intro body
    rw [List.map_nil, listText, List.intercalate_nil, List.nil_append, parensFrom, if_neg (by decide), if_neg (by decide),
      if_pos ⟨rfl, rfl⟩, List.append_nil]
  | cons literal literals ih =>
    intro body
    cases literals with
    | nil =>
      rw [List.map_singleton, listText, List.intercalate_singleton, parensFrom_written literal (by cases literal.mark <;> simp [Mark.char]),
        parensFrom, if_neg (by decide), if_neg (by decide), if_pos ⟨rfl, rfl⟩]
    | cons next literals =>
      have joined : listText ((literal :: next :: literals).map Literal.written) =
          literal.written ++ ',' :: ' ' :: listText ((next :: literals).map Literal.written) := by
        simp [listText, List.intercalate]
      rw [joined, List.append_assoc, parensFrom_written literal (by cases literal.mark <;> simp [Mark.char]), List.cons_append,
        List.cons_append, parensFrom, if_neg (by decide), if_neg (by decide), if_neg (by decide), if_neg (by decide), parensFrom,
        if_neg (by decide), if_neg (by decide), if_neg (by decide), if_neg (by decide), ih]
      simp

/-- A text with no blank at either end. -/
private def Ends (text : Text) : Prop := (∀ c ∈ text.head?, Text.isSpace c = false) ∧ ∀ c ∈ text.getLast?, Text.isSpace c = false

private theorem ends_append {first between last : Text} (starts : Ends first) (given : first ≠ []) (ending : Ends last)
    (given' : last ≠ []) : Ends (first ++ between ++ last) := by
  refine ⟨fun c head => starts.1 c ?_, fun c tail => ending.2 c ?_⟩
  · obtain ⟨d, rest, rfl⟩ := List.exists_cons_of_ne_nil given
    exact head
  · rw [List.getLast?_append_of_ne_nil _ given'] at tail
    exact tail

private theorem ends_written (literal : Literal) : Ends literal.written := by
  have ends := Text.trim_ends literal.written
  rw [trim_written] at ends
  exact ends

theorem trim_listText (literals : List Literal) :
    Text.trim (listText (literals.map Literal.written)) = listText (literals.map Literal.written) := by
  have ends : Ends (listText (literals.map Literal.written)) := by
    induction literals with
    | nil => exact ⟨fun c first => (Option.not_mem_none c first).elim, fun c last => (Option.not_mem_none c last).elim⟩
    | cons literal literals ih =>
      cases literals with
      | nil =>
        rw [List.map_singleton, listText, List.intercalate_singleton]
        exact ends_written literal
      | cons next literals =>
        rw [List.map_cons, listText, List.intercalate_cons_of_ne_nil (by simp)]
        refine ends_append (ends_written literal) (List.cons_ne_nil _ _) ih ?_
        cases literals <;> simp [List.intercalate, Literal.written]
  exact Text.trim_eq_self ends.1 ends.2

/-- Literals between parentheses, after a blank. -/
theorem parens_literals (literals : List Literal) :
    parens (' ' :: '(' :: (listText (literals.map Literal.written) ++ [')'])) =
      .ok ⟨listText (literals.map Literal.written), []⟩ := by
  have skipped : skip (' ' :: '(' :: (listText (literals.map Literal.written) ++ [')'])) =
      '(' :: (listText (literals.map Literal.written) ++ [')']) := rfl
  rw [parens, skipped]
  simp only [parensFrom_literals, List.nil_append, Except.map, trim_listText]

/-- The texts of a list between parentheses. -/
theorem unquoted_items (literals : List Literal) :
    ((splitTopLevel (listText (literals.map Literal.written)) ',').filter (· ≠ [])).map unquoted = literals.map Literal.text := by
  rw [items_listText, List.map_map]
  · exact List.map_congr_left fun literal _ => unquoted_written literal
  · intro item member
    obtain ⟨literal, -, rfl⟩ := List.mem_map.mp member
    exact isItem_written literal

/-! ## Conditions -/

/-- A condition as it is written. -/
inductive ConditionItem where
  | equals (path value : Literal)
  | oneOf (path : Literal) (values : List Literal)
  | contains (value path : Literal)
  | like (path pattern : Literal)

namespace ConditionItem

def text : ConditionItem → Text
  | equals path value => path.written ++ " = ".toList ++ value.written
  | oneOf path values => path.written ++ " IN (".toList ++ (listText (values.map Literal.written) ++ [')'])
  | contains value path => value.written ++ " IN ".toList ++ path.written
  | like path pattern => path.written ++ " LIKE ".toList ++ pattern.written

def meant : ConditionItem → ClaimCondition
  | equals path value => { path := path.text, op := .equals, values := [value.text] }
  | oneOf path values => { path := path.text, op := .oneOf, values := values.map Literal.text }
  | contains value path => { path := path.text, op := .contains, values := [value.text] }
  | like path pattern => { path := path.text, op := .like, values := [pattern.text] }

/-- The first literal is in the quotes that tell its kind. -/
def Placed : ConditionItem → Prop
  | equals path _ => path.mark = .double
  | oneOf path _ => path.mark = .double
  | contains value _ => value.mark = .single
  | like path _ => path.mark = .double

/-- No text of the condition is empty, and there is a value. -/
def Filled : ConditionItem → Prop
  | equals path value => path.text ≠ [] ∧ value.text ≠ []
  | oneOf path values => path.text ≠ [] ∧ values ≠ [] ∧ ∀ value ∈ values, value.text ≠ []
  | contains value path => path.text ≠ [] ∧ value.text ≠ []
  | like path pattern => path.text ≠ [] ∧ pattern.text ≠ []

end ConditionItem

private theorem isItem_of {text : Text} (part : isPart false 0 text = true) (ends : Ends text) (given : text ≠ []) :
    IsItem text := ⟨part, Text.trim_eq_self ends.1 ends.2, given⟩

private theorem blank_apart {between : Text} (blank : between.head? = some ' ') (after : Text) (mark : Mark) :
    (between ++ after).head? ≠ some mark.char := by
  cases between with
  | nil => cases blank
  | cons c between =>
    obtain rfl : c = ' ' := by simpa using blank
    cases mark <;> simp [Mark.char]

/-- Two literals with plain characters between them are one item. -/
theorem isItem_pair {between : Text} (plain : between.all isPlain = true) (blank : between.head? = some ' ')
    (first second : Literal) : IsItem (first.written ++ between ++ second.written) := by
  refine isItem_of ?_ (ends_append (ends_written first) (List.cons_ne_nil _ _) (ends_written second) (List.cons_ne_nil _ _)) ?_
  · rw [List.append_assoc, isPart_written first (blank_apart blank _ _), isPart_plain plain]
    exact (isItem_written second).part
  · simp [Literal.written]

private theorem parens_apart (mark : Mark) : ([')'] : Text).head? ≠ some mark.char := by
  cases mark <;> simp [Mark.char]

/-- A list between parentheses closes what it opens. -/
private theorem isPart_parens (literals : List Literal) :
    isPart false 0 ('(' :: (listText (literals.map Literal.written) ++ [')'])) = true := by
  rw [isPart, if_neg (by decide), if_pos rfl, isPart_literals literals parens_apart 0, isPart, if_neg (by decide),
    if_neg (by decide), if_pos ⟨rfl, Nat.succ_pos 0⟩, isPart]
  rfl

private theorem keywords : " = ".toList = [' ', '=', ' '] ∧ " IN (".toList = [' ', 'I', 'N', ' ', '('] ∧
    " IN ".toList = [' ', 'I', 'N', ' '] ∧ " LIKE ".toList = [' ', 'L', 'I', 'K', 'E', ' '] ∧
      " => ".toList = [' ', '=', '>', ' '] ∧ " = (".toList = [' ', '=', ' ', '('] ∧
        " = CONSTANT ".toList = [' ', '=', ' ', 'C', 'O', 'N', 'S', 'T', 'A', 'N', 'T', ' '] := by
  decide

theorem isItem_condition (item : ConditionItem) : IsItem item.text := by
  cases item with
  | equals path value => exact isItem_pair (by decide) (by decide) path value
  | contains value path => exact isItem_pair (by decide) (by decide) value path
  | like path pattern => exact isItem_pair (by decide) (by decide) path pattern
  | oneOf path values =>
    refine isItem_of ?_ ⟨fun c first => ?_, fun c last => ?_⟩ (by simp [ConditionItem.text, Literal.written])
    · have spelled := keywords.2.1
      rw [ConditionItem.text, spelled, List.append_assoc, isPart_written path (by cases path.mark <;> simp [Mark.char])]
      have led := @isPart_plain [' ', 'I', 'N', ' '] (by decide) ('(' :: (listText (values.map Literal.written) ++ [')'])) 0
      exact led.trans (isPart_parens values)
    · exact (ends_written path).1 c first
    · rw [ConditionItem.text, List.getLast?_append_of_ne_nil _ (by simp), List.getLast?_concat] at last
      obtain rfl : ')' = c := by simpa using last
      decide

/-- A condition as it is read. -/
def ConditionItem.read (item : ConditionItem) : ReadCondition := ⟨item.meant.path, item.meant.op.text, item.meant.values⟩

private theorem readCondition_path {path : Literal} (isDouble : path.mark = .double) {after : Text}
    (blank : after.head? = some ' ') :
    readCondition (path.written ++ after) = conditionAfter (path.written ++ after) path.text (skip after) := by
  have apart : after.head? ≠ some path.mark.char := by
    rw [blank]
    cases path.mark <;> simp [Mark.char]
  have notValue : (skip (path.written ++ after)).head? ≠ some '\'' := by
    rw [skip_written, Literal.written, isDouble]
    simp [Mark.char]
  rw [readCondition, if_neg notValue, claimPath_written path apart]
  rfl

private theorem readCondition_value {value : Literal} (isSingle : value.mark = .single) {after : Text}
    (blank : after.head? = some ' ') :
    readCondition (value.written ++ after) = (expect "in".toList after).bind fun rest =>
      (claimPath rest).map fun path => ⟨⟨path.value, "contains".toList, [value.text]⟩, path.rest⟩ := by
  have apart : after.head? ≠ some value.mark.char := by
    rw [blank]
    cases value.mark <;> simp [Mark.char]
  have isValue : (skip (value.written ++ after)).head? = some '\'' := by
    rw [skip_written, Literal.written, isSingle]
    rfl
  rw [readCondition, if_pos isValue, readLiteral_written _ value apart]
  rfl

/-- A condition whose first literal is placed is read as it is written. -/
theorem readCondition_text {item : ConditionItem} (placed : item.Placed) : readCondition item.text = .ok ⟨item.read, []⟩ := by
  obtain ⟨equals, oneOf, contains, like, -⟩ := keywords
  cases item with
  | equals path value =>
    rw [ConditionItem.text, equals, List.append_assoc, readCondition_path placed rfl]
    have skipped : skip ([' ', '=', ' '] ++ value.written) = '=' :: ' ' :: value.written := rfl
    rw [skipped, conditionAfter, List.head?_cons, if_pos rfl, List.tail_cons, requireValue_last]
    rfl
  | oneOf path values =>
    rw [ConditionItem.text, oneOf, List.append_assoc, readCondition_path placed rfl]
    have skipped : skip ([' ', 'I', 'N', ' ', '('] ++ (listText (values.map Literal.written) ++ [')'])) =
        'I' :: 'N' :: ' ' :: '(' :: (listText (values.map Literal.written) ++ [')']) := rfl
    have accepted (rest : Text) : accept "in".toList ('I' :: 'N' :: ' ' :: rest) = some (' ' :: rest) := rfl
    rw [skipped, conditionAfter, if_neg (by simp), accepted]
    simp only [parens_literals, Except.map, unquoted_items]
    rfl
  | contains value path =>
    rw [ConditionItem.text, contains, List.append_assoc, readCondition_value placed rfl]
    have expected : expect "in".toList ([' ', 'I', 'N', ' '] ++ path.written) = .ok (' ' :: path.written) := rfl
    rw [expected]
    simp only [Except.bind, claimPath_last, Except.map]
    rfl
  | like path pattern =>
    rw [ConditionItem.text, like, List.append_assoc, readCondition_path placed rfl]
    have skipped : skip ([' ', 'L', 'I', 'K', 'E', ' '] ++ pattern.written) =
        'L' :: 'I' :: 'K' :: 'E' :: ' ' :: pattern.written := rfl
    have refused (rest : Text) : accept "in".toList ('L' :: 'I' :: 'K' :: 'E' :: ' ' :: rest) = none := rfl
    have accepted (rest : Text) : accept "like".toList ('L' :: 'I' :: 'K' :: 'E' :: ' ' :: rest) = some (' ' :: rest) := rfl
    rw [skipped, conditionAfter, if_neg (by simp), refused, accepted]
    simp only [readLiteral_last, Except.map]
    rfl

theorem requireItem_placed {item : ConditionItem} (placed : item.Placed) :
    requireItem item.text = .ok (conditionJson item.read) := by
  rw [requireItem, readCondition_text placed]
  rfl

private theorem Mark.ne_double {mark : Mark} (other : mark ≠ .double) : mark = .single := by
  cases mark with
  | single => rfl
  | double => exact absurd rfl other

private theorem Mark.ne_single {mark : Mark} (other : mark ≠ .single) : mark = .double := by
  cases mark with
  | single => exact absurd rfl other
  | double => rfl

/-- A condition whose first literal is in the other quotes is refused. -/
theorem requireItem_misplaced {item : ConditionItem} (misplaced : ¬ item.Placed) (json : Text) :
    requireItem item.text ≠ .ok json := by
  obtain ⟨equals, oneOf, contains, like, -⟩ := keywords
  intro read
  cases item with
  | equals path value =>
    rw [ConditionItem.text, equals, List.append_assoc, requireItem, readCondition_value (Mark.ne_double misplaced) rfl] at read
    cases read
  | oneOf path values =>
    rw [ConditionItem.text, oneOf, List.append_assoc, requireItem, readCondition_value (Mark.ne_double misplaced) rfl] at read
    cases read
  | contains value path =>
    rw [ConditionItem.text, contains, List.append_assoc, requireItem, readCondition_path (Mark.ne_single misplaced) rfl] at read
    have skipped : skip ([' ', 'I', 'N', ' '] ++ path.written) = 'I' :: 'N' :: ' ' :: path.written := rfl
    have accepted (rest : Text) : accept "in".toList ('I' :: 'N' :: ' ' :: rest) = some (' ' :: rest) := rfl
    have rest := skip_written path []
    rw [List.append_nil] at rest
    have none : parens (' ' :: path.written) = .ok ⟨[], path.written⟩ := by
      rw [parens, skip_blank, rest, Literal.written]
      cases path.mark <;> rfl
    rw [skipped, conditionAfter, if_neg (by simp), accepted] at read
    simp only [none, Except.map, Except.bind, rest] at read
    have more : path.written ≠ [] := List.cons_ne_nil _ _
    rw [if_pos more] at read
    cases read
  | like path pattern =>
    rw [ConditionItem.text, like, List.append_assoc, requireItem, readCondition_value (Mark.ne_double misplaced) rfl] at read
    cases read

theorem conditionJson_written (item : ConditionItem) :
    JsonValue.Written (conditionValue item.meant) (conditionJson item.read) :=
  condition_shape (jsonQuote_written _) (jsonQuote_written _) (jsonList_written _)

/-- A condition's object is read as the condition exactly when nothing of it is empty. -/
theorem conditionOf_meant (item : ConditionItem) : conditionOf (conditionValue item.meant) = .ok item.meant ↔ item.Filled := by
  have proper_iff (condition : ClaimCondition) (single : condition.op ≠ .oneOf → condition.values.length = 1) :
      conditionOf (conditionValue condition) = .ok condition ↔
        condition.path ≠ [] ∧ condition.values ≠ [] ∧ [] ∉ condition.values := by
    constructor
    · intro read
      have proper := conditionOf_proper read
      exact ⟨proper.path, proper.values, (conditionOf_value proper).mp read⟩
    · rintro ⟨path, values, full⟩
      exact (conditionOf_value ⟨path, values, single⟩).mpr full
  cases item with
  | equals path value =>
    rw [proper_iff _ fun _ => rfl]
    simp [ConditionItem.meant, ConditionItem.Filled, eq_comm]
  | oneOf path values =>
    rw [proper_iff _ fun other => absurd rfl other]
    simp [ConditionItem.meant, ConditionItem.Filled]
  | contains value path =>
    rw [proper_iff _ fun _ => rfl]
    simp [ConditionItem.meant, ConditionItem.Filled, eq_comm]
  | like path pattern =>
    rw [proper_iff _ fun _ => rfl]
    simp [ConditionItem.meant, ConditionItem.Filled, eq_comm]

/-- A sequence answers with what its items stand for exactly when each step does. -/
private theorem mapM_map_iff {α β γ : Type} {step : β → Except Text γ} {item : α → β} {answer : α → γ} {list : List α} :
    (list.map item).mapM step = .ok (list.map answer) ↔ ∀ a ∈ list, step (item a) = .ok (answer a) := by
  induction list with
  | nil => exact iff_of_true rfl fun _ member => (List.not_mem_nil member).elim
  | cons a list ih =>
    rw [List.map_cons, List.mapM_cons, List.map_cons, Outcome.bind_eq_ok, List.forall_mem_cons, ← ih]
    constructor
    · rintro ⟨first, here, ran⟩
      obtain ⟨rest, later, ran⟩ := Outcome.bind_eq_ok.mp ran
      obtain ⟨rfl, rfl⟩ := List.cons.inj (Except.ok.inj ran)
      exact ⟨here, later⟩
    · rintro ⟨here, later⟩
      exact ⟨answer a, here, Outcome.bind_eq_ok.mpr ⟨list.map answer, later, rfl⟩⟩

/-- A sequence that answers does so at each item. -/
private theorem ok_of_mapM {α β γ : Type} {step : β → Except Text γ} {item : α → β} {list : List α} {answers : List γ}
    (ran : (list.map item).mapM step = .ok answers) : ∀ a ∈ list, ∃ answer, step (item a) = .ok answer := by
  induction list generalizing answers with
  | nil => exact fun _ member => (List.not_mem_nil member).elim
  | cons a list ih =>
    rw [List.map_cons, List.mapM_cons, Outcome.bind_eq_ok] at ran
    obtain ⟨first, here, ran⟩ := ran
    obtain ⟨rest, later, -⟩ := Outcome.bind_eq_ok.mp ran
    intro other member
    rcases List.mem_cons.mp member with rfl | member
    · exact ⟨first, here⟩
    · exact ih later other member

/-- Items between brackets. -/
private theorem array_written {α : Type} {value : α → JsonValue} {text : α → Text} {list : List α}
    (each : ∀ a ∈ list, JsonValue.Written (value a) (text a)) :
    JsonValue.Written (.arr (list.map value)) ('[' :: ([','].intercalate (list.map text) ++ [']'])) := by
  by_cases none : list = []
  · subst none
    exact .noItems
  · exact .arr (items_intercalate each none)

variable {yyjsonRead : Text → Option JsonValue}

/-- Conditions come back exactly when each is in the quotes of its kind and has no empty text. -/
theorem conditions_read_back (reads : JsonValue.Reads yyjsonRead) (items : List ConditionItem) :
    (∃ json value, requireJson (listText (items.map ConditionItem.text)) = .ok json ∧ yyjsonRead json = some value ∧
        conditionsOf (some value) = .ok (items.map ConditionItem.meant)) ↔
      ∀ item ∈ items, item.Placed ∧ item.Filled := by
  have split : (splitTopLevel (listText (items.map ConditionItem.text)) ',').filter (· ≠ []) = items.map ConditionItem.text := by
    refine items_listText fun text member => ?_
    obtain ⟨item, -, rfl⟩ := List.mem_map.mp member
    exact isItem_condition item
  have written := array_written fun (item : ConditionItem) (_ : item ∈ items) => conditionJson_written item
  rw [requireJson, split]
  constructor
  · rintro ⟨json, value, isJson, isValue, read⟩
    obtain ⟨texts, ran, rfl⟩ := map_eq_ok.mp isJson
    have placed (item : ConditionItem) (member : item ∈ items) : item.Placed := by
      obtain ⟨text, isText⟩ := ok_of_mapM ran item member
      by_contra misplaced
      exact requireItem_misplaced misplaced text isText
    rw [mapM_map_iff.mpr fun item member => requireItem_placed (placed item member)] at ran
    cases ran
    rw [reads _ _ written] at isValue
    cases isValue
    have each : ∀ condition ∈ items.map ConditionItem.meant, conditionOf (conditionValue condition) = .ok condition := by
      refine mapM_answers.mp ?_
      rw [List.map_map]
      exact read
    exact fun item member => ⟨placed item member, (conditionOf_meant item).mp (each _ (List.mem_map_of_mem member))⟩
  · intro each
    refine ⟨_, _, ?_, reads _ _ written, ?_⟩
    · rw [mapM_map_iff.mpr fun item member => requireItem_placed (each item member).1]
      rfl
    · have answers : ∀ condition ∈ items.map ConditionItem.meant, conditionOf (conditionValue condition) = .ok condition := by
        intro condition member
        obtain ⟨item, among, rfl⟩ := List.mem_map.mp member
        exact (conditionOf_meant item).mpr (each item among).2
      have ran := mapM_answers.mpr answers
      rw [List.map_map] at ran
      exact ran

/-! ## Attributes -/

/-- The characters of a word, one at least. -/
structure AttributeName where
  text : Text
  given : text ≠ []
  word : ∀ c ∈ text, isWordChar c = true

/-- An attribute as it is written. -/
inductive AttributeItem where
  | one (name : AttributeName) (path : Literal)
  | several (name : AttributeName) (paths : List Literal)
  | constant (name : AttributeName) (value : Literal)

namespace AttributeItem

def text : AttributeItem → Text
  | one name path => name.text ++ " = ".toList ++ path.written
  | several name paths => name.text ++ " = (".toList ++ (listText (paths.map Literal.written) ++ [')'])
  | constant name value => name.text ++ " = CONSTANT ".toList ++ value.written

def name : AttributeItem → AttributeName
  | one name _ => name
  | several name _ => name
  | constant name _ => name

/-- What the attribute is read from. -/
def source : AttributeItem → Text ⊕ List Text
  | one _ path => .inr [path.text]
  | several _ paths => .inr (paths.map Literal.text)
  | constant _ value => .inl value.text

def meant : AttributeItem → AttributeDef
  | one name path => { name := name.text, paths := [path.text] }
  | several name paths => { name := name.text, paths := paths.map Literal.text }
  | constant name value => { name := name.text, isConstant := true, constant := value.text }

/-- There is a path, and none is empty. -/
def Filled : AttributeItem → Prop
  | one _ path => path.text ≠ []
  | several _ paths => paths ≠ [] ∧ ∀ path ∈ paths, path.text ≠ []
  | constant _ _ => True

end AttributeItem

private theorem word_notSpace {c : Char} (word : isWordChar c = true) : Text.isSpace c = false := by
  rw [Bool.eq_false_iff]
  intro space
  simp only [Text.isSpace, Bool.or_eq_true, beq_iff_eq] at space
  rcases space with ((((rfl | rfl) | rfl) | rfl) | rfl) | rfl
  all_goals exact absurd word (by decide)

private theorem word_plain {c : Char} (word : isWordChar c = true) : isPlain c = true := by
  simp only [isPlain, Bool.and_eq_true, bne_iff_ne, ne_eq]
  refine ⟨⟨⟨⟨?_, ?_⟩, ?_⟩, ?_⟩, ?_⟩
  all_goals
    rintro rfl
    exact absurd word (by decide)

private theorem name_plain (name : AttributeName) : name.text.all isPlain = true :=
  List.all_eq_true.mpr fun c member => word_plain (name.word c member)

private theorem name_starts (name : AttributeName) (after : Text) :
    ∀ c ∈ (name.text ++ after).head?, Text.isSpace c = false := by
  obtain ⟨d, rest, same⟩ := List.exists_cons_of_ne_nil name.given
  intro c first
  rw [same] at first
  obtain rfl : d = c := by simpa using first
  exact word_notSpace (name.word d (by rw [same]; exact List.mem_cons_self))

theorem isItem_attribute (item : AttributeItem) : IsItem item.text := by
  obtain ⟨equals, -, -, -, -, list, constant⟩ := keywords
  have literal (name : AttributeName) (literal : Literal) {between : Text} (plain : between.all isPlain = true) :
      IsItem (name.text ++ between ++ literal.written) := by
    refine isItem_of ?_ ⟨?_, fun c last => ?_⟩ (by simp [Literal.written])
    · rw [List.append_assoc, isPart_plain (name_plain name), isPart_plain plain]
      exact (isItem_written literal).part
    · rw [List.append_assoc]
      exact name_starts name _
    · rw [List.getLast?_append_of_ne_nil _ (show literal.written ≠ [] from List.cons_ne_nil _ _)] at last
      exact (ends_written literal).2 c last
  cases item with
  | one name path => exact literal name path (by decide)
  | constant name value => exact literal name value (by decide)
  | several name paths =>
    refine isItem_of ?_ ⟨?_, fun c last => ?_⟩ (by simp [AttributeItem.text])
    · rw [AttributeItem.text, list, List.append_assoc, isPart_plain (name_plain name)]
      have led := @isPart_plain [' ', '=', ' '] (by decide) ('(' :: (listText (paths.map Literal.written) ++ [')'])) 0
      exact led.trans (isPart_parens paths)
    · rw [AttributeItem.text, List.append_assoc]
      exact name_starts name _
    · rw [AttributeItem.text, List.getLast?_append_of_ne_nil _ (by simp), List.getLast?_concat] at last
      obtain rfl : ')' = c := by simpa using last
      decide

private theorem word_name (what : Text) (name : AttributeName) (after : Text) :
    word what (name.text ++ ' ' :: after) = .ok ⟨name.text, ' ' :: after⟩ := by
  have skipped : skip (name.text ++ ' ' :: after) = name.text ++ ' ' :: after := by
    obtain ⟨d, rest, same⟩ := List.exists_cons_of_ne_nil name.given
    rw [same, List.cons_append]
    exact skip_cons (word_notSpace (name.word d (by rw [same]; exact List.mem_cons_self))) _
  have read : readWord (name.text ++ ' ' :: after) = ⟨name.text, ' ' :: after⟩ := by
    have stops : isWordChar ' ' = false := by decide
    rw [readWord, List.takeWhile_append_of_pos name.word, List.dropWhile_append_of_pos name.word,
      List.takeWhile_cons_of_neg (by simp [stops]), List.dropWhile_cons_of_neg (by simp [stops]), List.append_nil]
  rw [word, skipped, read, if_neg name.given]

/-- An attribute is read as it is written. -/
theorem attributeItem_text (item : AttributeItem) : attributeItem item.text = .ok (attributeJson item.name.text item.source) := by
  obtain ⟨equals, -, -, -, -, list, constant⟩ := keywords
  have started (name : AttributeName) (rest : Text) (source : Text ⊕ List Text) (read : readSource rest = .ok ⟨source, []⟩) :
      attributeItem (name.text ++ ' ' :: '=' :: rest) = .ok (attributeJson name.text source) := by
    have skipped : skip (' ' :: '=' :: rest) = '=' :: rest := rfl
    rw [attributeItem, word_name]
    simp only [Except.bind, skipped, List.head?_cons, ne_eq, not_true_eq_false, ↓reduceIte, List.tail_cons, read]
    rfl
  cases item with
  | one name path =>
    rw [AttributeItem.text, equals, List.append_assoc]
    refine started name (' ' :: path.written) _ ?_
    have skipped := skip_written path []
    rw [List.append_nil] at skipped
    have notConstant : accept "constant".toList (' ' :: path.written) = none := by
      rw [accept, skip_blank, skipped, Literal.written]
      cases path.mark <;> rfl
    have notList : ¬ (skip (' ' :: path.written)).head? = some '(' := by
      rw [skip_blank, skipped, Literal.written]
      cases path.mark <;> simp [Mark.char]
    rw [readSource, notConstant]
    simp only [notList, ↓reduceIte, claimPath_last]
    rfl
  | several name paths =>
    rw [AttributeItem.text, list, List.append_assoc]
    refine started name (' ' :: '(' :: (listText (paths.map Literal.written) ++ [')'])) _ ?_
    have notConstant (rest : Text) : accept "constant".toList (' ' :: '(' :: rest) = none := rfl
    have isList (rest : Text) : (skip (' ' :: '(' :: rest)).head? = some '(' := rfl
    rw [readSource, notConstant]
    simp only [isList, ↓reduceIte, parens_literals, Except.map, unquoted_items]
    rfl
  | constant name value =>
    rw [AttributeItem.text, constant, List.append_assoc]
    refine started name (' ' :: 'C' :: 'O' :: 'N' :: 'S' :: 'T' :: 'A' :: 'N' :: 'T' :: ' ' :: value.written) _ ?_
    have accepted : accept "constant".toList (' ' :: 'C' :: 'O' :: 'N' :: 'S' :: 'T' :: 'A' :: 'N' :: 'T' :: ' ' :: value.written) =
        some (' ' :: value.written) := rfl
    rw [readSource, accepted]
    simp only [readLiteral_last]
    rfl

theorem attributeJson_written (item : AttributeItem) :
    JsonValue.Written (attributeValue item.meant) (attributeJson item.name.text item.source) := by
  cases item with
  | one name path =>
    have written := paths_shape (jsonQuote_written name.text) (jsonList_written [path.text])
    rw [← List.append_assoc] at written
    exact written
  | several name paths =>
    have written := paths_shape (jsonQuote_written name.text) (jsonList_written (paths.map Literal.text))
    rw [← List.append_assoc] at written
    exact written
  | constant name value =>
    have written := constant_shape (jsonQuote_written name.text) (jsonQuote_written value.text)
    rw [← List.append_assoc] at written
    exact written

theorem attributeOf_meant (item : AttributeItem) : attributeOf (attributeValue item.meant) = .ok item.meant ↔ item.Filled := by
  have paths_iff (name : AttributeName) (paths : List Text) :
      attributeOf (attributeValue { name := name.text, paths }) = .ok { name := name.text, paths } ↔ paths ≠ [] ∧ [] ∉ paths := by
    constructor
    · intro read
      have proper := attributeOf_proper read
      exact ⟨(proper.paths rfl).1, ((attributeOf_value proper).mp read).resolve_left Bool.false_ne_true⟩
    · rintro ⟨given, full⟩
      exact (attributeOf_value ⟨name.given, fun is => absurd is Bool.false_ne_true, fun _ => ⟨given, rfl⟩⟩).mpr (.inr full)
  cases item with
  | one name path =>
    refine (paths_iff name [path.text]).trans ?_
    simp [AttributeItem.Filled, eq_comm]
  | several name paths =>
    refine (paths_iff name (paths.map Literal.text)).trans ?_
    simp [AttributeItem.Filled]
  | constant name value =>
    refine iff_of_true ((attributeOf_value ⟨name.given, fun _ => rfl, fun not => ?_⟩).mpr (.inl rfl)) trivial
    cases not

/-- Attributes come back exactly when each that has no constant has a path, and no empty one. -/
theorem attributes_read_back (reads : JsonValue.Reads yyjsonRead) (items : List AttributeItem) :
    (∃ json value, attributesJson (listText (items.map AttributeItem.text)) = .ok json ∧ yyjsonRead json = some value ∧
        attributesOf (some value) = .ok (items.map AttributeItem.meant)) ↔ ∀ item ∈ items, item.Filled := by
  have split : (splitTopLevel (listText (items.map AttributeItem.text)) ',').filter (· ≠ []) = items.map AttributeItem.text := by
    refine items_listText fun text member => ?_
    obtain ⟨item, -, rfl⟩ := List.mem_map.mp member
    exact isItem_attribute item
  have written := array_written fun (item : AttributeItem) (_ : item ∈ items) => attributeJson_written item
  have isJson : attributesJson (listText (items.map AttributeItem.text)) =
      .ok ('[' :: ([','].intercalate (items.map fun item => attributeJson item.name.text item.source) ++ [']'])) := by
    rw [attributesJson, split, mapM_map_iff.mpr fun item _ => attributeItem_text item]
    rfl
  have answers : attributesOf (some (.arr (items.map fun item => attributeValue item.meant))) = .ok (items.map AttributeItem.meant) ↔
      ∀ item ∈ items, item.Filled := by
    have each := @mapM_answers JsonValue AttributeDef attributeOf attributeValue (items.map AttributeItem.meant)
    rw [List.map_map, List.forall_mem_map] at each
    exact each.trans (forall₂_congr fun item _ => attributeOf_meant item)
  rw [isJson, ← answers]
  constructor
  · rintro ⟨json, value, same, isValue, read⟩
    cases same
    rw [reads _ _ written] at isValue
    cases isValue
    exact read
  · exact fun read => ⟨_, _, rfl, reads _ _ written, read⟩

/-! ## Claim mappings -/

/-- A claim mapping as it is written. -/
structure MappingItem where
  path : Literal
  name : Literal

namespace MappingItem

def text (item : MappingItem) : Text := item.path.written ++ " => ".toList ++ item.name.written

def meant (item : MappingItem) : AttributeDef := { name := item.name.text, paths := [item.path.text] }

end MappingItem

private theorem splitArrow_opened {quote c : Char} {rest : Text} (more : rest ≠ []) (before : Text) :
    splitArrow (some quote) before (c :: rest) = splitArrow (if c = quote then none else some quote) (before ++ [c]) rest := by
  obtain ⟨d, rest, rfl⟩ := List.exists_cons_of_ne_nil more
  rw [splitArrow]

private theorem splitArrow_quote {c : Char} {rest : Text} (isQuote : c = '\'' ∨ c = '"') (more : rest ≠ []) (before : Text) :
    splitArrow none before (c :: rest) = splitArrow (some c) (before ++ [c]) rest := by
  obtain ⟨d, rest, rfl⟩ := List.exists_cons_of_ne_nil more
  rw [splitArrow, if_pos isQuote]

/-- The search passes a literal, whatever its text. -/
private theorem splitArrow_double {quote : Char} (isQuote : quote = '\'' ∨ quote = '"') {after : Text} (more : after ≠ [])
    (text : Text) : ∀ before, splitArrow (some quote) before (Text.double quote text ++ quote :: after) =
      splitArrow none (before ++ (Text.double quote text ++ [quote])) after := by
  induction text with
  | nil =>
    intro before
    rw [Text.double_nil, List.nil_append, splitArrow_opened more, if_pos rfl, List.nil_append]
  | cons c text ih =>
    intro before
    have longer : Text.double quote text ++ quote :: after ≠ [] := by simp
    by_cases same : c = quote
    · subst same
      rw [Text.double_cons, if_pos rfl]
      simp only [List.cons_append, List.nil_append]
      rw [splitArrow_opened (List.cons_ne_nil _ _), if_pos rfl, splitArrow_quote isQuote longer, ih]
      simp
    · rw [Text.double_cons, if_neg same, List.singleton_append, List.cons_append, splitArrow_opened longer, if_neg same, ih]
      simp

theorem claimMapItem_text (item : MappingItem) :
    claimMapItem item.text = .ok (jsonQuote item.path.text ++ ": ".toList ++ jsonQuote item.name.text) := by
  obtain ⟨-, -, -, -, arrow, -⟩ := keywords
  have sides : splitArrow none [] item.text = some (item.path.written ++ [' '], ' ' :: item.name.written) := by
    rw [MappingItem.text, arrow, List.append_assoc, Literal.written, List.cons_append,
      splitArrow_quote item.path.mark.isQuote (by simp [Literal.inner]), Literal.inner_append,
      splitArrow_double item.path.mark.isQuote (by simp), ← Literal.inner, List.nil_append, List.singleton_append]
    rfl
  have left : unquoted (item.path.written ++ [' ']) = item.path.text := by
    rw [← unquoted_written item.path, unquoted, unquoted, trim_append_blank]
  have right : unquoted (' ' :: item.name.written) = item.name.text := by
    rw [← unquoted_written item.name, unquoted, unquoted, trim_blank]
  rw [claimMapItem, sides]
  simp only [left, right]

private theorem members_written {items : List MappingItem} (given : items ≠ []) :
    JsonValue.Members (items.map fun item => (item.path.text, .str item.name.text))
      (", ".toList.intercalate (items.map fun item => jsonQuote item.path.text ++ ": ".toList ++ jsonQuote item.name.text)) := by
  have colon : ": ".toList = [':', ' '] := by decide
  have comma : ", ".toList = [',', ' '] := by decide
  have blank : JsonValue.Blank [' '] := fun c member => List.mem_singleton.mp member
  induction items with
  | nil => exact absurd rfl given
  | cons item items ih =>
    obtain ⟨spelled, spells, same⟩ := jsonQuote_spelled item.path.text
    cases items with
    | nil =>
      have one := JsonValue.Members.one spells blank (jsonQuote_written item.name.text)
      rw [List.map_singleton, List.map_singleton, List.intercalate_singleton, same, colon]
      simpa using one
    | cons next items =>
      have later := JsonValue.Members.cons spells blank (jsonQuote_written item.name.text) blank (ih (List.cons_ne_nil _ _))
      simp only [List.map_cons, List.intercalate_cons_cons, same, colon, comma, List.append_assoc, List.cons_append,
        List.nil_append] at later ⊢
      exact later

/-- Claim mappings come back exactly when no side is empty. -/
theorem mappings_read_back (reads : JsonValue.Reads yyjsonRead) (items : List MappingItem) :
    (∃ json, claimMapToJson (listText (items.map MappingItem.text)) = .ok json ∧
        claimMapOf yyjsonRead json = .ok (items.map MappingItem.meant)) ↔
      ∀ item ∈ items, item.path.text ≠ [] ∧ item.name.text ≠ [] := by
  have split : (splitTopLevel (listText (items.map MappingItem.text)) ',').filter (· ≠ []) = items.map MappingItem.text := by
    refine items_listText fun text member => ?_
    obtain ⟨item, -, rfl⟩ := List.mem_map.mp member
    exact isItem_pair (by decide) (by decide) item.path item.name
  have written : JsonValue.Written (.obj (items.map fun item => (item.path.text, .str item.name.text)))
      ('\x7b' :: (", ".toList.intercalate
        (items.map fun item => jsonQuote item.path.text ++ ": ".toList ++ jsonQuote item.name.text) ++ ['\x7d'])) := by
    by_cases none : items = []
    · subst none
      exact .noMembers
    · exact .obj (members_written none)
  have isJson : claimMapToJson (listText (items.map MappingItem.text)) = .ok ('\x7b' :: (", ".toList.intercalate
        (items.map fun item => jsonQuote item.path.text ++ ": ".toList ++ jsonQuote item.name.text) ++ ['\x7d'])) := by
    rw [claimMapToJson, split, mapM_map_iff.mpr fun item _ => claimMapItem_text item]
    rfl
  have read := reads _ _ written
  have mapped (item : MappingItem) : mappedAttribute (item.path.text, .str item.name.text) = .ok item.meant ↔
      item.path.text ≠ [] ∧ item.name.text ≠ [] := by
    rw [mappedAttribute]
    split_ifs with missing
    · refine iff_of_false (fun absurd => by cases absurd) fun both => ?_
      exact missing.elim both.2 both.1
    · exact iff_of_true rfl ⟨fun none => missing (.inr none), fun none => missing (.inl none)⟩
  have answers : claimMapOf yyjsonRead ('\x7b' :: (", ".toList.intercalate
        (items.map fun item => jsonQuote item.path.text ++ ": ".toList ++ jsonQuote item.name.text) ++ ['\x7d'])) =
      .ok (items.map MappingItem.meant) ↔ ∀ item ∈ items, item.path.text ≠ [] ∧ item.name.text ≠ [] := by
    rw [claimMapOf, if_neg (List.cons_ne_nil _ _), read]
    refine Iff.trans ?_ (forall₂_congr fun item _ => mapped item)
    exact @mapM_map_iff MappingItem (Text × JsonValue) AttributeDef mappedAttribute
      (fun item => (item.path.text, .str item.name.text)) MappingItem.meant items
  rw [isJson, ← answers]
  constructor
  · rintro ⟨json, same, ran⟩
    cases same
    exact ran
  · exact fun ran => ⟨_, rfl, ran⟩

/-! ## The lists -/

/-- What is written in a list comes back from its JSON, item by item and in order: values that are trimmed and not
empty; conditions whose first literal is in the quotes of its kind and none of whose texts is empty; attributes
with a constant, or with paths of which none is empty; claim mappings with two sides. -/
theorem lists_read_back_iff (reads : JsonValue.Reads yyjsonRead) (key : Text) (values : List Literal)
    (conditions : List ConditionItem) (attributes : List AttributeItem) (mappings : List MappingItem) :
    (stringArray (yyjsonRead (listItemsJson (listText (values.map Literal.written)))) key = .ok (values.map Literal.text) ↔
        ∀ value ∈ values, Text.trim value.text = value.text ∧ value.text ≠ []) ∧
      ((∃ json value, requireJson (listText (conditions.map ConditionItem.text)) = .ok json ∧ yyjsonRead json = some value ∧
          conditionsOf (some value) = .ok (conditions.map ConditionItem.meant)) ↔
        ∀ condition ∈ conditions, condition.Placed ∧ condition.Filled) ∧
      ((∃ json value, attributesJson (listText (attributes.map AttributeItem.text)) = .ok json ∧ yyjsonRead json = some value ∧
          attributesOf (some value) = .ok (attributes.map AttributeItem.meant)) ↔
        ∀ each ∈ attributes, each.Filled) ∧
      ((∃ json, claimMapToJson (listText (mappings.map MappingItem.text)) = .ok json ∧
          claimMapOf yyjsonRead json = .ok (mappings.map MappingItem.meant)) ↔
        ∀ mapping ∈ mappings, mapping.path.text ≠ [] ∧ mapping.name.text ≠ []) :=
  ⟨values_read_back reads values key, conditions_read_back reads conditions, attributes_read_back reads attributes,
    mappings_read_back reads mappings⟩

/-- A value with a comma, a parenthesis and a quote, and a condition on it. -/
theorem lists_read_back_quoted :
    stringArray (JsonValue.readText (listItemsJson "'it''s (a, b)', \"c\"".toList)) "azp".toList =
        .ok ["it's (a, b)".toList, "c".toList] ∧
      ∃ json value, requireJson "\"sub\" LIKE 'repo:x,%'".toList = .ok json ∧ JsonValue.readText json = some value ∧
        conditionsOf (some value) = .ok [{ path := "sub".toList, op := .like, values := ["repo:x,%".toList] }] := by
  have law := lists_read_back_iff JsonValue.readText_reads "azp".toList [⟨.single, "it's (a, b)".toList⟩, ⟨.double, "c".toList⟩]
    [.like ⟨.double, "sub".toList⟩ ⟨.single, "repo:x,%".toList⟩] [] []
  have values := law.1.mpr (by decide)
  have conditions := law.2.1.mpr fun condition member => by
    obtain rfl := List.mem_singleton.mp member
    exact ⟨rfl, by decide, by decide⟩
  have valuesText : listText ([⟨.single, "it's (a, b)".toList⟩, ⟨.double, "c".toList⟩].map Literal.written) =
      "'it''s (a, b)', \"c\"".toList := by decide
  have conditionsText : listText ([.like ⟨.double, "sub".toList⟩ ⟨.single, "repo:x,%".toList⟩].map ConditionItem.text) =
      "\"sub\" LIKE 'repo:x,%'".toList := by decide
  rw [valuesText] at values
  rw [conditionsText] at conditions
  exact ⟨values, conditions⟩

/-- The list of one empty value is the empty list: no authorized party is then asked for. -/
theorem blank_value_dropped :
    stringArray (JsonValue.readText (listItemsJson (listText ([⟨.single, []⟩].map Literal.written)))) "azp".toList ≠
        .ok ([⟨.single, []⟩].map Literal.text) ∧
      stringArray (JsonValue.readText (listItemsJson "''".toList)) "azp".toList = .ok [] := by
  decide +kernel

end DuckAcl.AdminLists
