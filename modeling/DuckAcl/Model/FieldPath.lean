import DuckAcl.Library.Text

/-! # Paths into structured columns

An item of a `COLUMNS` list names a column or a path into it: `address.city`,
`"Order"."Zip Code"`, `items[].price`. This module reads such a name and writes it back, and shows
that what is written is read again as the same path (`acl_field_paths.hpp`, `ParseFieldPath`,
`FieldName`).
-/

namespace DuckAcl

/-- What a refused policy or statement throws: the text of the `BinderException`. -/
abbrev BinderException := Text

/-- A step into a column: a named field of a struct, or every element of a list (`[]`). -/
inductive Step where
  | field (name : Text)
  | element
deriving DecidableEq, Repr

/-- Steps compare as their names do, up to ASCII case. -/
def Step.key : Step → Step
  | .field name => .field (Text.fold name)
  | .element => .element

/-- A parsed item name: the column, then the steps into it. -/
structure FieldPath where
  head : Text
  steps : List Step
deriving DecidableEq, Repr

/-- The characters a name is read from without quotes. -/
def isNameChar (c : Char) : Bool :=
  c.isAlphanum || c == '_' || c == '$' || decide (0x80 ≤ c.toNat)

/-- The rest of a quoted name after its opening quote, a doubled quote read as one; with what
follows the closing quote, or nothing when the quote is never closed. -/
def readQuoted (name : Text) : Text → Option (Text × Text)
  | [] => none
  | '"' :: '"' :: rest => readQuoted (name ++ ['"']) rest
  | '"' :: rest => some (name, rest)
  | c :: rest => readQuoted (name ++ [c]) rest

theorem readQuoted_length {name text : Text} {read rest : Text}
    (found : readQuoted name text = some (read, rest)) : rest.length < text.length := by
  fun_induction readQuoted name text with
  | case1 => cases found
  | case2 name tail ih =>
    have := ih found
    simp only [List.length_cons]
    omega
  | case3 name tail _ =>
    cases found
    simp
  | case4 name c tail _ _ ih =>
    have := ih found
    simp only [List.length_cons]
    omega

/-- The loop of `ParseFieldPath` over the trimmed text: the names and `[]` it pushes from here on.
`expectName` is the loop's own flag. -/
def readPath (expectName : Bool) (text : Text) : Except BinderException (List Step) :=
  match text with
  | [] => if expectName then .error "a path cannot end with '.'".toList else .ok []
  | c :: rest =>
    if expectName then
      if c = '"' then
        match _quoted : readQuoted [] rest with
        | none => .error "an unterminated or empty quoted name".toList
        | some (name, after) =>
          if name = [] then .error "an unterminated or empty quoted name".toList
          else (readPath false after).map (.field name :: ·)
      else if isNameChar c then
        (readPath false (rest.dropWhile isNameChar)).map
          (.field (c :: rest.takeWhile isNameChar) :: ·)
      else .error "a path is names separated by '.', each optionally followed by []".toList
    else if c = '[' then
      if rest.head? = some ']' then (readPath false rest.tail).map (.element :: ·)
      else .error "'[' must be '[]' (every element of a list)".toList
    else if c = '.' then readPath true rest
    else .error "a path is names separated by '.', each optionally followed by []".toList
termination_by text.length
decreasing_by
  · have := readQuoted_length _quoted
    simp only [List.length_cons]
    omega
  · have := (List.dropWhile_suffix (l := rest) isNameChar).length_le
    simp only [List.length_cons]
    omega
  · simp only [List.length_tail, List.length_cons]
    omega
  · simp

/-- `ParseFieldPath`: anything that is not names separated by `.`, each optionally followed by
`[]`, is refused, so a path is never an expression in disguise. -/
def parseFieldPath (text : Text) : Except BinderException FieldPath := do
  match ← readPath true (Text.trim text) with
  | .field head :: steps => pure ⟨head, steps⟩
  | _ => throw "a path cannot end with '.'".toList

/-- `FieldName`: bare when the name is an identifier, quoted otherwise. -/
def fieldName (name : Text) : Text :=
  if name ≠ [] ∧ name.head?.any Char.isDigit = false ∧ name.all isNameChar then name
  else '"' :: Text.double '"' name ++ ['"']

/-- A step as a path writes it after what it steps into. -/
def stepText : Step → Text
  | .field name => '.' :: fieldName name
  | .element => ['[', ']']

/-- What may follow a name inside a path: nothing, or another step. -/
def Boundary (after : Text) : Prop := ∀ c ∈ after.head?, c = '.' ∨ c = '['

theorem boundary_steps (steps : List Step) : Boundary (steps.flatMap stepText) := by
  intro c first
  cases steps with
  | nil => simp at first
  | cons step rest =>
    cases step <;> simp only [List.flatMap_cons, stepText, List.cons_append, List.head?_cons,
      Option.mem_def, Option.some.injEq] at first <;> simp [← first]

private theorem readQuoted_double (name read after : Text) (boundary : Boundary after) :
    readQuoted read (Text.double '"' name ++ '"' :: after) = some (read ++ name, after) := by
  induction name generalizing read with
  | nil =>
    have notQuote : ∀ rest, after = '"' :: rest → False := by
      rintro rest rfl
      simpa using boundary '"' (by simp)
    cases after with
    | nil => simp [readQuoted]
    | cons c rest =>
      rw [Text.double_nil, List.nil_append, readQuoted.eq_3 _ _ notQuote, List.append_nil]
  | cons c rest ih =>
    rw [Text.double_cons]
    by_cases quote : c = '"'
    · subst quote
      simp only [↓reduceIte, List.cons_append, List.nil_append, readQuoted]
      rw [ih, List.append_assoc, List.singleton_append]
    · simp only [quote, ↓reduceIte, List.cons_append, List.nil_append]
      rw [readQuoted.eq_4 _ _ _ (fun _ same _ => quote same) quote]
      rw [ih, List.append_assoc, List.singleton_append]

private theorem isNameChar_boundary {after : Text} (boundary : Boundary after) :
    after.takeWhile isNameChar = [] ∧ after.dropWhile isNameChar = after := by
  cases after with
  | nil => simp
  | cons c rest =>
    have stop : isNameChar c = false := by
      rcases boundary c (by simp) with rfl | rfl <;> decide
    simp [stop]

/-- A name written into a path is read back whole. -/
theorem readPath_fieldName {name after : Text} (nonempty : name ≠ []) (boundary : Boundary after) :
    readPath true (fieldName name ++ after) = (readPath false after).map (.field name :: ·) := by
  rw [fieldName]
  split_ifs with bare
  · obtain ⟨_, _, chars⟩ := bare
    obtain ⟨c, rest, rfl⟩ := List.exists_cons_of_ne_nil nonempty
    simp only [List.all_cons, Bool.and_eq_true, List.all_eq_true] at chars
    have notQuote : c ≠ '"' := by rintro rfl; exact absurd chars.1 (by decide)
    obtain ⟨taken, dropped⟩ := isNameChar_boundary boundary
    have takes : (rest ++ after).takeWhile isNameChar = rest := by
      rw [List.takeWhile_append_of_pos chars.2, taken, List.append_nil]
    have drops : (rest ++ after).dropWhile isNameChar = after := by
      rw [List.dropWhile_append_of_pos chars.2, dropped]
    rw [List.cons_append, readPath]
    simp only [↓reduceIte, notQuote, chars.1, takes, drops]
  · have read := readQuoted_double name [] after boundary
    rw [List.nil_append] at read
    rw [List.cons_append, List.cons_append, List.append_assoc, List.singleton_append, readPath]
    simp only [↓reduceIte]
    split
    · rename_i unclosed
      rw [read] at unclosed
      cases unclosed
    · rename_i closed
      rw [read] at closed
      cases closed
      rw [if_neg nonempty]

private theorem readPath_steps (steps : List Step) (named : ∀ name, .field name ∈ steps → name ≠ []) :
    readPath false (steps.flatMap stepText) = .ok steps := by
  induction steps with
  | nil => rw [List.flatMap_nil, readPath]; rfl
  | cons step rest ih =>
    have tail := ih (fun name member => named name (List.mem_cons_of_mem _ member))
    cases step with
    | field name =>
      have name_ne := named name (List.mem_cons_self ..)
      rw [List.flatMap_cons, stepText, List.cons_append, readPath]
      simp only [Bool.false_eq_true, ↓reduceIte, Char.reduceEq]
      rw [readPath_fieldName name_ne (boundary_steps rest), tail]
      rfl
    | element =>
      rw [List.flatMap_cons, stepText, List.cons_append, List.cons_append, List.nil_append, readPath]
      simp only [Bool.false_eq_true, ↓reduceIte, List.head?_cons, List.tail_cons, tail]
      rfl

private theorem fieldName_ends (name : Text) :
    (∀ c ∈ (fieldName name).head?, Text.isSpace c = false) ∧
      (∀ c ∈ (fieldName name).getLast?, Text.isSpace c = false) := by
  have nameChar : ∀ c, isNameChar c = true → Text.isSpace c = false := by
    intro c isName
    rw [Bool.eq_false_iff]
    intro space
    simp only [Text.isSpace, Bool.or_eq_true, beq_iff_eq] at space
    rcases space with ((((rfl | rfl) | rfl) | rfl) | rfl) | rfl <;> exact absurd isName (by decide)
  rw [fieldName]
  split_ifs with bare
  · refine ⟨fun c first => nameChar c ?_, fun c last => nameChar c ?_⟩
    · exact List.all_eq_true.mp bare.2.2 c (List.mem_of_mem_head? first)
    · exact List.all_eq_true.mp bare.2.2 c (List.mem_of_mem_getLast? last)
  · refine ⟨?_, ?_⟩ <;> intro c present
    · simp only [List.cons_append, List.head?_cons, Option.mem_def, Option.some.injEq] at present
      subst present
      decide
    · simp only [List.getLast?_append, List.getLast?_singleton, Option.some_or, Option.mem_def,
        Option.some.injEq] at present
      subst present
      decide

private theorem stepText_last (step : Step) : ∀ c ∈ (stepText step).getLast?, Text.isSpace c = false := by
  intro c last
  cases step with
  | element =>
    simp only [stepText, List.getLast?_cons_cons, List.getLast?_singleton, Option.mem_def,
      Option.some.injEq] at last
    subst last
    decide
  | field name =>
    rw [stepText, List.getLast?_cons] at last
    cases ending : (fieldName name).getLast? with
    | none =>
      simp only [ending, Option.getD_none, Option.mem_def, Option.some.injEq] at last
      subst last
      decide
    | some d =>
      simp only [ending, Option.getD_some, Option.mem_def, Option.some.injEq] at last
      subst last
      exact (fieldName_ends name).2 _ ending

theorem trim_path (name : Text) (steps : List Step) :
    Text.trim (fieldName name ++ steps.flatMap stepText) = fieldName name ++ steps.flatMap stepText := by
  apply Text.trim_eq_self
  · intro c first
    rw [List.head?_append] at first
    cases start : (fieldName name).head? with
    | some d =>
      simp only [start, Option.some_or, Option.mem_def, Option.some.injEq] at first
      subst first
      exact (fieldName_ends name).1 _ start
    | none =>
      simp only [start, Option.none_or] at first
      rcases boundary_steps steps c first with rfl | rfl <;> decide
  · induction steps using List.reverseRecOn with
    | nil => simpa using (fieldName_ends name).2
    | append_singleton rest step _ =>
      intro c last
      rw [List.flatMap_append, ← List.append_assoc, List.getLast?_append] at last
      simp only [List.flatMap_singleton] at last
      cases ending : (stepText step).getLast? with
      | none => cases step <;> simp [stepText] at ending
      | some d =>
        simp only [ending, Option.some_or, Option.mem_def, Option.some.injEq] at last
        subst last
        exact stepText_last step _ ending

/-- A path written with `FieldName` reads back as itself. -/
theorem parseFieldPath_text {head : Text} {steps : List Step} (head_ne : head ≠ [])
    (named : ∀ name, .field name ∈ steps → name ≠ []) :
    parseFieldPath (fieldName head ++ steps.flatMap stepText) = .ok ⟨head, steps⟩ := by
  rw [parseFieldPath, trim_path, readPath_fieldName head_ne (boundary_steps steps),
    readPath_steps steps named]
  rfl

/-- Every name a path reads is non-empty. -/
theorem readPath_named {expectName : Bool} {text : Text} {steps : List Step}
    (read : readPath expectName text = .ok steps) : ∀ name, .field name ∈ steps → name ≠ [] := by
  have push {step : Step} {rest : Except BinderException (List Step)} {steps : List Step}
      (pushed : rest.map (step :: ·) = .ok steps) : ∃ tail, rest = .ok tail ∧ steps = step :: tail := by
    cases rest with
    | error => cases pushed
    | ok tail => cases pushed; exact ⟨tail, rfl, rfl⟩
  fun_induction readPath expectName text generalizing steps with
  | case2 => cases read; simp
  | case5 rest name after _ named ih =>
    obtain ⟨tail, parsed, rfl⟩ := push read
    rintro other (_ | ⟨_, member⟩)
    · exact named
    · exact ih parsed other member
  | case6 c rest _ _ ih =>
    obtain ⟨tail, parsed, rfl⟩ := push read
    rintro other (_ | ⟨_, member⟩)
    · simp
    · exact ih parsed other member
  | case8 _ _ _ _ ih =>
    obtain ⟨tail, parsed, rfl⟩ := push read
    rintro other (_ | ⟨_, member⟩)
    exact ih parsed other member
  | case10 _ _ _ _ ih => exact ih read
  | _ => cases read

end DuckAcl
