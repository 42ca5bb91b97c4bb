import DuckAcl.Model.ClientStorage
import DuckAcl.Model.GrantPolicy

/-! # The lists of a management statement

A list is written between parentheses; its text is read into JSON (`acl_admin_sql.cpp`, over the scanner of
`acl_admin_scanner.hpp`), which the readers of a client take. A function of the scanner takes the text from the
scanner's position on and gives what it read and the rest; an error is without its position.
-/

namespace DuckAcl.AdminLists

open ClientStorage (quoted)

/-- A refusal of the statement. -/
def refuse {α : Type} (what : Text) : Except Text α := .error ("acl admin: ".toList ++ what)

/-! ## Quotes -/

/-- `JsonQuote`. -/
def jsonQuote (value : Text) : Text :=
  '"' :: (value.flatMap fun c =>
    if c = '"' ∨ c = '\\' then ['\\', c]
    else if c.toNat < 32 then ['\\', 'u', '0', '0', hexDigit (c.toNat / 16), hexDigit (c.toNat % 16)]
    else [c]) ++ ['"']

/-- `StringUtil::Replace` of a doubled quote by one. -/
def undouble (quote : Char) : Text → Text
  | [] => []
  | [c] => [c]
  | c :: d :: rest => if c = quote ∧ d = quote then quote :: undouble quote rest else c :: undouble quote (d :: rest)

/-- `Unquoted`. -/
def unquoted (value : Text) : Text :=
  match Text.trim value with
  | [] => []
  | quote :: rest =>
    if rest ≠ [] ∧ (quote = '\'' ∨ quote = '"') ∧ rest.getLast? = some quote then undouble quote rest.dropLast
    else quote :: rest

/-! ## The scanner -/

/-- What a function of the scanner read, and the rest. -/
structure Scanned (α : Type) where
  value : α
  rest : Text

/-- `IsWordChar`. -/
def isWordChar (c : Char) : Bool := c.isAlpha || c.isDigit || c == '_'

/-- `Skip`. -/
def skip (text : Text) : Text := text.dropWhile Text.isSpace

/-- `ReadWord`. -/
def readWord (text : Text) : Scanned Text := ⟨text.takeWhile isWordChar, text.dropWhile isWordChar⟩

/-- `Word`. -/
def word (what : Text) (text : Text) : Except Text (Scanned Text) :=
  if (readWord (skip text)).value = [] then refuse ("expected ".toList ++ what) else .ok (readWord (skip text))

/-- `Expect`. -/
def expect (keyword : Text) (text : Text) : Except Text Text :=
  (word keyword text).bind fun read =>
    if Text.ciEquals read.value keyword then .ok read.rest
    else refuse ("expected ".toList ++ keyword ++ ", got ".toList ++ quoted read.value)

/-- `Accept`: the rest when the keyword is there. -/
def accept (keyword : Text) (text : Text) : Option Text :=
  if Text.ciEquals (readWord (skip text)).value keyword then some (readWord (skip text)).rest else none

/-- `ReadQuoted`, after the opening quote. -/
def readQuoted (quote : Char) : Text → Except Text (Scanned Text)
  | [] => .error "acl_rewrite: unterminated quoted value".toList
  | c :: rest =>
    if c = quote then
      match rest with
      | [] => .ok ⟨[], []⟩
      | d :: after =>
        if d = quote then (readQuoted quote after).map fun read => ⟨quote :: read.value, read.rest⟩
        else .ok ⟨[], d :: after⟩
    else (readQuoted quote rest).map fun read => ⟨c :: read.value, read.rest⟩

/-- Whether a quote comes next. -/
def atQuote (text : Text) : Bool := text.head? = some '\'' || text.head? = some '"'

/-- `Quoted`. -/
def readLiteral (what : Text) (text : Text) : Except Text (Scanned Text) :=
  match skip text with
  | [] => refuse ("expected a quoted ".toList ++ what)
  | quote :: rest =>
    if quote = '\'' ∨ quote = '"' then readQuoted quote rest else refuse ("expected a quoted ".toList ++ what)

/-- The loop of `Parens`: `depth` are the parentheses open inside, `body` is what was passed. -/
def parensFrom (depth : ℕ) (body : Text) (text : Text) : Except Text (Scanned Text) :=
  match text with
  | [] => refuse "unbalanced parentheses".toList
  | c :: rest =>
    if c = '\'' ∨ c = '"' then
      (readQuoted c rest).bind fun _ => parensFrom depth (body ++ c :: (readRun c rest).1) (readRun c rest).2
    else if c = '(' then parensFrom (depth + 1) (body ++ [c]) rest
    else if c = ')' ∧ depth = 0 then .ok ⟨body, rest⟩
    else if c = ')' then parensFrom (depth - 1) (body ++ [c]) rest
    else parensFrom depth (body ++ [c]) rest
termination_by text.length
decreasing_by
  all_goals simp only [List.length_cons]
  · have := readRun_length c rest
    omega
  all_goals omega

/-- `Parens`: the text inside a parenthesised list; empty where none comes next. -/
def parens (text : Text) : Except Text (Scanned Text) :=
  match skip text with
  | '(' :: rest => (parensFrom 0 [] rest).map fun read => ⟨Text.trim read.value, read.rest⟩
  | other => .ok ⟨[], other⟩

/-- The loop of `DottedWords`. -/
def dottedFrom (what : Text) (path : Text) (text : Text) : Except Text (Scanned Text) :=
  match text with
  | '.' :: after =>
    if (readWord (skip after)).value = [] then refuse ("expected ".toList ++ what)
    else dottedFrom what (path ++ '.' :: (readWord (skip after)).value) (readWord (skip after)).rest
  | other => .ok ⟨path, other⟩
termination_by text.length
decreasing_by
  have skipped := (List.dropWhile_sublist Text.isSpace (l := after)).length_le
  have read := (List.dropWhile_sublist isWordChar (l := after.dropWhile Text.isSpace)).length_le
  simp only [readWord, skip, List.length_cons]
  omega

/-- `DottedWords`. -/
def dottedWords (what : Text) (text : Text) : Except Text (Scanned Text) :=
  (word what text).bind fun read => dottedFrom what read.value read.rest

/-! ## The readers of a list -/

/-- `JsonList`. -/
def jsonList (values : List Text) : Text := '[' :: ([','].intercalate (values.map jsonQuote) ++ [']'])

/-- `ListItemsJson`. -/
def listItemsJson (inside : Text) : Text :=
  jsonList (((splitTopLevel inside ',').map fun item => Text.trim (unquoted item)).filter (· ≠ []))

/-- `ClaimPath`. -/
def claimPath (text : Text) : Except Text (Scanned Text) :=
  if atQuote (skip text) then readLiteral "claim path".toList text else dottedWords "a claim path".toList text

/-- The characters of a bare value. -/
def isValueChar (c : Char) : Bool := isWordChar c || c == '.' || c == '-'

/-- `RequireValue`. -/
def requireValue (text : Text) : Except Text (Scanned Text) :=
  if atQuote (skip text) then readLiteral "value".toList text
  else
    let value := (skip text).takeWhile isValueChar
    let rest := (skip text).dropWhile isValueChar
    if value = [] then refuse "expected a value".toList
    else if Text.fold value = "true".toList ∨ Text.fold value = "false".toList then .ok ⟨Text.fold value, rest⟩
    else .ok ⟨value, rest⟩

/-- A condition as `RequireJson` reads it. -/
structure ReadCondition where
  path : Text
  op : Text
  values : List Text

/-- What follows a condition's path. -/
def conditionAfter (item path : Text) (text : Text) : Except Text (Scanned ReadCondition) :=
  if text.head? = some '=' then
    (requireValue text.tail).map fun read => ⟨⟨path, "eq".toList, [read.value]⟩, read.rest⟩
  else
    match accept "in".toList text with
    | some rest =>
      (parens rest).map fun inside =>
        ⟨⟨path, "in".toList, ((splitTopLevel inside.value ',').filter (· ≠ [])).map unquoted⟩, inside.rest⟩
    | none =>
      match accept "like".toList text with
      | some rest => (readLiteral "pattern".toList rest).map fun read => ⟨⟨path, "like".toList, [read.value]⟩, read.rest⟩
      | none =>
        refuse ("a REQUIRE condition is path = value, path IN ('a', …), 'v' IN path or path LIKE 'p%' - got ".toList ++ quoted item)

/-- A condition from its start: one in a `'` is a value that a claim contains. -/
def readCondition (item : Text) : Except Text (Scanned ReadCondition) :=
  if (skip item).head? = some '\'' then
    (readLiteral "value".toList item).bind fun value =>
      (expect "in".toList value.rest).bind fun rest =>
        (claimPath rest).map fun path => ⟨⟨path.value, "contains".toList, [value.value]⟩, path.rest⟩
  else (claimPath item).bind fun path => conditionAfter item path.value (skip path.rest)

/-- The JSON of a condition. -/
def conditionJson (condition : ReadCondition) : Text :=
  "\x7b\"path\":".toList ++ jsonQuote condition.path ++ ",\"op\":".toList ++ jsonQuote condition.op ++
    ",\"values\":".toList ++ jsonList condition.values ++ "\x7d".toList

/-- The loop body of `RequireJson`. -/
def requireItem (item : Text) : Except Text Text :=
  (readCondition item).bind fun read =>
    if skip read.rest ≠ [] then refuse ("unexpected text in the REQUIRE condition ".toList ++ quoted item)
    else .ok (conditionJson read.value)

/-- `RequireJson`. -/
def requireJson (list : Text) : Except Text Text :=
  (((splitTopLevel list ',').filter (· ≠ [])).mapM requireItem).map fun conditions =>
    '[' :: ([','].intercalate conditions ++ [']'])

/-- What is written of an attribute, after its `=`: a constant, or paths. -/
def readSource (text : Text) : Except Text (Scanned (Text ⊕ List Text)) :=
  match accept "constant".toList text with
  | some rest => (readLiteral "value".toList rest).map fun read => ⟨.inl read.value, read.rest⟩
  | none =>
    if (skip text).head? = some '(' then
      (parens text).map fun inside => ⟨.inr (((splitTopLevel inside.value ',').filter (· ≠ [])).map unquoted), inside.rest⟩
    else (claimPath text).map fun path => ⟨.inr [path.value], path.rest⟩

/-- The JSON of an attribute. -/
def attributeJson (name : Text) : Text ⊕ List Text → Text
  | .inl constant => "\x7b\"name\":".toList ++ jsonQuote name ++ ",\"constant\":".toList ++ jsonQuote constant ++ "\x7d".toList
  | .inr paths => "\x7b\"name\":".toList ++ jsonQuote name ++ ",\"paths\":".toList ++ jsonList paths ++ "\x7d".toList

/-- The loop body of `AttributesJson`. -/
def attributeItem (item : Text) : Except Text Text :=
  (word "an attribute name".toList item).bind fun name =>
    if (skip name.rest).head? ≠ some '=' then
      refuse ("an attribute is written name = 'path' | ('path', …) | CONSTANT 'v' - got ".toList ++ quoted item)
    else
      (readSource (skip name.rest).tail).bind fun source =>
        if skip source.rest ≠ [] then refuse ("unexpected text in the attribute ".toList ++ quoted item)
        else .ok (attributeJson name.value source.value)

/-- `AttributesJson`. -/
def attributesJson (list : Text) : Except Text Text :=
  (((splitTopLevel list ',').filter (· ≠ [])).mapM attributeItem).map fun attributes =>
    '[' :: ([','].intercalate attributes ++ [']'])

/-- The search for the first `=>` outside quotes: what is before it and after it. -/
def splitArrow (quote : Option Char) (before : Text) : Text → Option (Text × Text)
  | [] => none
  | [_] => none
  | c :: d :: rest =>
    match quote with
    | some opened => splitArrow (if c = opened then none else some opened) (before ++ [c]) (d :: rest)
    | none =>
      if c = '\'' ∨ c = '"' then splitArrow (some c) (before ++ [c]) (d :: rest)
      else if c = '=' ∧ d = '>' then some (before, rest)
      else splitArrow none (before ++ [c]) (d :: rest)

/-- The loop body of `ClaimMapToJson`. -/
def claimMapItem (item : Text) : Except Text Text :=
  match splitArrow none [] item with
  | none => refuse ("a claim mapping is written as <jwt path> => <claim>, got ".toList ++ quoted item)
  | some sides => .ok (jsonQuote (unquoted sides.1) ++ ": ".toList ++ jsonQuote (unquoted sides.2))

/-- `ClaimMapToJson`. -/
def claimMapToJson (list : Text) : Except Text Text :=
  (((splitTopLevel list ',').filter (· ≠ [])).mapM claimMapItem).map fun entries =>
    '\x7b' :: (", ".toList.intercalate entries ++ ['\x7d'])

end DuckAcl.AdminLists
