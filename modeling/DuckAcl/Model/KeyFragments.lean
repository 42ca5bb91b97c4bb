import DuckAcl.Library.Regexes
import DuckAcl.Model.NameKeys

/-! # SQL fragments over keys

The expressions that the listings' and the resolver's queries compare and split stored keys with (`acl_name_path.hpp`),
and what the engine computes for them on rows without NULLs. Offsets and lengths count characters.
-/

namespace DuckAcl

/-! ## Text functions -/

namespace SqlText

/-- `translate`: each of the letters as its image, and without one left out. -/
def translate (letters images : Text) (text : Text) : Text :=
  text.flatMap fun c => if c ∈ letters then (images[letters.idxOf c]?).toList else [c]

/-- `substr`: a negative offset counts from the end, and a negative length takes what stands before. -/
def substr (text : Text) (offset length : ℤ) : Text :=
  let size : ℤ := text.length
  let from' : ℤ := if 0 < offset then min size (offset - 1) else if offset < 0 then max 0 (size + offset) else 0
  let length' : ℤ := if offset = 0 then length - 1 else length
  if 0 ≤ length' then (text.drop from'.toNat).take length'.toNat
  else (text.take from'.toNat).drop (from' + length').toNat

/-- The rounds of `replace`, with the letters of the last hit still to pass over. -/
def replaceFrom (source target : Text) : ℕ → Text → Text
  | _, [] => []
  | skip + 1, _ :: rest => replaceFrom source target skip rest
  | 0, c :: rest =>
    if source.isPrefixOf (c :: rest) then target ++ replaceFrom source target (source.length - 1) rest
    else c :: replaceFrom source target 0 rest

/-- `replace`. -/
def replace (text source target : Text) : Text := if source = [] then text else replaceFrom source target 0 text

/-- `contains`. -/
def contains (text needle : Text) : Bool := text.tails.any needle.isPrefixOf

end SqlText

/-! ## Expressions -/

/-- What an expression answers. -/
inductive SqlKind
  | text
  | number
  | truth
  | list

/-- The values of a kind. -/
abbrev SqlKind.Value : SqlKind → Type
  | .text => Text
  | .number => ℤ
  | .truth => Bool
  | .list => List Text

/-- SQL expressions, as far as the fragments use them. -/
inductive SqlExpr : SqlKind → Type
  | column (name : Text) : SqlExpr .text
  | literal (value : Text) : SqlExpr .text
  | number (value : ℤ) : SqlExpr .number
  | translate (expr : SqlExpr .text) (letters images : Text) : SqlExpr .text
  | substr (expr : SqlExpr .text) (offset count : SqlExpr .number) : SqlExpr .text
  | concat (first second : SqlExpr .text) : SqlExpr .text
  | replace (expr : SqlExpr .text) (source target : Text) : SqlExpr .text
  | regexpExtract (expr : SqlExpr .text) (pattern : Regex Char) : SqlExpr .text
  | caseWhen (condition : SqlExpr .truth) (result otherwise : SqlExpr .text) : SqlExpr .text
  | length (expr : SqlExpr .text) : SqlExpr .number
  | plus (first second : SqlExpr .number) : SqlExpr .number
  | minus (first second : SqlExpr .number) : SqlExpr .number
  | equals (first second : SqlExpr .text) : SqlExpr .truth
  | less (first second : SqlExpr .number) : SqlExpr .truth
  | atLeast (first second : SqlExpr .number) : SqlExpr .truth
  | startsWith (expr : SqlExpr .text) (start : Text) : SqlExpr .truth
  | contains (expr : SqlExpr .text) (needle : Text) : SqlExpr .truth
  | and (first second : SqlExpr .truth) : SqlExpr .truth
  | or (first second : SqlExpr .truth) : SqlExpr .truth
  | not (expr : SqlExpr .truth) : SqlExpr .truth
  | regexpExtractAll (expr : SqlExpr .text) (pattern : Regex Char) : SqlExpr .list
  | listTransform (list : SqlExpr .list) (parameter : Text) (body : SqlExpr .text) : SqlExpr .list

namespace SqlExpr

/-- What an expression answers on a row. `regexp_extract` answers the group, `regexp_extract_all` whole matches. -/
def eval : {kind : SqlKind} → SqlExpr kind → (row : Text → Text) → kind.Value
  | _, column name, row => row name
  | _, literal value, _ => value
  | _, number value, _ => value
  | _, translate expr letters images, row => SqlText.translate letters images (expr.eval row)
  | _, substr expr offset count, row => SqlText.substr (expr.eval row) (offset.eval row) (count.eval row)
  | _, concat first second, row => first.eval row ++ second.eval row
  | _, replace expr source target, row => SqlText.replace (expr.eval row) source target
  | _, regexpExtract expr pattern, row => pattern.extract (expr.eval row)
  | _, caseWhen condition result otherwise, row => if condition.eval row then result.eval row else otherwise.eval row
  | _, length expr, row => ((expr.eval row).length : ℤ)
  | _, plus first second, row => (first.eval row + second.eval row : ℤ)
  | _, minus first second, row => (first.eval row - second.eval row : ℤ)
  | _, equals first second, row => decide (first.eval row = second.eval row)
  | _, less first second, row => decide (first.eval row < second.eval row)
  | _, atLeast first second, row => decide (second.eval row ≤ first.eval row)
  | _, startsWith expr start, row => start.isPrefixOf (expr.eval row)
  | _, contains expr needle, row => SqlText.contains (expr.eval row) needle
  | _, and first second, row => first.eval row && second.eval row
  | _, or first second, row => first.eval row || second.eval row
  | _, not expr, row => !expr.eval row
  | _, regexpExtractAll expr pattern, row => pattern.extractAll (expr.eval row)
  | _, listTransform list parameter body, row =>
    (list.eval row).map fun item => body.eval (Function.update row parameter item)

end SqlExpr

/-! ## Patterns -/

namespace KeyPattern

open Regex

/-- `"(?:[^"]|"")*"`. -/
def quoted : Regex Char :=
  .seq (.one (· = '"')) (.seq (.many (.either (.one (· ≠ '"')) (.seq (.one (· = '"')) (.one (· = '"'))))) (.one (· = '"')))

/-- `[^."]`. -/
def plainChar : Regex Char := .one fun c => c ≠ '.' ∧ c ≠ '"'

/-- `(?:^|[.])("(?:[^"]|"")*"|[^."]*)$`. -/
def leaf : Regex Char :=
  .seq (.either .start (.one (· = '.'))) (.seq (.group (.either quoted (.many plainChar))) .finish)

/-- `"(?:[^"]|"")*"|[^."]+`. -/
def token : Regex Char := .either quoted (.seq plainChar (.many plainChar))

end KeyPattern

/-! ## Fragments -/

section Fragments

open SqlExpr

/-- `KeyFoldSql`. -/
def keyFoldSql (expr : SqlExpr .text) : SqlExpr .text :=
  translate expr "ABCDEFGHIJKLMNOPQRSTUVWXYZ".toList "abcdefghijklmnopqrstuvwxyz".toList

/-- `KeyEqSql`. -/
def keyEqSql (a b : SqlExpr .text) : SqlExpr .truth := equals (keyFoldSql a) (keyFoldSql b)

/-- `KeyPrefixSql`. -/
def keyPrefixSql (key path : SqlExpr .text) : SqlExpr .truth :=
  equals (keyFoldSql (substr key (number 1) (plus (length path) (number 1))))
    (keyFoldSql (concat path (literal ".".toList)))

/-- `KeyLeafSql`. -/
def keyLeafSql (key : SqlExpr .text) : SqlExpr .text := regexpExtract key KeyPattern.leaf

/-- `KeyParentSql`. -/
def keyParentSql (key : SqlExpr .text) : SqlExpr .text :=
  let leaf := keyLeafSql key
  caseWhen (atLeast (length leaf) (length key)) (literal [])
    (substr key (number 1) (minus (minus (length key) (length leaf)) (number 1)))

/-- `KeyNestedSql`. -/
def keyNestedSql (key : SqlExpr .text) : SqlExpr .truth := less (length (keyLeafSql key)) (length key)

/-- `KeyUnquoteSql`. -/
def keyUnquoteSql (part : SqlExpr .text) : SqlExpr .text :=
  caseWhen (startsWith part ['"'])
    (replace (substr part (number 2) (minus (length part) (number 2))) ['"', '"'] ['"']) part

/-- `KeyDisplaySql`. -/
def keyDisplaySql (key : SqlExpr .text) : SqlExpr .text :=
  caseWhen (or (keyNestedSql key) (contains (keyUnquoteSql key) ".".toList)) key (keyUnquoteSql key)

/-- A text in quotes, its own doubled. -/
def quotedSql (expr : SqlExpr .text) : SqlExpr .text :=
  concat (concat (literal ['"']) (replace expr ['"'] ['"', '"'])) (literal ['"'])

/-- `KeyFromDisplaySql`. -/
def keyFromDisplaySql (shown : SqlExpr .text) : SqlExpr .text :=
  caseWhen (and (contains shown ['"']) (not (contains shown ".".toList))) (quotedSql shown) shown

/-- `KeyTokensSql`. -/
def keyTokensSql (key : SqlExpr .text) : SqlExpr .list := regexpExtractAll key KeyPattern.token

/-- `KeyPartsSql`. -/
def keyPartsSql (key : SqlExpr .text) : SqlExpr .list :=
  listTransform (keyTokensSql key) "__acl_part".toList (keyUnquoteSql (column "__acl_part".toList))

/-- `KeyQuotePartSql`. -/
def keyQuotePartSql (part : SqlExpr .text) : SqlExpr .text :=
  caseWhen (or (contains part ".".toList) (contains part ['"'])) (quotedSql part) part

end Fragments

end DuckAcl
