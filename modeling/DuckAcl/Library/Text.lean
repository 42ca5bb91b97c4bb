import Mathlib.Data.List.Basic
import Mathlib.Data.List.Infix

/-! # Texts, ASCII case and quoting

A text is a list of characters. Names compare up to ASCII case, so the library keeps one folding
function and states comparisons through it. Quoting doubles the delimiter, the way SQL writes an
identifier or a literal, and a reader of the doubled form recovers the text.
-/

namespace DuckAcl

/-- A text, character by character. -/
abbrev Text := List Char

namespace Text

/-- Texts compare character by character; membership in a list of texts is decided through this. -/
instance lawfulBEq : @LawfulBEq (List Char) (@List.instBEq Char instBEqOfDecidableEq) := List.instLawfulBEq

/-- The spaces the engine trims: the six ASCII ones. -/
def isSpace (c : Char) : Bool :=
  c == ' ' || c == '\t' || c == '\n' || c == '\x0b' || c == '\x0c' || c == '\r'

/-- Drop spaces at both ends. -/
def trim (text : Text) : Text :=
  ((text.dropWhile isSpace).reverse.dropWhile isSpace).reverse

/-- The letters of a literal. They are read off it, where evaluating `toList` decodes it byte by byte. -/
theorem toList_literal {literal : String} {letters : Text} (spelled : String.ofList letters = literal) :
    literal.toList = letters := by
  rw [← spelled, String.toList_ofList]

/-- The text with its ASCII letters in lower case. -/
def fold (text : Text) : Text := text.map Char.toLower

/-- Equality up to ASCII case. -/
def ciEquals (a b : Text) : Bool := fold a == fold b

theorem ciEquals_iff {a b : Text} : ciEquals a b = true ↔ fold a = fold b := by
  simp [ciEquals]

@[simp] theorem ciEquals_refl (a : Text) : ciEquals a a = true := by
  simp [ciEquals]

theorem ciEquals_symm {a b : Text} (same : ciEquals a b = true) : ciEquals b a = true := by
  rw [ciEquals_iff] at same ⊢
  exact same.symm

theorem ciEquals_trans {a b c : Text} (left : ciEquals a b = true) (right : ciEquals b c = true) :
    ciEquals a c = true := by
  rw [ciEquals_iff] at left right ⊢
  exact left.trans right

/-- Equal texts answer every comparison alike. -/
theorem ciEquals_congr_left {a b : Text} (same : ciEquals a b = true) (c : Text) :
    ciEquals a c = ciEquals b c := by
  simp only [ciEquals, ciEquals_iff.mp same]

theorem ciEquals_congr_right {a b : Text} (same : ciEquals a b = true) (c : Text) :
    ciEquals c a = ciEquals c b := by
  simp only [ciEquals, ciEquals_iff.mp same]

theorem fold_eq_nil {a : Text} : fold a = [] ↔ a = [] := List.map_eq_nil_iff

theorem length_fold (a : Text) : (fold a).length = a.length := List.length_map _

private theorem toLower_eq_self {c : Char} (other : ¬ ('A'.val ≤ c.val ∧ c.val ≤ 'Z'.val)) : c.toLower = c :=
  dif_neg other

theorem fold_fold (a : Text) : fold (fold a) = fold a := by
  have lower (c : Char) : c.toLower.toLower = c.toLower := by
    by_cases upper : 'A'.val ≤ c.val ∧ c.val ≤ 'Z'.val
    · have again : ¬ ('A'.val ≤ c.toLower.val ∧ c.toLower.val ≤ 'Z'.val) := by
        have least : 65 ≤ c.val.toNat := by simpa using UInt32.le_iff_toNat_le.mp upper.1
        have most : c.val.toNat ≤ 90 := by simpa using UInt32.le_iff_toNat_le.mp upper.2
        have moved : c.toLower.val.toNat = c.val.toNat + 32 := by
          have offset : ('a'.val - 'A'.val).toNat = 32 := by decide
          delta Char.toLower
          rw [dif_pos upper]
          simp only [UInt32.toNat_add, offset]
          omega
        rintro ⟨_, high⟩
        have : c.toLower.val.toNat ≤ 90 := by simpa using UInt32.le_iff_toNat_le.mp high
        omega
      rw [toLower_eq_self again]
    · have same : c.toLower = c := toLower_eq_self upper
      rw [same, same]
  simp only [fold, List.map_map, Function.comp_def, lower]

/-- A name that is longer than every name of a list is none of them. -/
theorem exists_fresh (names : List Text) : ∃ fresh : Text, fresh ≠ [] ∧ ∀ name ∈ names, ciEquals name fresh = false := by
  refine ⟨'a' :: names.flatten, by simp, fun name member => ?_⟩
  rw [Bool.eq_false_iff, Ne, ciEquals_iff]
  intro same
  have equal := congrArg List.length same
  rw [length_fold, length_fold, List.length_cons] at equal
  have bound := (List.sublist_flatten_of_mem member).length_le
  omega

/-- A text that neither starts nor ends with a space is its own trim. -/
theorem trim_eq_self {text : Text} (first : ∀ c ∈ text.head?, isSpace c = false)
    (last : ∀ c ∈ text.getLast?, isSpace c = false) : trim text = text := by
  have front : text.dropWhile isSpace = text := by
    cases text with
    | nil => rfl
    | cons c rest => simp [first c (by simp)]
  have back : text.reverse.dropWhile isSpace = text.reverse := by
    cases reversed : text.reverse with
    | nil => rfl
    | cons c rest =>
      have end? : text.getLast? = some c := by
        rw [← List.head?_reverse, reversed, List.head?_cons]
      simp [last c (by simp [end?])]
  rw [trim, front, back, List.reverse_reverse]

/-- A trimmed text has no space at either end. -/
theorem trim_ends (text : Text) : (∀ c ∈ (trim text).head?, isSpace c = false) ∧
    ∀ c ∈ (trim text).getLast?, isSpace c = false := by
  have stop {rest : Text} {c : Char} {tail : Text} (dropped : rest.dropWhile isSpace = c :: tail) :
      isSpace c = false := by
    have head := List.head?_dropWhile_not isSpace rest
    rw [dropped] at head
    simpa using head
  constructor
  · intro c first
    rw [trim, List.head?_reverse] at first
    obtain ⟨front, whole⟩ := List.dropWhile_suffix isSpace (l := (text.dropWhile isSpace).reverse)
    have ending := congrArg List.getLast? whole
    rw [List.getLast?_append, first, Option.some_or, List.getLast?_reverse] at ending
    cases dropped : text.dropWhile isSpace with
    | nil => simp [dropped] at ending
    | cons d tail =>
      rw [dropped] at ending
      obtain rfl : c = d := by simpa using ending
      exact stop dropped
  · intro c last
    rw [trim, List.getLast?_reverse] at last
    cases dropped : (text.dropWhile isSpace).reverse.dropWhile isSpace with
    | nil => simp [dropped] at last
    | cons d tail =>
      rw [dropped] at last
      obtain rfl : d = c := by simpa using last
      exact stop dropped

theorem trim_trim (text : Text) : trim (trim text) = trim text := trim_eq_self (trim_ends text).1 (trim_ends text).2

/-- A character before the letters comes from itself only. -/
theorem toLower_eq_iff {c d : Char} (early : d.val.toNat < 65) : c.toLower = d ↔ c = d := by
  delta Char.toLower
  split_ifs with upper
  · have large : 65 ≤ c.val.toNat := by simpa using UInt32.le_iff_toNat_le.mp upper.1
    have small : c.val.toNat ≤ 90 := by simpa using UInt32.le_iff_toNat_le.mp upper.2
    have offset : ('a'.val - 'A'.val).toNat = 32 := by decide
    refine iff_of_false ?_ ?_
    · rintro rfl
      simp only [UInt32.toNat_add, offset] at early
      omega
    · rintro rfl
      omega
  · exact Iff.rfl

private theorem isSpace_toLower (c : Char) : isSpace c.toLower = isSpace c := by
  delta Char.toLower
  split_ifs with upper
  · have notSpace (d : Char) (large : 65 ≤ d.val.toNat) : isSpace d = false := by
      rw [Bool.eq_false_iff]
      intro space
      simp only [isSpace, Bool.or_eq_true, beq_iff_eq] at space
      rcases space with ((((rfl | rfl) | rfl) | rfl) | rfl) | rfl <;> exact absurd large (by decide)
    have large : 65 ≤ c.val.toNat := by simpa using UInt32.le_iff_toNat_le.mp upper.1
    rw [notSpace c large, notSpace]
    have small : c.val.toNat ≤ 90 := by simpa using UInt32.le_iff_toNat_le.mp upper.2
    have offset : ('a'.val - 'A'.val).toNat = 32 := by decide
    simp only [UInt32.toNat_add, offset]
    omega
  · rfl

/-- Case does not change where the spaces are. -/
theorem trim_fold (text : Text) : trim (fold text) = fold (trim text) := by
  have spaces : isSpace ∘ Char.toLower = isSpace := funext isSpace_toLower
  simp only [trim, fold, List.dropWhile_map, ← List.map_reverse, spaces]

theorem trim_eq_self_of_ciEquals {a b : Text} (same : ciEquals a b = true) (trimmed : trim a = a) :
    trim b = b := by
  have folded : fold (trim b) = fold b := by
    rw [← trim_fold, ← ciEquals_iff.mp same, trim_fold, trimmed]
  have long : (trim b).length = b.length := by
    have := congrArg List.length folded
    simpa [fold] using this
  have inside : (trim b).Sublist b := by
    have front := List.dropWhile_sublist isSpace (l := b)
    have back := (List.dropWhile_sublist isSpace (l := (b.dropWhile isSpace).reverse)).reverse
    rw [List.reverse_reverse] at back
    exact back.trans front
  exact inside.eq_of_length long

/-- Double every occurrence of the delimiter. -/
def double (delimiter : Char) (text : Text) : Text :=
  text.flatMap fun c => if c = delimiter then [c, c] else [c]

@[simp] theorem double_nil (delimiter : Char) : double delimiter [] = [] := rfl

theorem double_cons (delimiter c : Char) (text : Text) :
    double delimiter (c :: text) =
      (if c = delimiter then [c, c] else [c]) ++ double delimiter text := rfl

/-! ## Separators -/

/-- Texts without a separator are told apart by the first one. -/
theorem split_at_first {a b rest rest' : Text} {separator : Char} (free : separator ∉ a) (free' : separator ∉ b)
    (same : a ++ separator :: rest = b ++ separator :: rest') : a = b ∧ rest = rest' := by
  induction a generalizing b with
  | nil =>
    cases b with
    | nil => exact ⟨rfl, (List.cons.inj same).2⟩
    | cons d b =>
      have starts : separator = d := (List.cons.inj same).1
      exact absurd (by simp [starts]) free'
  | cons c a ih =>
    cases b with
    | nil =>
      have starts : c = separator := (List.cons.inj same).1
      exact absurd (by simp [starts]) free
    | cons d b =>
      obtain ⟨rfl, tails⟩ := List.cons.inj same
      obtain ⟨rfl, rests⟩ := ih (fun held => free (.tail _ held)) (fun held => free' (.tail _ held)) tails
      exact ⟨rfl, rests⟩

/-- Texts whose ends have no separator are told apart by the last one. -/
theorem split_at_last {a b rest rest' : Text} {separator : Char} (free : separator ∉ rest) (free' : separator ∉ rest')
    (same : a ++ separator :: rest = b ++ separator :: rest') : a = b ∧ rest = rest' := by
  have reversed := congrArg List.reverse same
  simp only [List.reverse_append, List.reverse_cons, List.append_assoc, List.singleton_append] at reversed
  obtain ⟨ends, starts⟩ := split_at_first (by simpa using free) (by simpa using free') reversed
  exact ⟨List.reverse_injective starts, List.reverse_injective ends⟩

/-- Parts without the separator are told apart, but for no parts and one empty part. -/
theorem intercalate_inj {separator : Char} {first second : List Text} (free : ∀ part ∈ first, separator ∉ part)
    (free' : ∀ part ∈ second, separator ∉ part) (same : [separator].intercalate first = [separator].intercalate second) :
    first = second ∨ (first = [] ∧ second = [[]]) ∨ (first = [[]] ∧ second = []) := by
  match first, second with
  | [], [] => exact .inl rfl
  | [], part :: rest =>
    have split := List.splitOn_intercalate separator free' (by simp)
    rw [← same] at split
    exact .inr (.inl ⟨rfl, by rw [← split]; rfl⟩)
  | part :: rest, [] =>
    have split := List.splitOn_intercalate separator free (by simp)
    rw [same] at split
    exact .inr (.inr ⟨by rw [← split]; rfl, rfl⟩)
  | part :: rest, part' :: rest' =>
    have split := List.splitOn_intercalate separator free (by simp)
    rw [same, List.splitOn_intercalate separator free' (by simp)] at split
    exact .inl split.symm

theorem intercalate_free {separator other : Char} (apart : other ≠ separator) {parts : List Text}
    (free : ∀ part ∈ parts, other ∉ part) : other ∉ [separator].intercalate parts := by
  induction parts with
  | nil => simp [List.intercalate]
  | cons part rest ih =>
    have later := ih fun part member => free part (List.mem_cons_of_mem _ member)
    have own := free part List.mem_cons_self
    cases rest with
    | nil => simpa [List.intercalate] using own
    | cons next rest =>
      have joined : [separator].intercalate (part :: next :: rest) =
          part ++ separator :: [separator].intercalate (next :: rest) := by
        simp [List.intercalate]
      rw [joined, List.mem_append, List.mem_cons]
      exact fun held => held.elim own fun after => after.elim apart later

end Text

end DuckAcl
