import DuckAcl.Model.NameKeys
import Mathlib.Data.List.Forall2

/-! # Keys are names

A key delimits its own parts: a dot outside quotes ends a part, and a part with a dot or a quote in it is quoted. So keys
and names are the same thing, and what is done on the text of keys is done on lists of parts.
-/

namespace DuckAcl

namespace NamePath

/-! ## Reading a key -/

private theorem readPart_given {text part rest : Text} (read : readPart text = some (part, rest)) : part ≠ [] := by
  rintro rfl
  unfold readPart at read
  dsimp only at read
  split at read
  · cases read
  · next given _ => simp_all
  · next given _ => simp_all
  · cases read

private theorem readParts_isName {fuel : ℕ} {text : Text} {parts : List Text} (read : readParts fuel text = some parts) :
    IsName parts := by
  induction fuel generalizing text parts with
  | zero => cases read
  | succ fuel ih =>
    rw [readParts] at read
    cases first : readPart text with
    | none => rw [first] at read; cases read
    | some piece =>
      obtain ⟨part, rest⟩ := piece
      have given := readPart_given first
      rw [first] at read
      split at read
      · cases read
      · next same =>
        cases same
        cases read
        exact ⟨List.cons_ne_nil _ _, fun other member => List.mem_singleton.mp member ▸ given⟩
      · cases read
      · next same =>
        cases same
        obtain ⟨later, more, rfl⟩ := Option.map_eq_some_iff.mp read
        refine ⟨List.cons_ne_nil _ _, fun other member => ?_⟩
        rcases List.mem_cons.mp member with rfl | member
        · exact given
        · exact (ih more).2 other member

/-- What is read of a text is a name. -/
theorem fromKey_isName {key : Text} {parts : List Text} (read : fromKey key = some parts) : IsName parts := by
  rw [fromKey] at read
  split_ifs at read
  exact readParts_isName read

theorem toKey_nil : toKey [] = [] := rfl

theorem toKey_injective {first second : List Text} (one : ∀ part ∈ first, part ≠ []) (two : ∀ part ∈ second, part ≠ [])
    (same : toKey first = toKey second) : first = second := by
  by_cases empty : first = []
  · subst empty
    by_contra other
    exact toKey_ne_nil ⟨Ne.symm other, two⟩ (same.symm.trans toKey_nil)
  · have some' : second ≠ [] := by
      rintro rfl
      exact toKey_ne_nil ⟨empty, one⟩ (same.trans toKey_nil)
    have read := fromKey_toKey ⟨empty, one⟩
    rw [same, fromKey_toKey ⟨some', two⟩] at read
    exact (Option.some.inj read).symm

private theorem fold_given {parts : List Text} (given : ∀ part ∈ parts, part ≠ []) : ∀ part ∈ parts.map Text.fold, part ≠ [] := by
  intro part member
  obtain ⟨raw, among, rfl⟩ := List.mem_map.mp member
  exact mt Text.fold_eq_nil.mp (given raw among)

private theorem fold_isName {parts : List Text} (name : IsName parts) : IsName (parts.map Text.fold) :=
  ⟨mt List.map_eq_nil_iff.mp name.1, fold_given name.2⟩

/-- Parts that are equal up to case, one by one. -/
theorem forall₂_ciEquals {first second : List Text} :
    List.Forall₂ (fun a b => Text.ciEquals a b = true) first second ↔ first.map Text.fold = second.map Text.fold := by
  rw [← List.forall₂_eq_eq_eq, List.forall₂_map_left_iff, List.forall₂_map_right_iff]
  simp only [Text.ciEquals_iff]

theorem foldKey_iff {first second : List Text} (one : ∀ part ∈ first, part ≠ []) (two : ∀ part ∈ second, part ≠ []) :
    foldKey first = foldKey second ↔ List.Forall₂ (fun a b => Text.ciEquals a b = true) first second := by
  rw [forall₂_ciEquals, foldKey, foldKey, ← toKey_fold, ← toKey_fold]
  exact ⟨toKey_injective (fold_given one) (fold_given two), congrArg toKey⟩

/-- Names and keys say the same: parts read back, different names have different keys, what is read of any text has a
key that reads back, and folded keys compare names up to case. The name without parts has a key that is none. -/
theorem keys_encode_names :
    (∀ parts, IsName parts → fromKey (toKey parts) = some parts) ∧ fromKey (toKey []) = none ∧
      (∀ first second, (∀ part ∈ first, part ≠ []) → (∀ part ∈ second, part ≠ []) → toKey first = toKey second → first = second) ∧
      (∀ key parts, fromKey key = some parts → (fromKey (toKey parts)).map toKey = some (toKey parts)) ∧
      ∀ first second, (∀ part ∈ first, part ≠ []) → (∀ part ∈ second, part ≠ []) →
        (List.Forall₂ (fun a b => Text.ciEquals a b = true) first second ↔ foldKey first = foldKey second) := by
  refine ⟨fun parts => fromKey_toKey, rfl, fun first second => toKey_injective, fun key parts read => ?_,
    fun first second one two => (foldKey_iff one two).symm⟩
  rw [fromKey_toKey (fromKey_isName read)]
  rfl

theorem keys_encode_names_dotted :
    fromKey (toKey ["a.b".toList, "c\"".toList]) = some ["a.b".toList, "c\"".toList] ∧
      ["a.b".toList] = ["a.b".toList] ∧
      (fromKey (toKey ["a.b".toList])).map toKey = some (toKey ["a.b".toList]) ∧
      (List.Forall₂ (fun a b => Text.ciEquals a b = true) ["A.b".toList] ["a.B".toList] ↔
        foldKey ["A.b".toList] = foldKey ["a.B".toList]) := by
  obtain ⟨read, -, same, canonical, folded⟩ := keys_encode_names
  exact ⟨read _ ⟨by decide, by decide⟩, same _ _ (by decide) (by decide) rfl,
    canonical (toKey ["a.b".toList]) _ (read _ ⟨by decide, by decide⟩), folded _ _ (by decide) (by decide)⟩

/-- The name without parts has no key that is read. -/
theorem empty_name_unread : ¬ ∀ parts : List Text, (∀ part ∈ parts, part ≠ []) → fromKey (toKey parts) = some parts := by
  intro always
  have read := always [] fun part none => (List.not_mem_nil none).elim
  cases read

/-! ## Keys as text -/

theorem joinKeys_toKey {first second : List Text} (one : IsName first) (two : IsName second) :
    joinKeys (toKey first) (toKey second) = toKey (first ++ second) := by
  rw [joinKeys, if_neg (toKey_ne_nil one), if_neg (toKey_ne_nil two), toKey_append one.1 two.1]

theorem toKey_one (part : Text) : toKey [part] = quotePart part := by simp [toKey]

/-- The parts that a key's parts start with, up to case. -/
theorem keyUnder_iff {path key : List Text} (above : IsName path) (name : IsName key) :
    keyUnder (toKey key) (toKey path) = true ↔
      ∃ head tail, key = head ++ tail ∧ tail ≠ [] ∧ List.Forall₂ (fun a b => Text.ciEquals a b = true) path head := by
  rw [keyUnder, Bool.and_eq_true, Bool.and_eq_true, decide_eq_true_iff, decide_eq_true_iff, Text.ciEquals_iff]
  constructor
  · rintro ⟨⟨longer, dot⟩, starts⟩
    obtain ⟨inside, isDot⟩ := List.getElem?_eq_some_iff.mp dot
    have cut : toKey key = (toKey key).take (toKey path).length ++ '.' :: (toKey key).drop ((toKey path).length + 1) := by
      conv_lhs => rw [← List.take_append_drop (toKey path).length (toKey key), List.drop_eq_getElem_cons inside, isDot]
    have folded := congrArg Text.fold cut
    rw [Text.fold, Text.fold, List.map_append, List.map_cons] at folded
    have dotted : toKey (key.map Text.fold) = toKey (path.map Text.fold) ++
        '.' :: Text.fold ((toKey key).drop ((toKey path).length + 1)) := by
      rw [toKey_fold, toKey_fold, ← starts]
      exact folded
    obtain ⟨later, more, parts⟩ := parts_of_starts (fold_isName above) (fold_isName name) dotted
    obtain ⟨head, tail, rfl, same, rest⟩ := List.map_eq_append_iff.mp parts
    refine ⟨head, tail, rfl, ?_, forall₂_ciEquals.mpr same.symm⟩
    rintro rfl
    exact more rest.symm
  · rintro ⟨head, tail, rfl, more, same⟩
    have folds := forall₂_ciEquals.mp same
    have some' : head ≠ [] := by
      rintro rfl
      exact above.1 (List.map_eq_nil_iff.mp folds)
    have keys : Text.fold (toKey head) = Text.fold (toKey path) := by
      rw [← toKey_fold, ← toKey_fold, folds]
    have long : (toKey path).length = (toKey head).length := by
      rw [← Text.length_fold, ← keys, Text.length_fold]
    have later : IsName tail := ⟨more, fun part member => name.2 part (List.mem_append_right _ member)⟩
    have rest := List.length_pos_of_ne_nil (toKey_ne_nil later)
    rw [toKey_append some' more, long]
    refine ⟨⟨?_, ?_⟩, ?_⟩
    · rw [List.length_append, List.length_cons]
      omega
    · rw [List.getElem?_append_right le_rfl, Nat.sub_self]
      rfl
    · rw [List.take_left]
      exact keys

theorem splitHeadKey_cons {head : Text} {rest : List Text} (name : IsName (head :: rest)) :
    splitHeadKey (toKey (head :: rest)) = if rest = [] then ([], []) else (toKey [head], toKey rest) := by
  rw [splitHeadKey, fromKey_toKey name]
  cases rest with
  | nil => rfl
  | cons second rest =>
    rw [if_neg (List.cons_ne_nil _ _), toKey_one]

theorem splitLeaf_of_name {parts : List Text} (name : IsName parts) :
    splitLeaf (toKey parts) = (toKey parts.dropLast, parts.getLast name.1) := by
  rw [splitLeaf, fromKey_toKey name]
  exact congrArg (Prod.mk _) (List.getLastD_eq_getLast?  .. |>.trans (by rw [List.getLast?_eq_some_getLast name.1]; rfl))

private theorem quotePart_plain {part : Text} (dots : '.' ∉ part) (quotes : '"' ∉ part) : quotePart part = part :=
  if_pos ⟨dots, quotes⟩

private theorem quotePart_dot {part : Text} : '.' ∈ quotePart part ↔ '.' ∈ part := by
  rw [quotePart]
  split_ifs
  · rfl
  · simp only [List.cons_append, List.mem_cons, List.mem_append, List.mem_flatMap, List.not_mem_nil, or_false]
    constructor
    · rintro (quote | ⟨c, member, inside⟩ | quote)
      · cases quote
      · split_ifs at inside with quote
        · simp at inside
        · rwa [List.mem_singleton.mp inside]
      · cases quote
    · intro member
      exact .inr (.inl ⟨'.', member, List.mem_singleton_self _⟩)

private theorem quotePart_quote {part : Text} (special : '.' ∈ part ∨ '"' ∈ part) : '"' ∈ quotePart part := by
  rw [quotePart, if_neg (by tauto)]
  exact List.mem_cons_self

theorem fromDisplay_display {parts : List Text} (name : IsName parts) :
    fromDisplay (display (toKey parts)) = toKey parts := by
  rw [display, fromKey_toKey name]
  obtain ⟨head, rest, rfl⟩ := List.exists_cons_of_ne_nil name.1
  cases rest with
  | nil =>
    dsimp only
    rw [toKey_one]
    by_cases dots : '.' ∈ head
    · rw [if_neg (not_not_intro dots), fromDisplay, if_neg fun shown => shown.2 (quotePart_dot.mpr dots)]
    · rw [if_pos dots, fromDisplay]
      by_cases quotes : '"' ∈ head
      · rw [if_pos ⟨quotes, dots⟩]
      · rw [if_neg fun shown => quotes shown.1, quotePart_plain dots quotes]
  | cons second rest =>
    have dotted : '.' ∈ toKey (head :: second :: rest) := by
      rw [← List.singleton_append, toKey_append (List.cons_ne_nil _ _) (List.cons_ne_nil _ _)]
      exact List.mem_append_right _ List.mem_cons_self
    exact if_neg fun shown => shown.2 dotted

/-- What is done on the text of keys is done on lists of parts. A key of one part has no head and rest. -/
theorem key_text_operations {a b : List Text} (one : IsName a) (two : IsName b) :
    (keyUnder (toKey b) (toKey a) = true ↔
        ∃ head tail, b = head ++ tail ∧ tail ≠ [] ∧ List.Forall₂ (fun x y => Text.ciEquals x y = true) a head) ∧
      joinKeys (toKey a) (toKey b) = toKey (a ++ b) ∧
      splitHeadKey (toKey a) = (if a.tail = [] then ([], []) else (toKey [a.head one.1], toKey a.tail)) ∧
      splitLeaf (toKey a) = (toKey a.dropLast, a.getLast one.1) ∧
      fromDisplay (display (toKey a)) = toKey a := by
  refine ⟨keyUnder_iff one two, joinKeys_toKey one two, ?_, splitLeaf_of_name one, fromDisplay_display one⟩
  obtain ⟨head, rest, rfl⟩ := List.exists_cons_of_ne_nil one.1
  exact splitHeadKey_cons one

theorem key_text_operations_dotted :
    keyUnder (toKey ["A.b".toList, "t".toList]) (toKey ["a.b".toList]) = true ∧
      joinKeys (toKey ["a.b".toList]) (toKey ["A.b".toList, "t".toList]) =
        toKey ["a.b".toList, "A.b".toList, "t".toList] := by
  obtain ⟨under, join, -⟩ := @key_text_operations ["a.b".toList] ["A.b".toList, "t".toList] ⟨by decide, by decide⟩
    ⟨by decide, by decide⟩
  exact ⟨under.mpr ⟨["A.b".toList], ["t".toList], rfl, by decide, .cons (by decide) .nil⟩, join⟩

/-- A key of one part gives neither its head nor a rest. -/
theorem one_part_unsplit :
    ¬ ∀ (head : Text) (rest : List Text), IsName (head :: rest) →
      splitHeadKey (toKey (head :: rest)) = (toKey [head], toKey rest) := by
  intro always
  have split := always "a".toList [] ⟨by decide, by decide⟩
  exact absurd (congrArg Prod.fst split) (by decide)

end NamePath

end DuckAcl
