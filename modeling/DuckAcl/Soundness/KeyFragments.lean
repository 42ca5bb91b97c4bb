import DuckAcl.Model.KeyFragments
import DuckAcl.Soundness.DdlTargets
import DuckAcl.Soundness.NameKeys

/-! # SQL fragments and key functions agree

What the fragments answer on a canonical key is what the functions of `NamePath` compute on it. A part boundary is
found by the pattern of the last part: a part cut at an inner dot has an odd number of quotes behind the cut, and
what the pattern takes an even one.
-/

namespace DuckAcl

namespace SqlText

/-! ## Text functions -/

/-- Each capital letter has its small one at the same place. -/
private theorem small_letter : ∀ c ∈ "ABCDEFGHIJKLMNOPQRSTUVWXYZ".toList,
    ("abcdefghijklmnopqrstuvwxyz".toList["ABCDEFGHIJKLMNOPQRSTUVWXYZ".toList.idxOf c]?).toList = [c.toLower] := by
  intro c letter
  simp only [String.reduceToList, List.mem_cons, List.not_mem_nil, or_false] at letter
  simp only [String.reduceToList]
  rcases letter with rfl | rfl | rfl | rfl | rfl | rfl | rfl | rfl | rfl | rfl | rfl | rfl | rfl | rfl | rfl | rfl | rfl |
    rfl | rfl | rfl | rfl | rfl | rfl | rfl | rfl | rfl <;> rfl

private theorem toLower_other {c : Char} (other : c ∉ "ABCDEFGHIJKLMNOPQRSTUVWXYZ".toList) : c.toLower = c := by
  rw [Char.toLower]
  split_ifs with between
  · have low : 65 ≤ c.toNat := between.1
    have high : c.toNat ≤ 90 := between.2
    rw [← Char.ofNat_toNat c] at other
    simp only [String.reduceToList] at other
    interval_cases c.toNat <;> exact absurd (by decide) other
  · rfl

theorem translate_fold (text : Text) :
    translate "ABCDEFGHIJKLMNOPQRSTUVWXYZ".toList "abcdefghijklmnopqrstuvwxyz".toList text = Text.fold text := by
  unfold translate Text.fold
  rw [List.map_eq_flatMap]
  refine List.flatMap_congr fun c _ => ?_
  split_ifs with letter
  · exact small_letter c letter
  · rw [toLower_other letter]

theorem contains_char (text : Text) (c : Char) : contains text [c] = decide (c ∈ text) := by
  unfold contains
  induction text with
  | nil => rfl
  | cons first rest ih =>
    rw [List.tails_cons, List.any_cons, ih]
    by_cases same : c = first <;> simp [same]

theorem replace_double (text : Text) :
    replace text ['"'] ['"', '"'] = text.flatMap fun c => if c = '"' then ['"', '"'] else [c] := by
  rw [replace, if_neg (by simp)]
  induction text with
  | nil => rfl
  | cons c rest ih =>
    rw [replaceFrom, List.flatMap_cons, List.length_singleton, Nat.sub_self, ih]
    by_cases quote : c = '"'
    · simp [quote]
    · simp [quote, Ne.symm quote]

theorem replace_undouble (text : Text) :
    replace (text.flatMap fun c => if c = '"' then ['"', '"'] else [c]) ['"', '"'] ['"'] = text := by
  rw [replace, if_neg (by simp)]
  induction text with
  | nil => rfl
  | cons c rest ih =>
    rw [List.flatMap_cons]
    by_cases quote : c = '"'
    · subst quote
      rw [if_pos rfl]
      simp only [List.cons_append, List.nil_append, replaceFrom]
      simp [ih, replaceFrom]
    · rw [if_neg quote, List.singleton_append, replaceFrom, ih]
      simp [Ne.symm quote]

theorem substr_one (text : Text) (count : ℕ) : substr text 1 count = text.take count := by
  simp [substr]

theorem substr_two (text : Text) (count : ℕ) : substr text 2 count = (text.drop 1).take count := by
  cases text <;> simp [substr]

end SqlText

namespace KeyPattern

open NamePath

/-! ## The pattern of the last part -/

theorem plain_quoted : quoted.Plain := ⟨trivial, ⟨trivial, trivial, trivial⟩, trivial⟩

theorem language_plain (text : Text) : text ∈ (Regex.many plainChar).language ↔ '.' ∉ text ∧ '"' ∉ text := by
  rw [Regex.language, Language.mem_kstar]
  constructor
  · rintro ⟨pieces, rfl, each⟩
    have chars : ∀ c ∈ pieces.flatten, c ≠ '.' ∧ c ≠ '"' := by
      intro c member
      obtain ⟨piece, among, inside⟩ := List.mem_flatten.mp member
      obtain ⟨d, rfl, accepted⟩ := each piece among
      rw [List.mem_singleton.mp inside]
      exact of_decide_eq_true accepted
    exact ⟨fun dot => (chars _ dot).1 rfl, fun quote => (chars _ quote).2 rfl⟩
  · rintro ⟨dots, quotes⟩
    refine ⟨text.map fun c => [c], ?_, ?_⟩
    · rw [← List.flatMap_def, List.flatMap_singleton']
    · intro piece among
      obtain ⟨c, member, rfl⟩ := List.mem_map.mp among
      exact ⟨c, rfl, decide_eq_true ⟨fun dot => dots (dot ▸ member), fun quote => quotes (quote ▸ member)⟩⟩

/-- The inside of a quoted part: other letters, and quotes in pairs. -/
private def inside : Regex Char := .many (.either (.one (· ≠ '"')) (.seq (.one (· = '"')) (.one (· = '"'))))

private theorem inside_cons {piece : Text} {text : Text}
    (first : piece ∈ (Regex.either (.one (· ≠ '"')) (.seq (.one (· = '"')) (.one (· = '"'))) : Regex Char).language)
    (rest : text ∈ inside.language) : piece ++ text ∈ inside.language := by
  rw [inside, Regex.language, Language.mem_kstar] at rest ⊢
  obtain ⟨pieces, rfl, each⟩ := rest
  exact ⟨piece :: pieces, rfl, List.forall_mem_cons.mpr ⟨first, each⟩⟩

private theorem letter_of_inside {c : Char} (other : c ≠ '"') :
    [c] ∈ (Regex.either (.one (· ≠ '"')) (.seq (.one (· = '"')) (.one (· = '"'))) : Regex Char).language :=
  .inl ⟨c, rfl, decide_eq_true other⟩

private theorem quotes_of_inside :
    ['"', '"'] ∈ (Regex.either (.one (· ≠ '"')) (.seq (.one (· = '"')) (.one (· = '"'))) : Regex Char).language :=
  .inr ⟨['"'], ⟨'"', rfl, rfl⟩, ['"'], ⟨'"', rfl, rfl⟩, rfl⟩

private theorem closesQuote_iff (text : Text) :
    closesQuote text = true ↔ ∃ before ∈ inside.language, text = before ++ ['"'] := by
  constructor
  · intro closes
    induction text using closesQuote.induct with
    | case1 => cases closes
    | case2 => exact ⟨[], Language.nil_mem_kstar _, rfl⟩
    | case3 rest ih =>
      rw [closesQuote] at closes
      obtain ⟨before, within, rfl⟩ := ih closes
      exact ⟨['"', '"'] ++ before, inside_cons quotes_of_inside within, rfl⟩
    | case4 => simp [closesQuote] at closes
    | case5 c rest _ _ other ih =>
      obtain ⟨before, within, rfl⟩ := ih (by simpa [closesQuote, other] using closes)
      exact ⟨[c] ++ before, inside_cons (letter_of_inside other) within, rfl⟩
  · rintro ⟨before, within, rfl⟩
    rw [inside, Regex.language, Language.mem_kstar] at within
    obtain ⟨pieces, rfl, each⟩ := within
    induction pieces with
    | nil => rfl
    | cons piece pieces ih =>
      obtain ⟨first, others⟩ := List.forall_mem_cons.mp each
      have later := ih others
      rcases first with ⟨c, rfl, other⟩ | ⟨_, ⟨c, rfl, one⟩, _, ⟨d, rfl, two⟩, rfl⟩
      · have other' : c ≠ '"' := of_decide_eq_true other
        rw [List.flatten_cons, List.append_assoc, List.singleton_append, closesQuote]
        · exact later
        · simp [other']
        · simp [other']
        · exact other'
      · obtain rfl : c = '"' := of_decide_eq_true one
        obtain rfl : d = '"' := of_decide_eq_true two
        exact later

theorem language_leaf (text : Text) : text ∈ (Regex.either quoted (.many plainChar)).language ↔ isLeafForm text = true := by
  rw [Regex.language, Language.mem_add, language_plain, isLeafForm_iff]
  refine or_congr_left ?_
  constructor
  · rintro ⟨_, ⟨c, rfl, one⟩, _, ⟨before, within, _, ⟨d, rfl, two⟩, rfl⟩, rfl⟩
    obtain rfl : c = '"' := of_decide_eq_true one
    obtain rfl : d = '"' := of_decide_eq_true two
    exact ⟨_, rfl, (closesQuote_iff _).mpr ⟨before, within, rfl⟩⟩
  · rintro ⟨rest, rfl, closes⟩
    obtain ⟨before, within, rfl⟩ := (closesQuote_iff rest).mp closes
    exact ⟨['"'], ⟨'"', rfl, rfl⟩, _, ⟨before, within, ['"'], ⟨'"', rfl, rfl⟩, rfl⟩, rfl⟩

/-- What follows the start or a dot is one part up to the end. -/
private def lastPart : Regex Char := .seq (.group (.either quoted (.many plainChar))) .finish

private theorem plain_part : (Regex.either quoted (.many plainChar)).Plain := ⟨plain_quoted, trivial⟩

private theorem head_part {atStart : Bool} {text : Text} (part : isLeafForm text = true) :
    (lastPart.runs atStart text).head? = some ⟨text, some text, []⟩ :=
  Regex.head_to_finish plain_part ((language_leaf text).mpr part)

private theorem no_part {atStart : Bool} {text : Text} (other : isLeafForm text = false) : lastPart.runs atStart text = [] :=
  Regex.runs_to_finish plain_part fun part => by simp [(language_leaf text).mp part] at other

/-- The runs that start with a dot. -/
private def dottedRuns : Text → List (Regex.Run Char)
  | '.' :: rest => (lastPart.runs false rest).map (Regex.Run.andThen ⟨['.'], none, rest⟩)
  | _ => []

private theorem dottedRuns_other {c : Char} (other : c ≠ '.') (rest : Text) : dottedRuns (c :: rest) = [] := by
  rw [dottedRuns]
  exact fun _ same => other (List.cons.inj same).1

private theorem leaf_runs (atStart : Bool) (text : Text) :
    leaf.runs atStart text = (if atStart then lastPart.runs true text else []) ++ dottedRuns text := by
  have same : (fun run : Regex.Run Char => Regex.Run.andThen ⟨[], none, text⟩ run) = id :=
    funext (Regex.andThen_nothing text)
  rw [leaf, Regex.runs_seq, Regex.runs_either, List.flatMap_append]
  congr 1
  · cases atStart with
    | false => rfl
    | true => simp [same, lastPart]
  · cases text with
    | nil => rfl
    | cons c rest =>
      by_cases dot : c = '.'
      · subst dot
        simp [lastPart, dottedRuns]
      · rw [Regex.runs_one_cons, if_neg (by simpa using dot), dottedRuns_other dot]
        rfl

/-- From a place that is not the start, the part after the first dot that one part follows to the end. -/
private theorem search_after_dot (text : Text) : ((leaf.search false text).bind Regex.Run.group).getD [] = leafAfterDot text := by
  induction text with
  | nil => rfl
  | cons c rest ih =>
    rw [leafAfterDot]
    split_ifs with dotted
    · obtain ⟨rfl, part⟩ := dotted
      have first : (leaf.runs false ('.' :: rest)).head? = some ⟨'.' :: rest, some rest, []⟩ := by
        rw [leaf_runs, if_neg Bool.false_ne_true, List.nil_append, dottedRuns, List.head?_map, head_part part]
        rfl
      rw [Regex.search_of_head first]
      rfl
    · have nothing : leaf.runs false (c :: rest) = [] := by
        rw [leaf_runs, if_neg Bool.false_ne_true, List.nil_append]
        by_cases dot : c = '.'
        · subst dot
          rw [dottedRuns, no_part (by simpa using dotted), List.map_nil]
        · exact dottedRuns_other dot rest
      rw [Regex.search_of_none nothing, ih]

/-- The pattern takes the whole text where it is one part, and otherwise what stands after the first such dot. -/
theorem extract_leaf (text : Text) : leaf.extract text = keyLeaf text := by
  rw [Regex.extract, keyLeaf]
  split_ifs with part
  · have first : (leaf.runs true text).head? = some ⟨text, some text, []⟩ := by
      rw [leaf_runs, if_pos rfl, List.head?_append, head_part part]
      rfl
    rw [Regex.search_of_head first]
    rfl
  · cases text with
    | nil => exact absurd rfl part
    | cons c rest =>
      have moved : leaf.runs true (c :: rest) = leaf.runs false (c :: rest) := by
        rw [leaf_runs, leaf_runs, if_pos rfl, no_part (by simpa using part)]
        rfl
      have searched : leaf.search true (c :: rest) = leaf.search false (c :: rest) := by
        rw [Regex.search, Regex.search, moved]
      rw [searched, search_after_dot]

/-! ## The pattern of one part -/

private theorem many_plain (part : Text) {rest : Text} (dots : '.' ∉ part) (quotes : '"' ∉ part)
    (ends : rest = [] ∨ ∃ more, rest = '.' :: more) :
    ((Regex.many plainChar).runs false (part ++ rest)).head? = some ⟨part, none, rest⟩ := by
  induction part with
  | nil =>
    have stops : plainChar.runs false rest = [] := by
      rcases ends with rfl | ⟨more, rfl⟩ <;> rfl
    rw [List.nil_append, Regex.many_no_round stops]
    rfl
  | cons c part ih =>
    rw [List.mem_cons, not_or] at dots quotes
    have round : plainChar.runs false (c :: (part ++ rest)) = [⟨[c], none, part ++ rest⟩] :=
      if_pos (decide_eq_true ⟨Ne.symm dots.1, Ne.symm quotes.1⟩)
    rw [List.cons_append, Regex.many_round round (List.cons_ne_nil _ _), List.head?_append, List.head?_map,
      ih dots.2 quotes.2]
    rfl

private theorem quoted_inside (part : Text) {rest : Text} (ends : rest = [] ∨ ∃ more, rest = '.' :: more) :
    ((Regex.seq inside (.one (· = '"'))).runs false
        ((part.flatMap fun c => if c = '"' then ['"', '"'] else [c]) ++ '"' :: rest)).head? =
      some ⟨(part.flatMap fun c => if c = '"' then ['"', '"'] else [c]) ++ ['"'], none, rest⟩ := by
  induction part with
  | nil =>
    have stops : (Regex.either (.one (· ≠ '"')) (.seq (.one (· = '"')) (.one (· = '"'))) : Regex Char).runs false
        ('"' :: rest) = [] := by
      rcases ends with rfl | ⟨more, rfl⟩ <;> rfl
    rw [List.flatMap_nil, List.nil_append, inside, Regex.runs_no_round stops]
    rfl
  | cons c part ih =>
    rw [List.flatMap_cons]
    by_cases quote : c = '"'
    · subst quote
      rw [if_pos rfl, List.append_assoc]
      have round : ∀ text, (Regex.either (.one (· ≠ '"')) (.seq (.one (· = '"')) (.one (· = '"'))) : Regex Char).runs false
          ('"' :: '"' :: text) = [⟨['"', '"'], none, text⟩] := fun _ => rfl
      exact Regex.head_round (round _) (List.cons_ne_nil _ _) ih
    · rw [if_neg quote, List.append_assoc]
      have round : ∀ text, (Regex.either (.one (· ≠ '"')) (.seq (.one (· = '"')) (.one (· = '"'))) : Regex Char).runs false
          (c :: text) = [⟨[c], none, text⟩] := by
        intro text
        simp [quote]
      exact Regex.head_round (round _) (List.cons_ne_nil _ _) ih

/-- The pattern takes a part as it is written, up to what ends it. -/
theorem token_head {part : Text} (given : part ≠ []) {atStart : Bool} {rest : Text}
    (ends : rest = [] ∨ ∃ more, rest = '.' :: more) :
    (token.runs atStart (quotePart part ++ rest)).head? = some ⟨quotePart part, none, rest⟩ := by
  rw [token, Regex.runs_either, List.head?_append, quotePart]
  split_ifs with plain
  · obtain ⟨c, more, rfl⟩ := List.exists_cons_of_ne_nil given
    obtain ⟨dots, quotes⟩ := plain
    rw [List.mem_cons, not_or] at dots quotes
    have unquoted : quoted.runs atStart (c :: (more ++ rest)) = [] := by
      simp [quoted, Ne.symm quotes.1]
    have first : plainChar.runs atStart (c :: (more ++ rest)) = [⟨[c], none, more ++ rest⟩] :=
      if_pos (decide_eq_true ⟨Ne.symm dots.1, Ne.symm quotes.1⟩)
    rw [List.cons_append, unquoted, Regex.runs_seq, first]
    simp only [List.flatMap_cons, List.flatMap_nil, List.append_nil, List.isEmpty_cons, Bool.and_false, List.head?_map,
      many_plain more dots.2 quotes.2 ends]
    rfl
  · have opened : (quoted.runs atStart ('"' :: ((part.flatMap fun c => if c = '"' then ['"', '"'] else [c]) ++ '"' :: rest))).head? =
        some ⟨'"' :: ((part.flatMap fun c => if c = '"' then ['"', '"'] else [c]) ++ ['"']), none, rest⟩ := by
      have later := quoted_inside part ends
      have first : ∀ text, (Regex.one (· = '"') : Regex Char).runs atStart ('"' :: text) = [⟨['"'], none, text⟩] := fun _ => rfl
      rw [inside] at later
      rw [quoted, Regex.runs_seq, first]
      simp only [List.flatMap_cons, List.flatMap_nil, List.append_nil, List.isEmpty_cons, Bool.and_false, List.head?_map, later]
      rfl
    simp only [List.cons_append, List.append_assoc, List.nil_append]
    rw [opened]
    rfl

private theorem token_stops (atStart : Bool) (rest : Text) : token.runs atStart ('.' :: rest) = [] := rfl

/-- The matches in a key are its parts as they are written. -/
theorem extractAll_token {parts : List Text} (name : IsName parts) : token.extractAll (toKey parts) = parts.map quotePart := by
  have rounds : ∀ (fuel : ℕ) (atStart : Bool), (toKey parts).length < fuel →
      token.matchesFrom fuel atStart (toKey parts) = parts.map quotePart := by
    induction parts with
    | nil => exact absurd rfl name.1
    | cons part rest ih =>
      intro fuel atStart enough
      obtain ⟨more, rfl⟩ : ∃ more, fuel = more + 1 := ⟨fuel - 1, by omega⟩
      have given := name.2 part List.mem_cons_self
      have takes : quotePart part ≠ [] := by
        rw [← toKey_one]
        exact toKey_ne_nil ⟨List.cons_ne_nil _ _, fun other member => List.mem_singleton.mp member ▸ given⟩
      cases rest with
      | nil =>
        have found := Regex.search_of_head (@token_head _ given atStart _ (.inl rfl))
        rw [List.append_nil] at found
        rw [toKey_one, Regex.matchesFrom_of_search found takes]
        cases more <;> rfl
      | cons second rest =>
        have later : IsName (second :: rest) := ⟨by simp, fun other member => name.2 other (List.mem_cons_of_mem _ member)⟩
        rw [toKey_two, List.length_append, List.length_cons] at enough
        have found := Regex.search_of_head (@token_head _ given atStart _ (.inr ⟨toKey (second :: rest), rfl⟩))
        rw [toKey_two, Regex.matchesFrom_of_search found takes, Regex.matchesFrom_of_none (token_stops false _),
          ih later more false (by omega)]
        rfl
  exact rounds _ true (Nat.lt_succ_self _)

end KeyPattern

namespace NamePath

/-! ## The last part -/

theorem isLeafForm_quotePart (part : Text) : isLeafForm (quotePart part) = true := by
  rw [isLeafForm_iff, quotePart]
  split_ifs with plain
  · exact .inr plain
  · refine .inl ⟨_, List.cons_append, ?_⟩
    clear plain
    induction part with
    | nil => rfl
    | cons c part ih =>
      rw [List.flatMap_cons, List.append_assoc]
      by_cases quote : c = '"'
      · subst quote
        exact ih
      · rw [if_neg quote, List.singleton_append, closesQuote]
        · exact ih
        · simp [quote]
        · simp [quote]
        · exact quote

private theorem leafAfterDot_cut {key before tail : Text} (cut : key = before ++ '.' :: tail) (part : isLeafForm tail = true) :
    ∃ before', key = before' ++ '.' :: leafAfterDot key ∧ isLeafForm (leafAfterDot key) = true := by
  induction key generalizing before with
  | nil => simp at cut
  | cons c rest ih =>
    rw [leafAfterDot]
    split_ifs with dotted
    · obtain ⟨rfl, part⟩ := dotted
      exact ⟨[], rfl, part⟩
    · cases before with
      | nil =>
        obtain ⟨rfl, rfl⟩ := List.cons.inj cut
        exact absurd ⟨rfl, part⟩ dotted
      | cons d before =>
        obtain ⟨rfl, inner⟩ := List.cons.inj cut
        obtain ⟨before', same, part'⟩ := ih inner
        exact ⟨c :: before', congrArg (c :: ·) same, part'⟩

/-- The pattern of the last part takes it as it is written. -/
theorem keyLeaf_toKey {above : List Text} {last : Text} (name : IsName (above ++ [last])) :
    keyLeaf (toKey (above ++ [last])) = quotePart last := by
  cases above with
  | nil => rw [List.nil_append, toKey_one, keyLeaf, if_pos (isLeafForm_quotePart last)]
  | cons part above =>
    have cut : toKey (part :: above ++ [last]) = toKey (part :: above) ++ '.' :: quotePart last := by
      rw [toKey_append (List.cons_ne_nil _ _) (List.cons_ne_nil _ _), toKey_one]
    have more : isLeafForm (toKey (part :: above ++ [last])) = false := by
      obtain ⟨second, rest, same⟩ := List.exists_cons_of_ne_nil (show above ++ [last] ≠ [] by simp)
      rw [List.cons_append, same, toKey_two]
      exact isLeafForm_two (name.2 part (by simp)) _
    obtain ⟨before, cut', part'⟩ := leafAfterDot_cut cut (isLeafForm_quotePart last)
    obtain ⟨above', last', same, -, rfl⟩ := leaf_of_cut name cut' part'
    obtain ⟨rfl, -⟩ := List.append_inj' same rfl
    have joined := cut.symm.trans cut'
    rw [keyLeaf, more, if_neg Bool.false_ne_true]
    exact (List.cons.inj (List.append_cancel_left joined)).2.symm

/-- A key does not end with a dot. -/
theorem toKey_ends {parts : List Text} (name : IsName parts) (before : Text) : toKey parts ≠ before ++ ['.'] := by
  intro ends
  obtain ⟨above, last, rfl, given, rfl⟩ := leaf_of_cut name ends rfl
  have unread := fromKey_trailing ⟨given, fun part member => name.2 part (List.mem_append_left _ member)⟩
  rw [← ends, fromKey_toKey name] at unread
  cases unread

/-- A text that goes on with a dot after the path, and does not end there. -/
theorem keyUnder_take {key path : Text} (ends : ∀ before, key ≠ before ++ ['.']) :
    keyUnder key path = true ↔ Text.fold (key.take (path.length + 1)) = Text.fold (path ++ ['.']) := by
  have dotted : Text.fold (path ++ ['.']) = Text.fold path ++ ['.'] := List.map_append
  rw [keyUnder, Bool.and_eq_true, Bool.and_eq_true, decide_eq_true_iff, decide_eq_true_iff, Text.ciEquals_iff, dotted]
  constructor
  · rintro ⟨⟨-, dot⟩, starts⟩
    rw [List.take_add_one, dot, Text.fold, List.map_append]
    exact congrArg (· ++ ['.']) starts
  · intro same
    have long : path.length + 1 ≤ key.length := by
      have lengths := congrArg List.length same
      rw [Text.length_fold, List.length_take, List.length_append, Text.length_fold, List.length_singleton] at lengths
      omega
    have here : key[path.length]? = some key[path.length] := List.getElem?_eq_getElem long
    rw [List.take_add_one, here, Text.fold, List.map_append] at same
    obtain ⟨starts, last⟩ := List.append_inj' same rfl
    have dot : key[path.length] = '.' := (Text.toLower_eq_iff (by decide)).mp (List.cons.inj last).1
    rw [dot] at here
    refine ⟨⟨lt_of_le_of_ne long fun whole => ?_, here⟩, starts⟩
    refine ends (key.take path.length) ?_
    conv_lhs => rw [← List.take_length (l := key), ← whole, List.take_add_one, here]
    rfl

end NamePath

/-! ## Fragments -/

section Evaluation

open NamePath SqlExpr

variable {row : Text → Text} {key path expr : SqlExpr .text} {parts : List Text}

theorem eval_keyFoldSql (expr : SqlExpr .text) : (keyFoldSql expr).eval row = Text.fold (expr.eval row) :=
  SqlText.translate_fold _

theorem eval_keyEqSql (a b : SqlExpr .text) : (keyEqSql a b).eval row = keyEquals (a.eval row) (b.eval row) := by
  have folded : (keyEqSql a b).eval row = decide ((keyFoldSql a).eval row = (keyFoldSql b).eval row) := rfl
  rw [folded, eval_keyFoldSql, eval_keyFoldSql, Bool.eq_iff_iff, decide_eq_true_iff, keyEquals, Text.ciEquals_iff]

theorem eval_keyPrefixSql (name : IsName parts) (keyed : key.eval row = toKey parts) :
    (keyPrefixSql key path).eval row = keyUnder (key.eval row) (path.eval row) := by
  have taken : (substr key (number 1) (plus (length path) (number 1))).eval row =
      (key.eval row).take ((path.eval row).length + 1) := SqlText.substr_one _ ((path.eval row).length + 1)
  have compared : (keyPrefixSql key path).eval row =
      decide (Text.fold ((key.eval row).take ((path.eval row).length + 1)) = Text.fold (path.eval row ++ ".".toList)) := by
    rw [← taken, ← eval_keyFoldSql]
    exact congrArg (fun text => decide (_ = text)) (SqlText.translate_fold _)
  rw [compared, Bool.eq_iff_iff, decide_eq_true_iff, keyUnder_take fun before => keyed ▸ toKey_ends name before]
  rfl

/-- A part as it is written in a key, as its raw name. -/
theorem eval_keyUnquoteSql {part : Text} (given : part ≠ []) (written : expr.eval row = quotePart part) :
    (keyUnquoteSql expr).eval row = part := by
  have chosen : (keyUnquoteSql expr).eval row =
      if ['"'].isPrefixOf (expr.eval row) then
        SqlText.replace (SqlText.substr (expr.eval row) 2 ((expr.eval row).length - 2)) ['"', '"'] ['"']
      else expr.eval row := rfl
  rw [chosen, written, quotePart]
  split_ifs with plain opened opened
  · obtain ⟨c, more, rfl⟩ := List.exists_cons_of_ne_nil given
    simp only [List.isPrefixOf, Bool.and_true, beq_iff_eq] at opened
    exact absurd (opened ▸ List.mem_cons_self) plain.2
  · rfl
  · have inner : (((('"' :: part.flatMap fun c => if c = '"' then ['"', '"'] else [c]) ++ ['"']).length : ℤ) - 2) =
        ((part.flatMap fun c => if c = '"' then ['"', '"'] else [c]).length : ℕ) := by
      simp
      omega
    rw [inner, SqlText.substr_two, List.cons_append, List.drop_one, List.tail_cons, List.take_left]
    exact SqlText.replace_undouble part
  · exact absurd rfl opened

theorem eval_quotedSql (expr : SqlExpr .text) : (quotedSql expr).eval row =
    '"' :: ((expr.eval row).flatMap fun c => if c = '"' then ['"', '"'] else [c]) ++ ['"'] := by
  rw [← SqlText.replace_double]
  rfl

theorem eval_keyQuotePartSql (expr : SqlExpr .text) : (keyQuotePartSql expr).eval row = quotePart (expr.eval row) := by
  have chosen : (keyQuotePartSql expr).eval row =
      if SqlText.contains (expr.eval row) ['.'] || SqlText.contains (expr.eval row) ['"'] then (quotedSql expr).eval row
      else expr.eval row := rfl
  rw [chosen, eval_quotedSql, SqlText.contains_char, SqlText.contains_char, quotePart]
  by_cases dots : '.' ∈ expr.eval row <;> by_cases quotes : '"' ∈ expr.eval row <;> simp [dots, quotes]

theorem eval_keyFromDisplaySql (expr : SqlExpr .text) : (keyFromDisplaySql expr).eval row = fromDisplay (expr.eval row) := by
  have chosen : (keyFromDisplaySql expr).eval row =
      if SqlText.contains (expr.eval row) ['"'] && !SqlText.contains (expr.eval row) ['.'] then (quotedSql expr).eval row
      else expr.eval row := rfl
  rw [chosen, eval_quotedSql, SqlText.contains_char, SqlText.contains_char, fromDisplay, quotePart]
  by_cases dots : '.' ∈ expr.eval row <;> by_cases quotes : '"' ∈ expr.eval row <;> simp [dots, quotes]

theorem eval_keyLeafSql {above : List Text} {last : Text} (name : IsName (above ++ [last]))
    (keyed : key.eval row = toKey (above ++ [last])) : (keyLeafSql key).eval row = quotePart last := by
  have extracted : (keyLeafSql key).eval row = KeyPattern.leaf.extract (key.eval row) := rfl
  rw [extracted, KeyPattern.extract_leaf, keyed, keyLeaf_toKey name]

theorem eval_keyTokensSql (name : IsName parts) (keyed : key.eval row = toKey parts) :
    (keyTokensSql key).eval row = parts.map quotePart := by
  have extracted : (keyTokensSql key).eval row = KeyPattern.token.extractAll (key.eval row) := rfl
  rw [extracted, keyed, KeyPattern.extractAll_token name]

theorem eval_keyPartsSql (name : IsName parts) (keyed : key.eval row = toKey parts) : (keyPartsSql key).eval row = parts := by
  have transformed : (keyPartsSql key).eval row = ((keyTokensSql key).eval row).map fun item =>
      (keyUnquoteSql (column "__acl_part".toList)).eval (Function.update row "__acl_part".toList item) := rfl
  rw [transformed, eval_keyTokensSql name keyed, List.map_map]
  conv_rhs => rw [← List.map_id parts]
  refine List.map_congr_left fun part member => ?_
  exact eval_keyUnquoteSql (name.2 part member) (Function.update_self ..)

private theorem key_above {above : List Text} {last : Text} (given : above ≠ []) :
    toKey (above ++ [last]) = toKey above ++ '.' :: quotePart last := by
  rw [toKey_append given (List.cons_ne_nil _ _), toKey_one]

/-- The last part as it is written is shorter than the key exactly when there is more before it. -/
private theorem leaf_shorter {above : List Text} {last : Text} :
    (quotePart last).length < (toKey (above ++ [last])).length ↔ above ≠ [] := by
  by_cases given : above = []
  · rw [given, List.nil_append, toKey_one]
    simp
  · rw [key_above given, List.length_append, List.length_cons]
    simp only [given, ne_eq, not_false_eq_true, iff_true]
    omega

theorem eval_keyNestedSql {above : List Text} {last : Text} (name : IsName (above ++ [last]))
    (keyed : key.eval row = toKey (above ++ [last])) : (keyNestedSql key).eval row = decide (above ≠ []) := by
  have compared : (keyNestedSql key).eval row =
      decide ((((keyLeafSql key).eval row).length : ℤ) < ((key.eval row).length : ℤ)) := rfl
  rw [compared, eval_keyLeafSql name keyed, keyed, Bool.eq_iff_iff, decide_eq_true_iff, decide_eq_true_iff, Int.ofNat_lt,
    leaf_shorter]

theorem eval_keyParentSql {above : List Text} {last : Text} (name : IsName (above ++ [last]))
    (keyed : key.eval row = toKey (above ++ [last])) : (keyParentSql key).eval row = toKey above := by
  have chosen : (keyParentSql key).eval row =
      if decide (((key.eval row).length : ℤ) ≤ ((keyLeafSql key).eval row).length) then []
      else SqlText.substr (key.eval row) 1 ((key.eval row).length - ((keyLeafSql key).eval row).length - 1) := rfl
  rw [chosen, eval_keyLeafSql name keyed, keyed]
  by_cases given : above = []
  · rw [given, List.nil_append, toKey_one]
    simp [toKey_nil]
  · have shorter : (quotePart last).length < (toKey (above ++ [last])).length := leaf_shorter.mpr given
    have before : (((toKey (above ++ [last])).length : ℤ) - (quotePart last).length - 1) = ((toKey above).length : ℕ) := by
      rw [key_above given, List.length_append, List.length_cons]
      push_cast
      omega
    rw [if_neg (by simpa using shorter), before, SqlText.substr_one, key_above given, List.take_left]

theorem eval_keyDisplaySql {above : List Text} {last : Text} (name : IsName (above ++ [last]))
    (keyed : key.eval row = toKey (above ++ [last])) : (keyDisplaySql key).eval row = display (key.eval row) := by
  have chosen : (keyDisplaySql key).eval row =
      if (keyNestedSql key).eval row || SqlText.contains ((keyUnquoteSql key).eval row) ['.'] then key.eval row
      else (keyUnquoteSql key).eval row := rfl
  rw [chosen, eval_keyNestedSql name keyed, SqlText.contains_char, display]
  cases above with
  | nil =>
    rw [List.nil_append] at name keyed
    have unquoted : (keyUnquoteSql key).eval row = last :=
      eval_keyUnquoteSql (name.2 last List.mem_cons_self) (keyed.trans (toKey_one last))
    rw [unquoted, keyed, fromKey_toKey name]
    by_cases dots : '.' ∈ last <;> simp [dots]
  | cons part above =>
    rw [if_pos (by simp), keyed, fromKey_toKey name]
    cases above <;> rfl

/-- The fragments on canonical keys compute what the functions do. The last part is answered as it is written in the
key, and one part alone is unquoted. -/
theorem key_fragments_agree {other : SqlExpr .text} (one : IsName parts) (keyed : key.eval row = toKey parts) :
    (keyFoldSql key).eval row = Text.fold (key.eval row) ∧
      (keyEqSql key other).eval row = keyEquals (key.eval row) (other.eval row) ∧
      (keyPrefixSql key other).eval row = keyUnder (key.eval row) (other.eval row) ∧
      (keyLeafSql key).eval row = quotePart (splitLeaf (key.eval row)).2 ∧
      (keyParentSql key).eval row = (splitLeaf (key.eval row)).1 ∧
      (keyNestedSql key).eval row = decide (1 < keySize (key.eval row)) ∧
      (keySize (key.eval row) = 1 → (keyUnquoteSql key).eval row = unquote (key.eval row)) ∧
      (keyDisplaySql key).eval row = display (key.eval row) ∧
      (∀ shown : SqlExpr .text, (keyFromDisplaySql shown).eval row = fromDisplay (shown.eval row)) ∧
      fromKey (key.eval row) = some ((keyPartsSql key).eval row) ∧
      (keyTokensSql key).eval row = ((keyPartsSql key).eval row).map quotePart ∧
      ∀ part : SqlExpr .text, (keyQuotePartSql part).eval row = quotePart (part.eval row) := by
  obtain ⟨above, last, rfl⟩ := List.eq_nil_or_concat' parts |>.resolve_left one.1
  have split : splitLeaf (toKey (above ++ [last])) = (toKey above, last) := by
    rw [splitLeaf_of_name one]
    simp
  have size : keySize (toKey (above ++ [last])) = above.length + 1 := by
    rw [keySize, fromKey_toKey one]
    simp
  refine ⟨eval_keyFoldSql key, eval_keyEqSql key other, eval_keyPrefixSql one keyed, ?_, ?_, ?_, ?_, eval_keyDisplaySql one keyed,
    eval_keyFromDisplaySql, ?_, ?_, eval_keyQuotePartSql⟩
  · rw [eval_keyLeafSql one keyed, keyed, split]
  · rw [eval_keyParentSql one keyed, keyed, split]
  · rw [eval_keyNestedSql one keyed, keyed, size]
    simp [List.length_pos_iff]
  · rw [keyed, size]
    intro single
    obtain rfl : above = [] := List.length_eq_zero_iff.mp (by omega)
    rw [List.nil_append] at one keyed ⊢
    rw [eval_keyUnquoteSql (one.2 last List.mem_cons_self) (keyed.trans (toKey_one last)), unquote, fromKey_toKey one]
  · rw [eval_keyPartsSql one keyed, keyed, fromKey_toKey one]
  · rw [eval_keyTokensSql one keyed, eval_keyPartsSql one keyed]

/-- A key of one dotted part, alone and before a plain part. -/
theorem key_fragments_agree_dotted :
    (keyLeafSql (literal "\"a.b\".c".toList)).eval (fun _ => []) = "c".toList ∧
      (keyParentSql (literal "\"a.b\".c".toList)).eval (fun _ => []) = "\"a.b\"".toList := by
  have name : IsName ["a.b".toList, "c".toList] := ⟨by decide, by decide⟩
  have keyed : toKey ["a.b".toList, "c".toList] = "\"a.b\".c".toList := by decide
  obtain ⟨-, -, -, leaf, parent, -⟩ := @key_fragments_agree (fun _ => []) (literal "\"a.b\".c".toList) _
    (literal "\"a.b\"".toList) name keyed.symm
  refine ⟨leaf.trans ?_, parent.trans ?_⟩ <;> decide

/-- The last part of a key is answered in its quotes, and a key of more parts is unquoted as if it were one. -/
theorem quoted_parts_differ :
    (keyLeafSql (literal "\"a.b\"".toList)).eval (fun _ => []) ≠ (splitLeaf "\"a.b\"".toList).2 ∧
      (keyUnquoteSql (literal "\"a.b\".c".toList)).eval (fun _ => []) ≠ unquote "\"a.b\".c".toList := by
  constructor <;> decide

end Evaluation

end DuckAcl
