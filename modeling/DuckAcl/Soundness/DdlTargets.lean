import DuckAcl.Library.Rankings
import DuckAcl.Model.DdlTargets
import Mathlib.Algebra.Group.Nat.Even

/-! # Where a CREATE or a DROP lands, over every order of the rows

The rows of `DdlTarget` are all of one schema path, up to case: the parent of the written name. So they
may come back in any order, and the first role that holds the capability and has somewhere to create
decides; the answer does not depend on the order exactly when such roles agree.
-/

namespace DuckAcl

namespace NamePath

/-! ## The part a cut leaves -/

private theorem count_doubled_even (part : Text) :
    Even ((part.flatMap fun c => if c = '"' then ['"', '"'] else [c]).count '"') := by
  induction part with
  | nil => simp
  | cons c part ih =>
    rw [List.flatMap_cons, List.count_append]
    by_cases quote : c = '"'
    · rw [if_pos quote]
      exact Even.add (by decide) ih
    · rw [if_neg quote, List.count_singleton, if_neg (by simpa using quote), Nat.zero_add]
      exact ih

/-- A cut at a dot leaves an even number of quotes before it. -/
private theorem count_cut_even {part before after : Text}
    (cut : (part.flatMap fun c => if c = '"' then ['"', '"'] else [c]) = before ++ '.' :: after) :
    Even (before.count '"') := by
  induction part generalizing before with
  | nil => simp at cut
  | cons c part ih =>
    rw [List.flatMap_cons] at cut
    by_cases quote : c = '"'
    · rw [if_pos quote] at cut
      rcases before with _ | ⟨first, _ | ⟨second, before⟩⟩
      · cases cut
      · cases cut
      · simp only [List.cons_append, List.nil_append, List.cons.injEq] at cut
        obtain ⟨rfl, rfl, later⟩ := cut
        rw [List.count_cons_self, List.count_cons_self]
        have inner := ih later
        grind
    · rw [if_neg quote, List.cons_append, List.nil_append] at cut
      cases before with
      | nil => simp
      | cons first before =>
        simp only [List.cons_append, List.cons.injEq] at cut
        obtain ⟨rfl, later⟩ := cut
        rw [List.count_cons_of_ne quote]
        exact ih later

theorem count_quotePart_even (part : Text) : Even ((quotePart part).count '"') := by
  unfold quotePart
  split_ifs with plain
  · rw [List.count_eq_zero_of_not_mem plain.2]
    exact Even.zero
  · rw [List.cons_append, List.count_cons_self, List.count_append]
    have inner := count_doubled_even part
    have last : List.count '"' ['"'] = 1 := by decide
    rw [last]
    grind

private theorem toKey_singleton (part : Text) : toKey [part] = quotePart part := by simp [toKey]

theorem toKey_two (part second : Text) (rest : List Text) :
    toKey (part :: second :: rest) = quotePart part ++ '.' :: toKey (second :: rest) := by
  have joined := toKey_append (List.cons_ne_nil part []) (List.cons_ne_nil second rest)
  rwa [toKey_singleton] at joined

theorem count_toKey_even (parts : List Text) : Even ((toKey parts).count '"') := by
  induction parts with
  | nil => exact ⟨0, rfl⟩
  | cons part rest ih =>
    cases rest with
    | nil => simpa [toKey_singleton] using count_quotePart_even part
    | cons second rest =>
      rw [toKey_two, List.count_append, List.count_cons_of_ne (by decide)]
      exact (count_quotePart_even part).add ih

/-- A part cut at a dot is quoted, and each side has an odd number of quotes. -/
private theorem count_part_odd {part before after : Text} (cut : quotePart part = before ++ '.' :: after) :
    Odd (after.count '"') := by
  unfold quotePart at cut
  split_ifs at cut with plain
  · exact absurd (show '.' ∈ part by rw [cut]; simp) plain.1
  · rw [List.cons_append] at cut
    cases before with
    | nil => cases cut
    | cons first before =>
      rw [List.cons_append, List.cons.injEq] at cut
      obtain ⟨middle, rfl⟩ : ∃ middle, after = middle ++ ['"'] := by
        have last : (before ++ '.' :: after).getLast? = some '"' := by rw [← cut.2]; simp
        rcases List.eq_nil_or_concat after with rfl | ⟨middle, c, rfl⟩
        · simp at last
        · rw [List.concat_eq_append] at last ⊢
          rw [← List.cons_append, ← List.append_assoc, List.getLast?_append] at last
          obtain rfl : c = '"' := by simpa using last
          exact ⟨middle, rfl⟩
      have inner : (part.flatMap fun c => if c = '"' then ['"', '"'] else [c]) = before ++ '.' :: middle := by
        have whole := cut.2
        rw [← List.cons_append, ← List.append_assoc] at whole
        exact List.append_cancel_right whole
      have left := count_cut_even inner
      have whole := count_doubled_even part
      rw [inner, List.count_append, List.count_cons_of_ne (by decide)] at whole
      have last : List.count '"' ['"'] = 1 := by decide
      rw [List.count_append, last]
      grind

private theorem closesQuote_odd {text : Text} (closes : closesQuote text = true) : Odd (text.count '"') := by
  induction text using closesQuote.induct with
  | case1 => cases closes
  | case2 => exact ⟨0, rfl⟩
  | case3 rest ih =>
    rw [closesQuote] at closes
    have inner := ih closes
    rw [List.count_cons_self, List.count_cons_self]
    grind
  | case4 => simp [closesQuote] at closes
  | case5 c rest _ _ other ih =>
    rw [List.count_cons_of_ne other]
    exact ih (by simpa [closesQuote, other] using closes)

/-- A quoted part that more follows does not close at the end. -/
private theorem closesQuote_doubled (part more : Text) :
    closesQuote (part.flatMap (fun c => if c = '"' then ['"', '"'] else [c]) ++ '"' :: '.' :: more) = false := by
  induction part with
  | nil => simp [closesQuote]
  | cons c part ih =>
    rw [List.flatMap_cons, List.append_assoc]
    by_cases quote : c = '"'
    · subst quote
      rw [if_pos rfl]
      exact ih
    · rw [if_neg quote, List.cons_append, List.nil_append, closesQuote] <;> simp_all

theorem isLeafForm_iff (text : Text) :
    isLeafForm text = true ↔ (∃ rest, text = '"' :: rest ∧ closesQuote rest = true) ∨ ('.' ∉ text ∧ '"' ∉ text) := by
  unfold isLeafForm
  rw [Bool.or_eq_true, decide_eq_true_iff]
  refine or_congr_left ?_
  split
  · simp
  · next other => simp only [Bool.false_eq_true, false_iff, not_exists, not_and]; exact fun rest same => absurd same (other rest)

private theorem isLeafForm_even {text : Text} (leaf : isLeafForm text = true) : Even (text.count '"') := by
  rcases (isLeafForm_iff text).mp leaf with ⟨rest, rfl, closes⟩ | ⟨_, quotes⟩
  · rw [List.count_cons_self]
    exact (closesQuote_odd closes).add_one
  · rw [List.count_eq_zero_of_not_mem quotes]
    exact Even.zero

/-- Two parts are not one. -/
theorem isLeafForm_two {part : Text} (given : part ≠ []) (more : Text) :
    isLeafForm (quotePart part ++ '.' :: more) = false := by
  rw [Bool.eq_false_iff, Ne, isLeafForm_iff]
  rintro (⟨rest, opened, closes⟩ | ⟨dots, _⟩)
  · unfold quotePart at opened
    split_ifs at opened with plain
    · obtain ⟨first, others, rfl⟩ := List.exists_cons_of_ne_nil given
      rw [List.cons_append, List.cons.injEq] at opened
      exact plain.2 (by simp [opened.1])
    · rw [List.cons_append, List.cons_append, List.append_assoc, List.cons.injEq] at opened
      rw [← opened.2, List.cons_append, List.nil_append, closesQuote_doubled] at closes
      cases closes
  · exact dots (by simp)

/-- A tail of a key that is one part is its last part. -/
theorem leaf_of_cut {parts : List Text} (name : IsName parts) {before tail : Text} (cut : toKey parts = before ++ '.' :: tail)
    (leaf : isLeafForm tail = true) : ∃ above last, parts = above ++ [last] ∧ above ≠ [] ∧ before = toKey above := by
  have even := isLeafForm_even leaf
  induction parts generalizing before with
  | nil => exact absurd rfl name.1
  | cons part rest ih =>
    cases rest with
    | nil =>
      rw [toKey_singleton] at cut
      exact absurd even (Nat.not_even_iff_odd.mpr (count_part_odd cut))
    | cons second rest =>
      have later : IsName (second :: rest) := ⟨by simp, fun part member => name.2 part (List.mem_cons_of_mem _ member)⟩
      rw [toKey_two] at cut
      rcases List.append_eq_append_iff.mp cut with ⟨more, rfl, split⟩ | ⟨more, within, split⟩
      · cases more with
        | nil =>
          obtain ⟨-, rfl⟩ := List.cons.inj split
          cases rest with
          | nil => exact ⟨[part], second, rfl, by simp, by rw [toKey_singleton, List.append_nil]⟩
          | cons third rest =>
            rw [toKey_two, isLeafForm_two (later.2 second List.mem_cons_self)] at leaf
            cases leaf
        | cons dot more =>
          rw [List.cons_append, List.cons.injEq] at split
          obtain ⟨rfl, inner⟩ := split
          obtain ⟨above, last, parts_eq, given, rfl⟩ := ih later inner
          obtain ⟨first, others, rfl⟩ := List.exists_cons_of_ne_nil given
          exact ⟨part :: first :: others, last, by rw [parts_eq]; rfl, by simp, by rw [toKey_two]⟩
      · cases more with
        | nil =>
          obtain ⟨-, rfl⟩ := List.cons.inj split
          rw [List.append_nil] at within
          cases rest with
          | nil => exact ⟨[part], second, rfl, by simp, by rw [toKey_singleton, within]⟩
          | cons third rest =>
            rw [toKey_two, isLeafForm_two (later.2 second List.mem_cons_self)] at leaf
            cases leaf
        | cons dot more =>
          rw [List.cons_append, List.cons.injEq] at split
          obtain ⟨rfl, rfl⟩ := split
          have odd := count_part_odd within
          have rest_even := count_toKey_even (second :: rest)
          rw [List.count_append, List.count_cons_of_ne (by decide)] at even
          exact absurd even (Nat.not_even_iff_odd.mpr (odd.add_even rest_even))

private theorem leafAfterDot_lt {key : Text} (given : key ≠ []) : (leafAfterDot key).length < key.length := by
  induction key with
  | nil => exact absurd rfl given
  | cons c rest ih =>
    rw [leafAfterDot]
    split_ifs
    · simp
    · cases rest with
      | nil => simp [leafAfterDot]
      | cons d rest => exact (ih (by simp)).trans (by simp)

/-- A key without more than one part is in the form of one. -/
theorem isLeafForm_of_not_nested {key : Text} (plain : keyNested key = false) : isLeafForm key = true := by
  by_contra other
  have given : key ≠ [] := by
    rintro rfl
    exact other (by decide)
  have shorter := leafAfterDot_lt given
  rw [keyNested, keyLeaf, if_neg other, decide_eq_false_iff_not] at plain
  exact plain shorter

/-- A schema under which a name has one part left is the name's parent, up to case. -/
theorem parent_of_prefix {parts : List Text} (name : IsName parts) {path : Text}
    (fits : PolicyTables.prefixOf (toKey parts) path = true) :
    ∃ above last, parts = above ++ [last] ∧ above ≠ [] ∧ Text.ciEquals path (toKey above) = true := by
  rw [PolicyTables.prefixOf, Bool.and_eq_true, Bool.not_eq_true', Text.isUnder, Text.ciEquals_iff] at fits
  obtain ⟨starts, plain⟩ := fits
  rw [Text.fold, Text.fold, List.map_append] at starts
  obtain ⟨before, dot, split, same, last⟩ := List.map_eq_append_iff.mp starts
  obtain ⟨c, rfl⟩ : ∃ c, dot = [c] := by
    rcases dot with _ | ⟨c, _ | ⟨d, more⟩⟩
    · cases last
    · exact ⟨c, rfl⟩
    · simp at last
  obtain rfl : c = '.' := (Text.toLower_eq_iff (by decide)).mp (by simpa using last)
  have cut : toKey parts = before ++ '.' :: (toKey parts).drop (path.length + 1) := by
    conv_lhs => rw [← List.take_append_drop (path.length + 1) (toKey parts), split]
    simp
  obtain ⟨above, leaf, parts_eq, given, rfl⟩ := leaf_of_cut name cut (isLeafForm_of_not_nested plain)
  exact ⟨above, leaf, parts_eq, given, Text.ciEquals_iff.mpr same.symm⟩

theorem splitLeaf_toKey {above : List Text} {leaf : Text} (name : IsName (above ++ [leaf])) :
    (splitLeaf (toKey (above ++ [leaf]))).2 = leaf := by
  rw [splitLeaf, fromKey_toKey name]
  simp

theorem splitHeadKey_toKey {parts : List Text} (name : IsName parts) :
    splitHeadKey (toKey parts) = ([], []) ∨
      ∃ head rest, parts = head :: rest ∧ IsName rest ∧ splitHeadKey (toKey parts) = (quotePart head, toKey rest) := by
  rw [splitHeadKey, fromKey_toKey name]
  rcases parts with _ | ⟨head, _ | ⟨second, rest⟩⟩
  · exact .inl rfl
  · exact .inl rfl
  · exact .inr ⟨head, second :: rest, rfl, ⟨by simp, fun part member => name.2 part (List.mem_cons_of_mem _ member)⟩, rfl⟩

end NamePath

/-! ## The rows of the query -/

/-- What a row says of where it comes from. -/
structure DdlRow.Source (store : PolicyTables) (roles : List Text) (vname : Text) (row : DdlRow) : Prop where
  catalog : row.qualified = true → Text.ciEquals row.vcat (NamePath.splitHeadKey vname).1 = true ∧
    (NamePath.splitHeadKey vname).1 ≠ [] ∧ PolicyTables.prefixOf (NamePath.splitHeadKey vname).2 row.path = true
  main : row.unqualified = true → PolicyTables.prefixOf vname row.path = true
  granted : ∃ role ∈ roles, ∃ capsRow ∈ store.rows .roleSchemas, capsRow.is .role role = true ∧
    capsRow.is .vcat row.vcat = true ∧ capsRow.is .schemaPath row.path = true ∧ row.caps = PolicyTables.textOf .caps capsRow

namespace PolicyTables

theorem source_of_mem {store : PolicyTables} {roles : List Text} {vname : Text} {row : DdlRow}
    (member : row ∈ store.ddlRows roles vname) : row.Source store roles vname := by
  obtain ⟨schema, _, inside⟩ := List.mem_flatMap.mp member
  obtain ⟨grant, granted, inside⟩ := List.mem_flatMap.mp inside
  obtain ⟨capsRow, held, made⟩ := List.mem_filterMap.mp inside
  obtain ⟨role, asked, named⟩ := List.any_eq_true.mp (List.mem_filter.mp granted).2
  rw [ddlRow] at made
  cases vcat : textOf .vcat schema with
  | none => simp [vcat] at made
  | some vcatText =>
    cases path : textOf .path schema with
    | none => simp [vcat, path] at made
    | some pathText =>
      simp only [vcat, path] at made
      split at made
      · next joined =>
        cases made
        simp only [Bool.and_eq_true, decide_eq_true_eq] at joined
        refine ⟨fun fits => ?_, fun fits => ?_, role, asked, capsRow, held, ?_, joined.1.1.1.2, joined.1.1.2, rfl⟩
        · simp only [Bool.and_eq_true, decide_eq_true_eq] at fits
          exact ⟨fits.2.1, fits.1, fits.2.2⟩
        · simp only [Bool.and_eq_true] at fits
          exact fits.2
        · rw [Row.is, ← joined.1.2]
          exact named
      · cases made

end PolicyTables

/-! ## The answer -/

variable (store : PolicyTables) (engine : PolicyEngine) (roles : List Text) (vname capability : Text)

/-- An order the rows of the query may come back in. -/
abbrev DdlRow.Returned (order : List DdlRow) : Prop :=
  Rankings.Ranking (fun row : DdlRow => row.path.length) (store.ddlRows roles vname) order

/-- What a statement lands on: nothing where it is refused, and nothing granted where there is no home. -/
def landing (rows : List DdlRow) : Option (Option Landing) :=
  (ddlTarget engine vname capability rows).toOption.map (Option.map DdlTarget.toLanding)

/-- The name fits as a path of the MAIN catalog, and behind a catalog's name. -/
def bothReadings (rows : List DdlRow) : Bool := rows.any DdlRow.qualified && rows.any DdlRow.unqualified

/-- The row is one of the reading that is chosen. -/
def DdlRow.fits (rows : List DdlRow) (row : DdlRow) : Bool :=
  if rows.any DdlRow.qualified then row.qualified else row.unqualified

/-- What a row of the chosen reading decides: a refusal where its capabilities cannot be read. -/
def DdlRow.decides (rows : List DdlRow) (row : DdlRow) : Option (Option Landing) :=
  if row.fits rows then
    (row.answer engine capability (chosenName vname rows)).map fun answer => answer.toOption.map DdlTarget.toLanding
  else none

/-- The object's own parent schema, on which a role of the principal holds the capability. -/
structure HomeOf (parts : List Text) (home : Landing) : Prop where
  parent : ∃ above leaf, (above ++ [leaf] = parts ∨ ∃ head, head :: (above ++ [leaf]) = parts ∧
      Text.ciEquals home.vcat (NamePath.quotePart head) = true) ∧
    above ≠ [] ∧ Text.ciEquals home.schemaPath (NamePath.toKey above) = true ∧
    home.vname = NamePath.childKey home.schemaPath leaf
  held : ∃ role ∈ roles, ∃ capsRow ∈ store.rows .roleSchemas, capsRow.is .role role = true ∧
    capsRow.is .vcat home.vcat = true ∧ capsRow.is .schemaPath home.schemaPath = true ∧
    ∃ caps, engine.effectiveCaps (PolicyTables.textOf .caps capsRow) = .ok caps ∧ ciContains caps capability = true

/-- The roles that decide agree: the rows of the chosen reading that hold the capability and have somewhere
to create say one home, and none of the rows that have a say is refused unless all are. -/
def RolesAgree : Prop :=
  ∀ row ∈ store.ddlRows roles vname, ∀ other ∈ store.ddlRows roles vname, ∀ one two,
    row.decides engine vname capability (store.ddlRows roles vname) = some one →
    other.decides engine vname capability (store.ddlRows roles vname) = some two → one = two

variable {store engine roles vname capability}

private theorem findSome?_filter_if {α β : Type} (keep : α → Bool) (verdict : α → Option β) (items : List α) :
    (items.filter keep).findSome? verdict = items.findSome? fun item => if keep item then verdict item else none := by
  induction items with
  | nil => rfl
  | cons item items ih =>
    rw [List.findSome?_cons]
    by_cases kept : keep item = true
    · rw [List.filter_cons_of_pos kept, List.findSome?_cons, if_pos kept, ih]
    · rw [List.filter_cons_of_neg kept, if_neg kept, ih]

private theorem chosenRows_eq (rows : List DdlRow) : chosenRows rows = rows.filter (·.fits rows) := by
  unfold chosenRows DdlRow.fits
  split_ifs <;> rfl

/-- What a statement lands on, from what the first row decides. -/
private def settle (both any : Bool) : Option (Option Landing) → Option (Option Landing)
  | some decided => if both then none else decided.map some
  | none => if both || any then none else some none

/-- The answer is the first decision of a row, over any order. -/
private theorem landing_eq (rows : List DdlRow) :
    landing engine vname capability rows =
      settle (bothReadings rows) (rows.any (·.fits rows)) (rows.findSome? (DdlRow.decides engine vname capability rows)) := by
  have first : rows.findSome? (DdlRow.decides engine vname capability rows) =
      ((chosenRows rows).findSome? (DdlRow.answer engine capability (chosenName vname rows))).map
        fun answer => answer.toOption.map DdlTarget.toLanding := by
    rw [chosenRows_eq, List.map_findSome?, findSome?_filter_if]
    rfl
  unfold landing ddlTarget bothReadings
  by_cases both : (rows.any DdlRow.qualified && rows.any DdlRow.unqualified) = true
  · rw [if_pos both, both]
    cases rows.findSome? (DdlRow.decides engine vname capability rows) <;> rfl
  · rw [if_neg both, Bool.eq_false_iff.mpr both, first]
    cases found : (chosenRows rows).findSome? (DdlRow.answer engine capability (chosenName vname rows)) with
    | some answer =>
      cases answer <;> rfl
    | none =>
      have any_iff : rows.any (·.fits rows) = !(chosenRows rows).isEmpty := by
        rw [chosenRows_eq, Bool.eq_iff_iff]
        simp [List.filter_eq_nil_iff]
      rw [any_iff]
      cases chosenRows rows <;> rfl

private theorem settle_some_inj {both any : Bool} (single : both = false) {one two : Option Landing}
    (same : settle both any (some one) = settle both any (some two)) : one = two := by
  subst single
  cases one <;> cases two <;> simp_all [settle]

variable {order : List DdlRow}

private theorem any_perm {rows : List DdlRow} (perm : order.Perm rows) (test : DdlRow → Bool) :
    order.any test = rows.any test := by
  rw [Bool.eq_iff_iff, List.any_eq_true, List.any_eq_true]
  exact exists_congr fun row => and_congr_left fun _ => perm.mem_iff

private theorem fits_perm {rows : List DdlRow} (perm : order.Perm rows) (row : DdlRow) : row.fits order = row.fits rows := by
  rw [DdlRow.fits, DdlRow.fits, any_perm perm]

/-- Over an order of the rows, the readings are those of the rows. -/
private theorem landing_of_perm {rows : List DdlRow} (perm : order.Perm rows) :
    landing engine vname capability order =
      settle (bothReadings rows) (rows.any (·.fits rows)) (order.findSome? (DdlRow.decides engine vname capability rows)) := by
  have decides : DdlRow.decides engine vname capability order = DdlRow.decides engine vname capability rows := by
    funext row
    rw [DdlRow.decides, DdlRow.decides, fits_perm perm, chosenName, chosenName, any_perm perm]
  have fits : (fun row : DdlRow => row.fits order) = fun row => row.fits rows := funext (fits_perm perm)
  rw [landing_eq, decides, fits, any_perm perm, bothReadings, bothReadings, any_perm perm, any_perm perm]

/-- The parts of the name as the chosen reading has it. -/
private def chosenParts (parts : List Text) (rows : List DdlRow) : List Text :=
  if rows.any DdlRow.qualified then parts.tail else parts

variable {parts : List Text}

/-- A row of the chosen reading is of the parent of the name. -/
private theorem fits_parent (name : NamePath.IsName parts) {row : DdlRow}
    (member : row ∈ store.ddlRows roles (NamePath.toKey parts))
    (fits : row.fits (store.ddlRows roles (NamePath.toKey parts)) = true) :
    ∃ above leaf, above ++ [leaf] = chosenParts parts (store.ddlRows roles (NamePath.toKey parts)) ∧ above ≠ [] ∧
      Text.ciEquals row.path (NamePath.toKey above) = true ∧
      (NamePath.splitLeaf (chosenName (NamePath.toKey parts) (store.ddlRows roles (NamePath.toKey parts)))).2 = leaf ∧
      (above ++ [leaf] = parts ∨ ∃ head, head :: (above ++ [leaf]) = parts ∧
        Text.ciEquals row.vcat (NamePath.quotePart head) = true) := by
  have source := PolicyTables.source_of_mem member
  generalize store.ddlRows roles (NamePath.toKey parts) = rows at fits ⊢
  rw [DdlRow.fits] at fits
  unfold chosenParts chosenName
  by_cases qualified : rows.any DdlRow.qualified = true
  · rw [if_pos qualified] at fits ⊢
    obtain ⟨catalog, given, under⟩ := source.catalog fits
    rcases NamePath.splitHeadKey_toKey name with alone | ⟨head, rest, rfl, later, split⟩
    · rw [alone] at given
      exact absurd rfl given
    · rw [split] at catalog under
      obtain ⟨above, leaf, rfl, some, same⟩ := NamePath.parent_of_prefix later under
      refine ⟨above, leaf, rfl, some, same, ?_, .inr ⟨head, rfl, catalog⟩⟩
      rw [if_pos qualified, split]
      exact NamePath.splitLeaf_toKey later
  · rw [if_neg qualified] at fits ⊢
    obtain ⟨above, leaf, rfl, some, same⟩ := NamePath.parent_of_prefix name (source.main fits)
    refine ⟨above, leaf, rfl, some, same, ?_, .inl rfl⟩
    rw [if_neg qualified]
    exact NamePath.splitLeaf_toKey name

/-- The rows of the chosen reading are of one path, up to case. -/
private theorem fits_length (name : NamePath.IsName parts) {row other : DdlRow}
    (member : row ∈ store.ddlRows roles (NamePath.toKey parts)) (member' : other ∈ store.ddlRows roles (NamePath.toKey parts))
    (fits : row.fits (store.ddlRows roles (NamePath.toKey parts)) = true)
    (fits' : other.fits (store.ddlRows roles (NamePath.toKey parts)) = true) : row.path.length = other.path.length := by
  obtain ⟨above, leaf, split, _, same, _⟩ := fits_parent name member fits
  obtain ⟨above', leaf', split', _, same', _⟩ := fits_parent name member' fits'
  obtain ⟨rfl, -⟩ := List.append_inj' (split.trans split'.symm) rfl
  rw [← Text.length_fold row.path, ← Text.length_fold other.path, Text.ciEquals_iff.mp same, Text.ciEquals_iff.mp same']

theorem DdlRow.fits_of_decides {rows : List DdlRow} {row : DdlRow}
    (decides : row.decides engine vname capability rows ≠ none) : row.fits rows = true := by
  by_contra other
  rw [DdlRow.decides, if_neg other] at decides
  exact decides rfl

theorem DdlRow.answer_ok {row : DdlRow} {objectName : Text} {target : DdlTarget}
    (answered : row.answer engine capability objectName = some (.ok target)) :
    target = row.target objectName ∧ ∃ caps, engine.effectiveCaps row.caps = .ok caps ∧ ciContains caps capability = true := by
  rw [DdlRow.answer] at answered
  cases read : engine.effectiveCaps row.caps with
  | error refused => simp [read] at answered
  | ok caps =>
    simp only [read] at answered
    split_ifs at answered with without nowhere
    · exact ⟨(Except.ok.inj (Option.some.inj answered)).symm, caps, rfl, by simpa using without⟩

/-- A home is the parent schema, of a role that holds the capability there. -/
theorem homeOf_target (name : NamePath.IsName parts) (returned : DdlRow.Returned store roles (NamePath.toKey parts) order)
    {target : DdlTarget} (answered : ddlTarget engine (NamePath.toKey parts) capability order = .ok (some target)) :
    HomeOf store engine roles capability parts target.toLanding := by
  rw [ddlTarget] at answered
  split at answered
  · cases answered
  · cases found : (chosenRows order).findSome? (DdlRow.answer engine capability (chosenName (NamePath.toKey parts) order)) with
    | none =>
      rw [found] at answered
      cases chosen : chosenRows order <;> simp [chosen] at answered
    | some answer =>
      rw [found] at answered
      obtain ⟨row, member, told⟩ := List.exists_of_findSome?_eq_some found
      cases answer with
      | error refused => cases answered
      | ok landed =>
        obtain rfl : landed = target := by simpa using answered
        obtain ⟨rfl, caps, read, held⟩ := DdlRow.answer_ok told
        rw [chosenRows_eq, List.mem_filter] at member
        have inside := returned.perm.mem_iff.mp member.1
        have fits := member.2
        rw [fits_perm returned.perm] at fits
        have chosen : chosenName (NamePath.toKey parts) order =
            chosenName (NamePath.toKey parts) (store.ddlRows roles (NamePath.toKey parts)) := by
          rw [chosenName, chosenName, any_perm returned.perm]
        obtain ⟨above, leaf, _, given, same, named, reading⟩ := fits_parent name inside fits
        obtain ⟨role, asked, capsRow, stored, hasRole, hasCatalog, hasPath, hasCaps⟩ := (PolicyTables.source_of_mem inside).granted
        refine ⟨⟨above, leaf, reading, given, same, ?_⟩, role, asked, capsRow, stored, hasRole, hasCatalog, hasPath, caps, ?_, held⟩
        · rw [← named, ← chosen]
          rfl
        · rw [← hasCaps]
          exact read

/-- Where a statement lands is the same for every order the rows come back in, and is the parent schema of
the name on which some role holds the capability, exactly when the name has both readings or the roles that
decide agree. -/
theorem ddl_lands_alike_iff (store : PolicyTables) (engine : PolicyEngine) (roles : List Text) (capability : Text)
    {parts : List Text} (name : NamePath.IsName parts) :
    ((∀ order order', DdlRow.Returned store roles (NamePath.toKey parts) order →
          DdlRow.Returned store roles (NamePath.toKey parts) order' →
          landing engine (NamePath.toKey parts) capability order = landing engine (NamePath.toKey parts) capability order') ∧
        ∀ order, DdlRow.Returned store roles (NamePath.toKey parts) order → ∀ target,
          ddlTarget engine (NamePath.toKey parts) capability order = .ok (some target) →
            HomeOf store engine roles capability parts target.toLanding) ↔
      bothReadings (store.ddlRows roles (NamePath.toKey parts)) = true ∨
        RolesAgree store engine roles (NamePath.toKey parts) capability := by
  have homes : ∀ order, DdlRow.Returned store roles (NamePath.toKey parts) order → ∀ target,
      ddlTarget engine (NamePath.toKey parts) capability order = .ok (some target) →
        HomeOf store engine roles capability parts target.toLanding :=
    fun order returned target answered => homeOf_target name returned answered
  rw [and_iff_left homes]
  constructor
  · intro alike
    by_cases both : bothReadings (store.ddlRows roles (NamePath.toKey parts)) = true
    · exact .inl both
    · refine .inr fun row member other member' one two decided decided' => ?_
      rw [Bool.not_eq_true] at both
      have foremost {row : DdlRow} (member : row ∈ store.ddlRows roles (NamePath.toKey parts)) {value : Option Landing}
          (decided : row.decides engine (NamePath.toKey parts) capability (store.ddlRows roles (NamePath.toKey parts)) =
            some value) : Rankings.Foremost (fun row : DdlRow => row.path.length)
          (DdlRow.decides engine (NamePath.toKey parts) capability (store.ddlRows roles (NamePath.toKey parts)))
          (store.ddlRows roles (NamePath.toKey parts)) row :=
        ⟨member, by simp [decided], fun other member' decides' => (fits_length name member' member
          (DdlRow.fits_of_decides decides') (DdlRow.fits_of_decides (by rw [decided]; simp))).le⟩
      obtain ⟨order, returned, first⟩ := (foremost member decided).exists_order
      obtain ⟨order', returned', first'⟩ := (foremost member' decided').exists_order
      have same := alike order order' returned returned'
      rw [landing_of_perm returned.perm, landing_of_perm returned'.perm, first, first', decided, decided'] at same
      exact settle_some_inj both same
  · rintro (both | agree) order order' returned returned'
    · rw [landing_of_perm returned.perm, landing_of_perm returned'.perm, both]
      cases order.findSome? _ <;> cases order'.findSome? _ <;> rfl
    · have agreed : ∀ row other,
          Rankings.Foremost (fun row : DdlRow => row.path.length)
            (DdlRow.decides engine (NamePath.toKey parts) capability (store.ddlRows roles (NamePath.toKey parts)))
            (store.ddlRows roles (NamePath.toKey parts)) row →
          Rankings.Foremost (fun row : DdlRow => row.path.length)
            (DdlRow.decides engine (NamePath.toKey parts) capability (store.ddlRows roles (NamePath.toKey parts)))
            (store.ddlRows roles (NamePath.toKey parts)) other →
          row.decides engine (NamePath.toKey parts) capability (store.ddlRows roles (NamePath.toKey parts)) =
            other.decides engine (NamePath.toKey parts) capability (store.ddlRows roles (NamePath.toKey parts)) := by
        intro row other foremost foremost'
        obtain ⟨one, decided⟩ := Option.ne_none_iff_exists'.mp foremost.decides
        obtain ⟨two, decided'⟩ := Option.ne_none_iff_exists'.mp foremost'.decides
        rw [decided, decided', agree row foremost.member other foremost'.member one two decided decided']
      rw [landing_of_perm returned.perm, landing_of_perm returned'.perm,
        Rankings.first_agrees_iff.mpr agreed order order' returned returned']

/-- A schema of the catalog `c`, and two roles that hold `create` on it and create in schemas of their own. -/
def twoCreators : PolicyTables := .of [
  (.schemas, [(.vcat, .text "c".toList), (.path, .text "s".toList), (.physPath, .text "db.s".toList)]),
  (.roleCatalogs, [(.role, .text "r".toList), (.vcat, .text "c".toList), (.isMain, .boolean false)]),
  (.roleCatalogs, [(.role, .text "q".toList), (.vcat, .text "c".toList), (.isMain, .boolean false)]),
  (.roleSchemas, [(.role, .text "r".toList), (.vcat, .text "c".toList), (.schemaPath, .text "s".toList),
    (.caps, .text "create".toList), (.into, .text "db.one".toList)]),
  (.roleSchemas, [(.role, .text "q".toList), (.vcat, .text "c".toList), (.schemaPath, .text "s".toList),
    (.caps, .text "create".toList), (.into, .text "db.two".toList)])]

/-- A reader of capabilities written as one name. -/
def nameReader : PolicyEngine where
  relations _ _ _ _ := []
  aliases _ _ _ _ := []
  functions _ _ _ _ _ := []
  storedExpressionsOk _ := true
  parseCaps text := .ok [text]

theorem ddl_lands_alike_example :
    (∀ order order',
        DdlRow.Returned twoCreators ["r".toList] (NamePath.toKey ["c".toList, "s".toList, "t".toList]) order →
        DdlRow.Returned twoCreators ["r".toList] (NamePath.toKey ["c".toList, "s".toList, "t".toList]) order' →
          landing nameReader (NamePath.toKey ["c".toList, "s".toList, "t".toList]) "create".toList order =
            landing nameReader (NamePath.toKey ["c".toList, "s".toList, "t".toList]) "create".toList order') ∧
      ∀ order, DdlRow.Returned twoCreators ["r".toList] (NamePath.toKey ["c".toList, "s".toList, "t".toList]) order →
        ∀ target, ddlTarget nameReader (NamePath.toKey ["c".toList, "s".toList, "t".toList]) "create".toList order =
            .ok (some target) →
          HomeOf twoCreators nameReader ["r".toList] "create".toList ["c".toList, "s".toList, "t".toList]
            target.toLanding := by
  refine (ddl_lands_alike_iff twoCreators nameReader ["r".toList] "create".toList ⟨by simp, by simp⟩).mpr (.inr ?_)
  intro row member other member' one two decided decided'
  obtain ⟨only, alone⟩ := List.length_eq_one_iff.mp (show (twoCreators.ddlRows ["r".toList]
    (NamePath.toKey ["c".toList, "s".toList, "t".toList])).length = 1 by decide)
  rw [alone] at member member'
  rw [List.mem_singleton.mp member, ← List.mem_singleton.mp member', decided'] at decided
  exact (Option.some.inj decided).symm

/-- The role whose row comes first decides where the object is created. -/
theorem ddl_lands_by_order : ∃ order order',
    DdlRow.Returned twoCreators ["r".toList, "q".toList] "c.s.t".toList order ∧
      DdlRow.Returned twoCreators ["r".toList, "q".toList] "c.s.t".toList order' ∧
      (landing nameReader "c.s.t".toList "create".toList order).map (Option.map Landing.physSchema) =
        some (some "db.one".toList) ∧
      (landing nameReader "c.s.t".toList "create".toList order').map (Option.map Landing.physSchema) =
        some (some "db.two".toList) := by
  refine ⟨_, _, ⟨List.Perm.refl _, ?_⟩, ⟨List.reverse_perm _, ?_⟩, ?_, ?_⟩ <;> decide

end DuckAcl
