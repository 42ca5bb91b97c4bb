import DuckAcl.Library.Text

/-! # Name paths

A stored name is a key: its parts joined by dots, a part quoted when it holds a dot or a quote
(`acl_name_path.hpp`).
-/

namespace DuckAcl

namespace NamePath

/-- `QuotePart`: a part as it is written in a key. -/
def quotePart (part : Text) : Text :=
  if '.' ∉ part ∧ '"' ∉ part then part
  else '"' :: part.flatMap (fun c => if c = '"' then ['"', '"'] else [c]) ++ ['"']

/-- A quoted part, from after its opening quote: the part, and what follows its closing quote. -/
def readQuoted : Text → Option (Text × Text)
  | [] => none
  | '"' :: '"' :: rest => (readQuoted rest).map fun (part, after) => ('"' :: part, after)
  | '"' :: rest => some ([], rest)
  | c :: rest => (readQuoted rest).map fun (part, after) => (c :: part, after)

/-- An unquoted part: up to the next dot, with no quote in it. -/
def readPlain : Text → Option (Text × Text)
  | [] => some ([], [])
  | '.' :: rest => some ([], '.' :: rest)
  | '"' :: _ => none
  | c :: rest => (readPlain rest).map fun (part, after) => (c :: part, after)

/-- One part: quoted or not, never empty, and followed by a dot or the end. -/
def readPart (text : Text) : Option (Text × Text) :=
  let read := match text with
    | '"' :: rest => readQuoted rest
    | text => readPlain text
  match read with
  | some ([], _) => none
  | some (part, []) => some (part, [])
  | some (part, '.' :: rest) => some (part, '.' :: rest)
  | _ => none

/-- The loop of `TryFromKey`; each part takes a character at least. -/
def readParts : ℕ → Text → Option (List Text)
  | 0, _ => none
  | more + 1, text =>
    match readPart text with
    | none => none
    | some (part, []) => some [part]
    | some (_, ['.']) => none
    | some (part, _ :: rest) => (readParts more rest).map (part :: ·)

/-- `TryFromKey`: the parts of a key; text that is no key has none. -/
def fromKey (key : Text) : Option (List Text) :=
  if key = [] then none else readParts key.length key

/-- `ToKey`. -/
def toKey (parts : List Text) : Text :=
  ['.'].intercalate (parts.map quotePart)

/-- `ChildKey`: a key and one raw part. -/
def childKey (parent part : Text) : Text :=
  if parent = [] then quotePart part else parent ++ '.' :: quotePart part

/-- `SplitLeaf`: the key of everything before the last part, and the raw last part. -/
def splitLeaf (key : Text) : Text × Text :=
  match fromKey key with
  | none => ([], key)
  | some parts => (toKey parts.dropLast, parts.getLastD [])

/-- `JoinKeys`. -/
def joinKeys (prior tail : Text) : Text :=
  if prior = [] then tail else if tail = [] then prior else prior ++ '.' :: tail

/-- `SplitHeadKey`: the first part and the rest, both as keys; both empty for a key of one part. -/
def splitHeadKey (key : Text) : Text × Text :=
  match fromKey key with
  | some (head :: second :: rest) => (quotePart head, toKey (second :: rest))
  | _ => ([], [])

/-- `KeySize`. -/
def keySize (key : Text) : ℕ :=
  match fromKey key with
  | some parts => parts.length
  | none => 0

example : fromKey "a.\"b.c\"".toList = some ["a".toList, "b.c".toList] := by decide

example : splitLeaf "staff.\"x.y\"".toList = ("staff".toList, "x.y".toList) := by decide

/-! ## Case

Folding a key folds its parts: no letter is a dot or a quote. -/

private theorem toLower_dot {c : Char} : c.toLower = '.' ↔ c = '.' := Text.toLower_eq_iff (by decide)

private theorem toLower_quote {c : Char} : c.toLower = '"' ↔ c = '"' := Text.toLower_eq_iff (by decide)

private theorem readQuoted_other {c : Char} (other : c ≠ '"') (rest : Text) :
    readQuoted (c :: rest) = (readQuoted rest).map fun read => (c :: read.1, read.2) := by
  rw [readQuoted]
  · intro _ quote
    exact absurd quote other
  · exact other

private theorem readQuoted_fold (text : Text) :
    readQuoted (Text.fold text) = (readQuoted text).map fun read => (Text.fold read.1, Text.fold read.2) := by
  induction text using readQuoted.induct with
  | case1 => rfl
  | case2 rest ih =>
    show readQuoted ('"' :: '"' :: Text.fold rest) = _
    rw [readQuoted, readQuoted, ih]
    cases readQuoted rest <;> rfl
  | case3 rest closed =>
    have closed' : ∀ after, Text.fold rest = '"' :: after → False := by
      intro after starts
      cases rest with
      | nil => cases starts
      | cons c rest =>
        simp only [Text.fold, List.map_cons, List.cons.injEq, toLower_quote] at starts
        exact closed rest (by rw [starts.1])
    show readQuoted ('"' :: Text.fold rest) = _
    rw [readQuoted.eq_3 _ closed', readQuoted.eq_3 _ closed]
    rfl
  | case4 c rest _ unquoted ih =>
    have unquoted' : c.toLower ≠ '"' := fun quote => unquoted (toLower_quote.mp quote)
    show readQuoted (c.toLower :: Text.fold rest) = _
    rw [readQuoted_other unquoted, readQuoted_other unquoted', ih]
    cases readQuoted rest <;> rfl

private theorem readPlain_fold (text : Text) :
    readPlain (Text.fold text) = (readPlain text).map fun read => (Text.fold read.1, Text.fold read.2) := by
  have other : ∀ {c : Char} (rest : Text), c ≠ '.' → c ≠ '"' →
      readPlain (c :: rest) = (readPlain rest).map fun read => (c :: read.1, read.2) := by
    intro c rest dot quote
    rw [readPlain]
    · exact dot
    · exact quote
  induction text with
  | nil => rfl
  | cons c rest ih =>
    by_cases dot : c = '.'
    · subst dot
      rfl
    · by_cases quote : c = '"'
      · subst quote
        rfl
      · show readPlain (c.toLower :: Text.fold rest) = _
        rw [other _ dot quote, other _ (mt toLower_dot.mp dot) (mt toLower_quote.mp quote), ih]
        cases readPlain rest <;> rfl

/-- How a part starts. -/
private def readStart : Text → Option (Text × Text)
  | '"' :: rest => readQuoted rest
  | text => readPlain text

/-- What a part must be followed by. -/
private def readEnd : Option (Text × Text) → Option (Text × Text)
  | some ([], _) => none
  | some (part, []) => some (part, [])
  | some (part, '.' :: rest) => some (part, '.' :: rest)
  | _ => none

private theorem readPart_eq (text : Text) : readPart text = readEnd (readStart text) := by
  unfold readPart readEnd readStart
  rfl

private theorem readStart_other {c : Char} (other : c ≠ '"') (rest : Text) :
    readStart (c :: rest) = readPlain (c :: rest) := by
  unfold readStart
  split
  · rename_i same
    exact absurd (List.cons.inj same).1 other
  · rfl

private theorem readStart_fold (text : Text) :
    readStart (Text.fold text) = (readStart text).map fun read => (Text.fold read.1, Text.fold read.2) := by
  cases text with
  | nil => rfl
  | cons c rest =>
    by_cases quote : c = '"'
    · subst quote
      exact readQuoted_fold rest
    · rw [readStart_other quote, ← readPlain_fold]
      exact readStart_other (mt toLower_quote.mp quote) (Text.fold rest)

private theorem readEnd_fold (read : Option (Text × Text)) :
    readEnd (read.map fun read => (Text.fold read.1, Text.fold read.2)) =
      (readEnd read).map fun read => (Text.fold read.1, Text.fold read.2) := by
  match read with
  | none => rfl
  | some ([], _) => rfl
  | some (_ :: _, []) => rfl
  | some (first :: part, c :: rest) =>
    by_cases dot : c = '.'
    · subst dot
      rfl
    · have dot' : c.toLower ≠ '.' := mt toLower_dot.mp dot
      show readEnd (some (first.toLower :: Text.fold part, c.toLower :: Text.fold rest)) = _
      simp only [readEnd]
      split <;> simp_all

private theorem readPart_fold (text : Text) :
    readPart (Text.fold text) = (readPart text).map fun read => (Text.fold read.1, Text.fold read.2) := by
  rw [readPart_eq, readPart_eq, readStart_fold, readEnd_fold]

/-- What follows a part is read. -/
private def readNext (more : ℕ) : Option (Text × Text) → Option (List Text)
  | none => none
  | some (part, []) => some [part]
  | some (_, ['.']) => none
  | some (part, _ :: rest) => (readParts more rest).map (part :: ·)

private theorem readParts_succ (more : ℕ) (text : Text) : readParts (more + 1) text = readNext more (readPart text) := by
  unfold readNext
  rfl

private theorem readNext_part (more : ℕ) (part : Text) {c : Char} {rest : Text} (follows : c ≠ '.' ∨ rest ≠ []) :
    readNext more (some (part, c :: rest)) = (readParts more rest).map (part :: ·) := by
  unfold readNext
  split <;> simp_all

private theorem readParts_fold (more : ℕ) (text : Text) :
    readParts more (Text.fold text) = (readParts more text).map (List.map Text.fold) := by
  induction more generalizing text with
  | zero => rfl
  | succ more ih =>
    rw [readParts_succ, readParts_succ, readPart_fold]
    match readPart text with
    | none => rfl
    | some (_, []) => rfl
    | some (part, c :: rest) =>
      by_cases follows : c ≠ '.' ∨ rest ≠ []
      · have follows' : c.toLower ≠ '.' ∨ Text.fold rest ≠ [] :=
          follows.imp (mt toLower_dot.mp) (mt Text.fold_eq_nil.mp)
        show readNext more (some (Text.fold part, c.toLower :: Text.fold rest)) = _
        rw [readNext_part more _ follows, readNext_part more _ follows', ih]
        cases readParts more rest <;> rfl
      · rw [not_or, not_not, not_not] at follows
        obtain ⟨rfl, rfl⟩ := follows
        rfl

/-- The parts of a folded key are the folded parts. -/
theorem fromKey_fold (key : Text) : fromKey (Text.fold key) = (fromKey key).map (List.map Text.fold) := by
  unfold fromKey
  rw [Text.length_fold, readParts_fold]
  by_cases empty : key = []
  · simp [empty, Text.fold]
  · rw [if_neg empty, if_neg (mt Text.fold_eq_nil.mp empty)]

theorem quotePart_fold (part : Text) : quotePart (Text.fold part) = Text.fold (quotePart part) := by
  have dots : '.' ∈ Text.fold part ↔ '.' ∈ part := by
    simp [Text.fold, toLower_dot]
  have quotes : '"' ∈ Text.fold part ↔ '"' ∈ part := by
    simp [Text.fold, toLower_quote]
  have doubled : (Text.fold part).flatMap (fun c => if c = '"' then ['"', '"'] else [c]) =
      Text.fold (part.flatMap fun c => if c = '"' then ['"', '"'] else [c]) := by
    clear dots quotes
    induction part with
    | nil => rfl
    | cons c rest ih =>
      simp only [Text.fold, List.map_cons, List.flatMap_cons, List.map_append] at ih ⊢
      rw [ih]
      by_cases quote : c = '"'
      · subst quote
        rfl
      · rw [if_neg quote, if_neg (mt toLower_quote.mp quote)]
        rfl
  unfold quotePart
  simp only [dots, quotes, doubled]
  split_ifs
  · rfl
  · simp [Text.fold, show '"'.toLower = '"' from rfl]

theorem toKey_fold (parts : List Text) : toKey (parts.map Text.fold) = Text.fold (toKey parts) := by
  unfold toKey
  have quoted : (parts.map Text.fold).map quotePart = (parts.map quotePart).map Text.fold := by
    simp only [List.map_map, Function.comp_def, quotePart_fold]
  rw [quoted]
  induction parts.map quotePart with
  | nil => rfl
  | cons first rest ih =>
    cases rest with
    | nil => simp
    | cons second rest =>
      simp only [List.map_cons, List.intercalate_cons_cons] at ih ⊢
      rw [ih]
      simp [Text.fold, show '.'.toLower = '.' from rfl]

/-- Splitting a folded key folds both sides. -/
theorem splitHeadKey_fold (key : Text) :
    splitHeadKey (Text.fold key) = (Text.fold (splitHeadKey key).1, Text.fold (splitHeadKey key).2) := by
  unfold splitHeadKey
  rw [fromKey_fold]
  match fromKey key with
  | none => rfl
  | some [] => rfl
  | some [_] => rfl
  | some (head :: second :: rest) =>
    show (quotePart (Text.fold head), toKey ((second :: rest).map Text.fold)) = _
    rw [quotePart_fold, toKey_fold]

/-! ## Reading a key back

The parts of a key delimit themselves, so a key reads back as its parts, and a key that another one
starts, up to a dot, has the other's parts first. -/

/-- Parts that are a name: some, and none of them empty. -/
def IsName (parts : List Text) : Prop := parts ≠ [] ∧ ∀ part ∈ parts, part ≠ []

/-- A part ends here. -/
private def Ends (rest : Text) : Prop := rest = [] ∨ ∃ more, rest = '.' :: more

private theorem readQuoted_doubled (part : Text) {rest : Text} (ends : Ends rest) :
    readQuoted (part.flatMap (fun c => if c = '"' then ['"', '"'] else [c]) ++ '"' :: rest) = some (part, rest) := by
  induction part with
  | nil =>
    have closed : ∀ after, rest = '"' :: after → False := by
      rcases ends with rfl | ⟨more, rfl⟩ <;> simp
    exact readQuoted.eq_3 _ closed
  | cons c part ih =>
    rw [List.flatMap_cons, List.append_assoc]
    by_cases quote : c = '"'
    · subst quote
      rw [if_pos rfl, List.cons_append, List.cons_append, List.nil_append, readQuoted, ih]
      rfl
    · rw [if_neg quote, List.cons_append, List.nil_append, readQuoted_other quote, ih]
      rfl

private theorem readPlain_plain (part : Text) {rest : Text} (ends : Ends rest) (dots : '.' ∉ part) (quotes : '"' ∉ part) :
    readPlain (part ++ rest) = some (part, rest) := by
  induction part with
  | nil =>
    rcases ends with rfl | ⟨more, rfl⟩
    · rfl
    · rfl
  | cons c part ih =>
    rw [List.mem_cons, not_or] at dots quotes
    rw [List.cons_append, readPlain, ih dots.2 quotes.2]
    · rfl
    · exact fun dot => dots.1 dot.symm
    · exact fun quote => quotes.1 quote.symm

private theorem readPart_quotePart {part rest : Text} (given : part ≠ []) (ends : Ends rest) :
    readPart (quotePart part ++ rest) = some (part, rest) := by
  have ended : readEnd (some (part, rest)) = some (part, rest) := by
    obtain ⟨c, more, rfl⟩ := List.exists_cons_of_ne_nil given
    rcases ends with rfl | ⟨after, rfl⟩
    · rfl
    · rfl
  rw [readPart_eq, ← ended]
  congr 1
  unfold quotePart
  split_ifs with plain
  · obtain ⟨c, more, rfl⟩ := List.exists_cons_of_ne_nil given
    have other : c ≠ '"' := fun quote => plain.2 (quote ▸ List.mem_cons_self)
    rw [List.cons_append, readStart_other other, ← List.cons_append]
    exact readPlain_plain _ ends plain.1 plain.2
  · have opened := readQuoted_doubled part ends
    rw [List.append_assoc]
    exact opened

/-- What follows the first part of a key. -/
private def afterFirst : List Text → Text
  | [] => []
  | rest => '.' :: toKey rest

private theorem toKey_cons (part : Text) (rest : List Text) : toKey (part :: rest) = quotePart part ++ afterFirst rest := by
  cases rest with
  | nil => simp [toKey, afterFirst]
  | cons second rest => simp [toKey, afterFirst, List.intercalate_cons_cons]

private theorem ends_afterFirst (rest : List Text) : Ends (afterFirst rest) := by
  cases rest with
  | nil => exact .inl rfl
  | cons second rest => exact .inr ⟨_, rfl⟩

private theorem quotePart_ne_nil {part : Text} (given : part ≠ []) : quotePart part ≠ [] := by
  unfold quotePart
  split_ifs
  · exact given
  · simp

theorem toKey_ne_nil {parts : List Text} (name : IsName parts) : toKey parts ≠ [] := by
  obtain ⟨some, given⟩ := name
  obtain ⟨part, rest, rfl⟩ := List.exists_cons_of_ne_nil some
  rw [toKey_cons]
  simp [quotePart_ne_nil (given part List.mem_cons_self)]

private theorem readParts_toKey {parts : List Text} (name : IsName parts) {fuel : ℕ} (enough : parts.length ≤ fuel) :
    readParts fuel (toKey parts) = some parts := by
  induction parts generalizing fuel with
  | nil => exact absurd rfl name.1
  | cons part rest ih =>
    obtain ⟨more, rfl⟩ : ∃ more, fuel = more + 1 := ⟨fuel - 1, by simp only [List.length_cons] at enough; omega⟩
    have given := name.2 part List.mem_cons_self
    rw [readParts_succ, toKey_cons, readPart_quotePart given (ends_afterFirst rest)]
    cases rest with
    | nil => rfl
    | cons second rest =>
      have named : IsName (second :: rest) := ⟨by simp, fun part member => name.2 part (List.mem_cons_of_mem _ member)⟩
      have follows : '.' ≠ '.' ∨ toKey (second :: rest) ≠ [] := .inr (toKey_ne_nil named)
      show readNext more (some (part, '.' :: toKey (second :: rest))) = _
      rw [readNext_part more part follows, ih named (by simpa using enough)]
      rfl

private theorem length_le_toKey {parts : List Text} (given : ∀ part ∈ parts, part ≠ []) :
    parts.length ≤ (toKey parts).length := by
  induction parts with
  | nil => simp
  | cons part rest ih =>
    have here : 0 < (quotePart part).length := List.length_pos_of_ne_nil (quotePart_ne_nil (given part List.mem_cons_self))
    have later := ih fun part member => given part (List.mem_cons_of_mem _ member)
    rw [toKey_cons, List.length_append, List.length_cons]
    cases rest with
    | nil =>
      simp only [List.length_nil]
      omega
    | cons second rest =>
      simp only [afterFirst, List.length_cons] at later ⊢
      omega

/-- A key reads back as its parts. -/
theorem fromKey_toKey {parts : List Text} (name : IsName parts) : fromKey (toKey parts) = some parts := by
  rw [fromKey, if_neg (toKey_ne_nil name)]
  exact readParts_toKey name (length_le_toKey name.2)

theorem keySize_toKey {parts : List Text} (name : IsName parts) : keySize (toKey parts) = parts.length := by
  rw [keySize, fromKey_toKey name]

theorem toKey_append {first second : List Text} (one : first ≠ []) (two : second ≠ []) :
    toKey (first ++ second) = toKey first ++ '.' :: toKey second := by
  induction first with
  | nil => exact absurd rfl one
  | cons part rest ih =>
    rw [List.cons_append, toKey_cons, toKey_cons]
    cases rest with
    | nil =>
      obtain ⟨next, more, rfl⟩ := List.exists_cons_of_ne_nil two
      simp [afterFirst]
    | cons second' rest =>
      have later := ih (by simp)
      simp only [afterFirst, List.cons_append] at later ⊢
      rw [later]
      simp

/-- A key that another one starts, up to a dot, has its parts first. -/
theorem parts_of_starts {first parts : List Text} (one : IsName first) (name : IsName parts) {rest : Text}
    (starts : toKey parts = toKey first ++ '.' :: rest) : ∃ later, later ≠ [] ∧ parts = first ++ later := by
  induction first generalizing parts with
  | nil => exact absurd rfl one.1
  | cons part more ih =>
    obtain ⟨head, later, rfl⟩ := List.exists_cons_of_ne_nil name.1
    rw [toKey_cons, toKey_cons, List.append_assoc] at starts
    have ends : Ends (afterFirst more ++ '.' :: rest) := by
      cases more with
      | nil => exact .inr ⟨_, rfl⟩
      | cons second more => exact .inr ⟨_, rfl⟩
    have read := readPart_quotePart (name.2 head List.mem_cons_self) (ends_afterFirst later)
    rw [starts, readPart_quotePart (one.2 part List.mem_cons_self) ends] at read
    obtain ⟨rfl, follows⟩ := Prod.mk.inj (Option.some.inj read)
    cases later with
    | nil => cases more <;> cases follows
    | cons second later =>
      cases more with
      | nil => exact ⟨second :: later, by simp, rfl⟩
      | cons second' more =>
        have named : ∀ {parts : List Text} {part : Text}, IsName (part :: parts) → parts ≠ [] → IsName parts :=
          fun name some => ⟨some, fun part member => name.2 part (List.mem_cons_of_mem _ member)⟩
        have next : toKey (second :: later) = toKey (second' :: more) ++ '.' :: rest := by
          simpa [afterFirst] using follows.symm
        obtain ⟨tail, some, same⟩ := ih (named one (by simp)) (named name (by simp)) next
        exact ⟨tail, some, by rw [same]; rfl⟩

private theorem readParts_trailing {parts : List Text} (name : IsName parts) (fuel : ℕ) :
    readParts fuel (toKey parts ++ ['.']) = none := by
  induction parts generalizing fuel with
  | nil => exact absurd rfl name.1
  | cons part rest ih =>
    cases fuel with
    | zero => rfl
    | succ fuel =>
      have given := name.2 part List.mem_cons_self
      rw [readParts_succ, toKey_cons, List.append_assoc]
      cases rest with
      | nil =>
        rw [show afterFirst [] ++ ['.'] = ['.'] from rfl, readPart_quotePart given (.inr ⟨[], rfl⟩)]
        rfl
      | cons second rest =>
        have named : IsName (second :: rest) := ⟨by simp, fun part member => name.2 part (List.mem_cons_of_mem _ member)⟩
        have follows : '.' ≠ '.' ∨ toKey (second :: rest) ++ ['.'] ≠ [] := .inr (by simp)
        rw [show afterFirst (second :: rest) ++ ['.'] = '.' :: (toKey (second :: rest) ++ ['.']) from rfl,
          readPart_quotePart given (.inr ⟨_, rfl⟩), readNext_part fuel part follows, ih named]
        rfl

/-- A key with a dot after it is none. -/
theorem fromKey_trailing {parts : List Text} (name : IsName parts) : fromKey (toKey parts ++ ['.']) = none := by
  rw [fromKey, if_neg (by simp)]
  exact readParts_trailing name _

end NamePath

end DuckAcl
