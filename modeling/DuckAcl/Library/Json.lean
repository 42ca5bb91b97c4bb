import Mathlib.Data.Int.Notation
import Mathlib.Data.List.Forall2
import Mathlib.Data.Nat.Notation
import Mathlib.Tactic.IntervalCases

/-! # JSON texts

A part of the JSON grammar over bytes, without white space: an object whose members are one-digit numbers,
strings, objects of strings and arrays of strings. A string may be spelled with escapes. `Reads` is what a
reader of JSON does on such a text, and `readDocument` is a reader of these texts only.
-/

namespace DuckAcl

/-- A string of bytes. -/
abbrev Bytes := List UInt8

/-- The bytes of an ASCII text. -/
def ascii (text : String) : Bytes := text.toList.map fun c => UInt8.ofNat c.toNat

inductive Json where
  | null
  | bool (value : Bool)
  | int (value : ℤ)
  | real
  | str (value : Bytes)
  | arr (items : List Json)
  | obj (members : List (Bytes × Json))

namespace Json

/-- The bytes of a text. -/
def Utf8 (bytes : Bytes) : Prop := ∃ text : List Char, bytes = text.flatMap String.utf8EncodeChar

/-- ASCII bytes are those of a text. -/
theorem utf8_of_ascii {bytes : Bytes} (each : ∀ b ∈ bytes, b < 128) : Utf8 bytes := by
  have single : ∀ n < 128, String.utf8EncodeChar (Char.ofNat n) = [UInt8.ofNat n] := by decide
  refine ⟨bytes.map fun b => Char.ofNat b.toNat, ?_⟩
  induction bytes with
  | nil => rfl
  | cons b bytes ih =>
    have small : b.toNat < 128 := each b List.mem_cons_self
    rw [List.map_cons, List.flatMap_cons, single _ small, ← ih fun c member => each c (List.mem_cons_of_mem _ member)]
    simp

/-- What an escape of two characters stands for. -/
def unescape (c : UInt8) : Option UInt8 :=
  if c = 34 then some 34
  else if c = 92 then some 92
  else if c = 47 then some 47
  else if c = 98 then some 8
  else if c = 102 then some 12
  else if c = 110 then some 10
  else if c = 114 then some 13
  else if c = 116 then some 9
  else none

def hexValue (c : UInt8) : Option ℕ :=
  if 48 ≤ c ∧ c ≤ 57 then some (c.toNat - 48)
  else if 97 ≤ c ∧ c ≤ 102 then some (c.toNat - 87)
  else if 65 ≤ c ∧ c ≤ 70 then some (c.toNat - 55)
  else none

/-- How the characters of a string may be spelled; a `\u` escape here is of an ASCII character. -/
inductive Spelled : Bytes → Bytes → Prop where
  | nil : Spelled [] []
  | raw {b : UInt8} {content spelled : Bytes} (printed : 32 ≤ b) (noQuote : b ≠ 34) (noEscape : b ≠ 92)
      (rest : Spelled content spelled) : Spelled (b :: content) (b :: spelled)
  | escape {c b : UInt8} {content spelled : Bytes} (stands : unescape c = some b) (rest : Spelled content spelled) :
      Spelled (b :: content) (92 :: c :: spelled)
  | unicode {high low : UInt8} {h l : ℕ} {content spelled : Bytes} (highValue : hexValue high = some h)
      (lowValue : hexValue low = some l) (ascii : h < 8) (rest : Spelled content spelled) :
      Spelled (UInt8.ofNat (16 * h + l) :: content) (92 :: 117 :: 48 :: 48 :: high :: low :: spelled)

/-- A string between quotation marks. -/
def Quoted (content text : Bytes) : Prop := Utf8 content ∧ ∃ spelled, Spelled content spelled ∧ text = 34 :: (spelled ++ [34])

/-- Texts with commas between them. -/
def separated (texts : List Bytes) : Bytes := [44].intercalate texts

/-- A key and what stands for a value, with a colon between them. -/
def Pair {α : Type} (written : α → Bytes → Prop) (member : Bytes × α) (text : Bytes) : Prop :=
  ∃ key value, Quoted member.1 key ∧ written member.2 value ∧ text = key ++ 58 :: value

/-- A value without values below its strings. -/
inductive Flat where
  | digit (value : ℕ)
  | str (value : Bytes)
  | obj (members : List (Bytes × Bytes))
  | arr (items : List Bytes)

def Flat.json : Flat → Json
  | .digit value => .int value
  | .str value => .str value
  | .obj members => .obj (members.map fun member => (member.1, .str member.2))
  | .arr items => .arr (items.map .str)

inductive Flat.Written : Flat → Bytes → Prop where
  | digit {value : ℕ} (small : value < 10) : Flat.Written (.digit value) [UInt8.ofNat (48 + value)]
  | str {value text : Bytes} (quoted : Quoted value text) : Flat.Written (.str value) text
  | obj {members : List (Bytes × Bytes)} {texts : List Bytes} (some : members ≠ [])
      (each : List.Forall₂ (Pair Quoted) members texts) : Flat.Written (.obj members) (123 :: (separated texts ++ [125]))
  | arr {items texts : List Bytes} (some : items ≠ []) (each : List.Forall₂ Quoted items texts) :
      Flat.Written (.arr items) (91 :: (separated texts ++ [93]))

/-- The text of an object of such values. -/
def Document (members : List (Bytes × Flat)) (text : Bytes) : Prop :=
  members ≠ [] ∧ ∃ texts, List.Forall₂ (Pair Flat.Written) members texts ∧ text = 123 :: (separated texts ++ [125])

/-- A reader that reads every such text as its value. -/
def Reads (read : Bytes → Option Json) : Prop :=
  ∀ members text, Document members text → read text = some (.obj (members.map fun member => (member.1, member.2.json)))

/-! ## The parts of a value -/

/-- A value within a value, itself included. -/
inductive Part (part : Json) : Json → Prop where
  | self : Part part part
  | item {item : Json} {items : List Json} (listed : item ∈ items) (within : Part part item) : Part part (.arr items)
  | value {key : Bytes} {value : Json} {members : List (Bytes × Json)} (listed : (key, value) ∈ members)
      (within : Part part value) : Part part (.obj members)

/-- No object within a value names a key twice. -/
def KeysOnce (json : Json) : Prop := ∀ members, Part (.obj members) json → (members.map Prod.fst).Nodup

/-- A reader that reads strings in UTF-8 only. -/
def ReadsTexts (read : Bytes → Option Json) : Prop :=
  ∀ text json, read text = some json → ∀ value, Part (.str value) json → Utf8 value

/-! ## A reader -/

/-- What a reader leaves after it read a text, whatever follows. -/
def Parses {α : Type} (read : Bytes → Option (α × Bytes)) (value : α) (text : Bytes) : Prop :=
  ∀ rest, read (text ++ rest) = some (value, rest)

/-- The rest of a string and what follows it. -/
def readString : Bytes → Option (Bytes × Bytes)
  | [] => none
  | b :: rest =>
    if b = 34 then some ([], rest)
    else if b ≠ 92 then if 32 ≤ b then (readString rest).map fun read => (b :: read.1, read.2) else none
    else
      match rest with
      | [] => none
      | c :: rest =>
        if c ≠ 117 then
          (unescape c).bind fun stands => (readString rest).map fun read => (stands :: read.1, read.2)
        else
          match rest with
          | 48 :: 48 :: high :: low :: rest =>
            (hexValue high).bind fun h => (hexValue low).bind fun l =>
              (readString rest).map fun read => (UInt8.ofNat (16 * h + l) :: read.1, read.2)
          | _ => none

def readQuoted : Bytes → Option (Bytes × Bytes)
  | [] => none
  | b :: rest => if b = 34 then readString rest else none

/-- Items up to a closing character. -/
def readItems {α : Type} (item : Bytes → Option (α × Bytes)) (close : UInt8) : ℕ → Bytes → Option (List α × Bytes)
  | 0, _ => none
  | fuel + 1, input =>
    match item input with
    | some (first, b :: rest) =>
      if b = close then some ([first], rest)
      else if b = 44 then (readItems item close fuel rest).map fun read => (first :: read.1, read.2)
      else none
    | _ => none

def readPair {α : Type} (value : Bytes → Option (α × Bytes)) (input : Bytes) : Option ((Bytes × α) × Bytes) :=
  match readQuoted input with
  | some (key, b :: rest) => if b = 58 then (value rest).map fun read => ((key, read.1), read.2) else none
  | _ => none

def readFlat : Bytes → Option (Flat × Bytes)
  | [] => none
  | b :: rest =>
    if b = 34 then (readString rest).map fun read => (.str read.1, read.2)
    else if b = 123 then (readItems (readPair readQuoted) 125 rest.length rest).map fun read => (.obj read.1, read.2)
    else if b = 91 then (readItems readQuoted 93 rest.length rest).map fun read => (.arr read.1, read.2)
    else if 48 ≤ b ∧ b ≤ 57 then some (.digit (b.toNat - 48), rest)
    else none

/-- A reader of the texts of `Document`. -/
def readDocument : Bytes → Option Json
  | [] => none
  | b :: rest =>
    if b = 123 then
      match readItems (readPair readFlat) 125 rest.length rest with
      | some (members, []) => some (.obj (members.map fun member => (member.1, member.2.json)))
      | _ => none
    else none

theorem parses_spelled {content spelled : Bytes} (spells : Spelled content spelled) (rest : Bytes) :
    readString (spelled ++ 34 :: rest) = some (content, rest) := by
  induction spells with
  | nil =>
    rw [List.nil_append, readString.eq_def]
    rfl
  | raw printed noQuote noEscape _ ih =>
    rw [List.cons_append, readString.eq_def]
    simp [printed, noQuote, noEscape, ih]
  | @escape c b content spelled stands _ ih =>
    have other : c ≠ 117 := by
      rintro rfl
      cases stands
    rw [List.cons_append, readString.eq_def]
    simp [other, stands, ih]
  | unicode highValue lowValue _ _ ih =>
    rw [List.cons_append, readString.eq_def]
    simp [highValue, lowValue, ih]

theorem parses_quoted {content text : Bytes} (quoted : Quoted content text) : Parses readQuoted content text := by
  obtain ⟨-, spelled, spells, rfl⟩ := quoted
  intro rest
  simpa [readQuoted] using parses_spelled spells rest

theorem length_separated (texts : List Bytes) (some : texts ≠ []) : texts.length ≤ (separated texts).length + 1 := by
  induction texts with
  | nil => exact absurd rfl some
  | cons text texts ih =>
    cases texts with
    | nil => simp
    | cons next texts =>
      have := ih (by simp)
      simp only [separated, List.intercalate, List.intersperse_cons_cons, List.flatten_cons, List.length_append,
        List.length_cons, List.length_nil] at this ⊢
      omega

/-- Items are read when each one is, with fuel for each. -/
theorem parses_items {α : Type} {item : Bytes → Option (α × Bytes)} (close : UInt8) (apart : close ≠ 44) {items : List α}
    {texts : List Bytes} (each : List.Forall₂ (Parses item) items texts) (some : items ≠ []) {fuel : ℕ}
    (enough : texts.length ≤ fuel) (rest : Bytes) :
    readItems item close fuel (separated texts ++ close :: rest) = .some (items, rest) := by
  induction each generalizing fuel with
  | nil => exact absurd rfl some
  | @cons value text items texts first later ih =>
    obtain ⟨fuel, rfl⟩ : ∃ less, fuel = less + 1 := ⟨fuel - 1, by simp only [List.length_cons] at enough; omega⟩
    cases later with
    | nil =>
      have : separated [text] = text := by simp [separated, List.intercalate]
      rw [this, readItems, first]
      simp
    | @cons value' next items texts second later =>
      have : separated (text :: next :: texts) = text ++ 44 :: separated (next :: texts) := by
        simp [separated, List.intercalate]
      rw [this, List.append_assoc, List.cons_append, readItems, first]
      have tail := @ih (by simp) fuel (by simp only [List.length_cons] at enough ⊢; omega)
      simp [Ne.symm apart, tail]

theorem parses_pair {α : Type} {written : α → Bytes → Prop} {value : Bytes → Option (α × Bytes)}
    (each : ∀ {a text}, written a text → Parses value a text) {member : Bytes × α} {text : Bytes}
    (pair : Pair written member text) : Parses (readPair value) member text := by
  obtain ⟨key, spelled, quoted, writes, rfl⟩ := pair
  intro rest
  rw [List.append_assoc, List.cons_append, readPair, parses_quoted quoted]
  simp [each writes rest]

private theorem enough_items {α : Type} {written : α → Bytes → Prop} {items : List α} {texts : List Bytes}
    (each : List.Forall₂ written items texts) (some : items ≠ []) (close : UInt8) (rest : Bytes) :
    texts.length ≤ (separated texts ++ close :: rest).length := by
  have given : texts ≠ [] := by
    rintro rfl
    cases each
    exact some rfl
  have := length_separated texts given
  simp only [List.length_append, List.length_cons]
  omega

theorem parses_flat {value : Flat} {text : Bytes} (written : Flat.Written value text) : Parses readFlat value text := by
  intro rest
  cases written with
  | @digit value small =>
    have digits : ∀ n < 10, readFlat (UInt8.ofNat (48 + n) :: rest) = some (.digit n, rest) := by
      intro n small
      interval_cases n <;> rfl
    exact digits value small
  | str quoted =>
    obtain ⟨-, spelled, spells, rfl⟩ := quoted
    rw [List.cons_append, List.append_assoc, readFlat, if_pos rfl, List.singleton_append, parses_spelled spells rest]
    rfl
  | @obj members texts some each =>
    have read := parses_items 125 (by decide) (each.imp fun _ _ pair => parses_pair parses_quoted pair) some
      (enough_items each some 125 rest) rest
    rw [List.cons_append, List.append_assoc, readFlat, if_neg (by decide), if_pos rfl, List.singleton_append, read]
    rfl
  | @arr items texts some each =>
    have read := parses_items 93 (by decide) (each.imp fun _ _ quoted => parses_quoted quoted) some
      (enough_items each some 93 rest) rest
    rw [List.cons_append, List.append_assoc, readFlat, if_neg (by decide), if_neg (by decide), if_pos rfl,
      List.singleton_append, read]
    rfl

theorem readDocument_reads : Reads readDocument := by
  rintro members text ⟨some, texts, each, rfl⟩
  have read := parses_items 125 (by decide) (each.imp fun _ _ pair => parses_pair parses_flat pair) some
    (enough_items each some 125 []) []
  rw [readDocument, if_pos rfl, read]

/-- What stands across from an item of a list. -/
private theorem exists_across {α β : Type} {relation : α → β → Prop} {items : List α} {others : List β}
    (each : List.Forall₂ relation items others) {item : α} (member : item ∈ items) : ∃ other, relation item other := by
  induction each with
  | nil => cases member
  | cons first _ ih =>
    rcases List.mem_cons.mp member with rfl | later
    · exact ⟨_, first⟩
    · exact ih later

/-- The strings of a text are in UTF-8. -/
theorem utf8_of_written {value : Flat} {text string : Bytes} (written : Flat.Written value text)
    (part : Part (.str string) value.json) : Utf8 string := by
  cases written with
  | digit small => cases part
  | str quoted =>
    cases part
    exact quoted.1
  | obj some each =>
    cases part with
    | value listed within =>
      obtain ⟨member, among, same⟩ := List.mem_map.mp listed
      obtain ⟨text, pair⟩ := exists_across each among
      cases same
      cases within
      obtain ⟨_, _, _, quoted, _⟩ := pair
      exact quoted.1
  | arr some each =>
    cases part with
    | item listed within =>
      obtain ⟨item, among, rfl⟩ := List.mem_map.mp listed
      obtain ⟨text, quoted⟩ := exists_across each among
      cases within
      exact quoted.1

open Classical in
/-- A reader of the same texts that reads strings in UTF-8 only. -/
noncomputable def readTextDocument (text : Bytes) : Option Json :=
  if ∀ json, readDocument text = some json → ∀ value, Part (.str value) json → Utf8 value then readDocument text else none

theorem readTextDocument_readsTexts : ReadsTexts readTextDocument := by
  intro text json read
  unfold readTextDocument at read
  split_ifs at read with valid
  exact valid json read

theorem readTextDocument_reads : Reads readTextDocument := by
  intro members text document
  have read := readDocument_reads members text document
  obtain ⟨-, texts, each, -⟩ := document
  rw [readTextDocument, if_pos, read]
  intro json same value part
  rw [read] at same
  cases same
  cases part with
  | value listed within =>
    obtain ⟨member, among, same⟩ := List.mem_map.mp listed
    obtain ⟨text, pair⟩ := exists_across each among
    cases same
    obtain ⟨_, _, _, written, _⟩ := pair
    exact utf8_of_written written within

end Json

end DuckAcl
