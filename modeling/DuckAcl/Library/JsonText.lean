import DuckAcl.Library.Text
import Mathlib.Data.Int.Notation
import Mathlib.Data.Nat.Notation

/-! # JSON over characters

What a value's text may be: a string spelled with or without escapes, an array or an object of such values,
with blanks after a comma or a colon. `Reads` is what a reader of JSON does on such a text, and `readText` is
a reader of these texts only.
-/

namespace DuckAcl

/-- A value of a JSON text; a real is kept as it prints. -/
inductive JsonValue where
  | null
  | bool (value : Bool)
  | int (value : ℤ)
  | real (printed : Text)
  | str (value : Text)
  | arr (items : List JsonValue)
  | obj (members : List (Text × JsonValue))

namespace JsonValue

/-- What an escape of two characters stands for. -/
def unescape (c : Char) : Option Char :=
  if c = '"' then some '"'
  else if c = '\\' then some '\\'
  else if c = '/' then some '/'
  else if c = 'b' then some '\x08'
  else if c = 'f' then some '\x0c'
  else if c = 'n' then some '\n'
  else if c = 'r' then some '\r'
  else if c = 't' then some '\t'
  else none

def hexValue (c : Char) : Option ℕ :=
  if 48 ≤ c.toNat ∧ c.toNat ≤ 57 then some (c.toNat - 48)
  else if 97 ≤ c.toNat ∧ c.toNat ≤ 102 then some (c.toNat - 87)
  else if 65 ≤ c.toNat ∧ c.toNat ≤ 70 then some (c.toNat - 55)
  else none

/-- How the characters of a string may be spelled; a `\u` escape here is of a character below 256. -/
inductive Spelled : Text → Text → Prop where
  | nil : Spelled [] []
  | raw {c : Char} {content spelled : Text} (printed : 32 ≤ c.toNat) (noQuote : c ≠ '"') (noEscape : c ≠ '\\')
      (rest : Spelled content spelled) : Spelled (c :: content) (c :: spelled)
  | escape {e c : Char} {content spelled : Text} (stands : unescape e = some c) (rest : Spelled content spelled) :
      Spelled (c :: content) ('\\' :: e :: spelled)
  | unicode {high low : Char} {h l : ℕ} {content spelled : Text} (highValue : hexValue high = some h)
      (lowValue : hexValue low = some l) (rest : Spelled content spelled) :
      Spelled (Char.ofNat (16 * h + l) :: content) ('\\' :: 'u' :: '0' :: '0' :: high :: low :: spelled)

/-- Spaces only. -/
def Blank (gap : Text) : Prop := ∀ c ∈ gap, c = ' '

mutual

/-- The text of a value. -/
inductive Written : JsonValue → Text → Prop where
  | str {content spelled : Text} (spells : Spelled content spelled) : Written (.str content) ('"' :: (spelled ++ ['"']))
  | noItems : Written (.arr []) ['[', ']']
  | arr {items : List JsonValue} {text : Text} (each : Items items text) : Written (.arr items) ('[' :: (text ++ [']']))
  | noMembers : Written (.obj []) ['\x7b', '\x7d']
  | obj {members : List (Text × JsonValue)} {text : Text} (each : Members members text) :
      Written (.obj members) ('\x7b' :: (text ++ ['\x7d']))

/-- The text of items, with commas between them. -/
inductive Items : List JsonValue → Text → Prop where
  | one {value : JsonValue} {text : Text} (written : Written value text) : Items [value] text
  | cons {value : JsonValue} {items : List JsonValue} {text gap rest : Text} (written : Written value text)
      (blank : Blank gap) (later : Items items rest) : Items (value :: items) (text ++ ',' :: (gap ++ rest))

/-- The text of members, with commas between them. -/
inductive Members : List (Text × JsonValue) → Text → Prop where
  | one {key spelled gap text : Text} {value : JsonValue} (spells : Spelled key spelled) (blank : Blank gap)
      (written : Written value text) : Members [(key, value)] ('"' :: (spelled ++ '"' :: ':' :: (gap ++ text)))
  | cons {key spelled gap text gap' rest : Text} {value : JsonValue} {members : List (Text × JsonValue)}
      (spells : Spelled key spelled) (blank : Blank gap) (written : Written value text) (blank' : Blank gap')
      (later : Members members rest) :
      Members ((key, value) :: members) ('"' :: (spelled ++ '"' :: ':' :: (gap ++ (text ++ ',' :: (gap' ++ rest)))))

end

/-- A reader that reads every such text as its value. -/
def Reads (read : Text → Option JsonValue) : Prop := ∀ value text, Written value text → read text = some value

/-! ## A reader -/

/-- The rest of a string and what follows it. -/
def readString : Text → Option (Text × Text)
  | [] => none
  | c :: rest =>
    if c = '"' then some ([], rest)
    else if c ≠ '\\' then if 32 ≤ c.toNat then (readString rest).map fun read => (c :: read.1, read.2) else none
    else
      match rest with
      | [] => none
      | e :: rest =>
        if e ≠ 'u' then
          (unescape e).bind fun stands => (readString rest).map fun read => (stands :: read.1, read.2)
        else
          match rest with
          | '0' :: '0' :: high :: low :: rest =>
            (hexValue high).bind fun h => (hexValue low).bind fun l =>
              (readString rest).map fun read => (Char.ofNat (16 * h + l) :: read.1, read.2)
          | _ => none

/-- What follows the blanks. -/
def skipBlanks (input : Text) : Text := input.dropWhile (· = ' ')

mutual

def readValue : ℕ → Text → Option (JsonValue × Text)
  | 0, _ => none
  | _ + 1, [] => none
  | fuel + 1, c :: rest =>
    if c = '"' then (readString rest).map fun read => (.str read.1, read.2)
    else if c = '[' then
      if rest.head? = some ']' then some (.arr [], rest.tail)
      else (readItems fuel rest).map fun read => (.arr read.1, read.2)
    else if c = '\x7b' then
      if rest.head? = some '\x7d' then some (.obj [], rest.tail)
      else (readMembers fuel rest).map fun read => (.obj read.1, read.2)
    else none

def readItems : ℕ → Text → Option (List JsonValue × Text)
  | 0, _ => none
  | fuel + 1, input =>
    (readValue fuel input).bind fun read =>
      if read.2.head? = some ']' then some ([read.1], read.2.tail)
      else if read.2.head? = some ',' then
        (readItems fuel (skipBlanks read.2.tail)).map fun later => (read.1 :: later.1, later.2)
      else none

def readMembers : ℕ → Text → Option (List (Text × JsonValue) × Text)
  | 0, _ => none
  | fuel + 1, input =>
    if input.head? = some '"' then
      (readString input.tail).bind fun key =>
        if key.2.head? = some ':' then
          (readValue fuel (skipBlanks key.2.tail)).bind fun read =>
            if read.2.head? = some '\x7d' then some ([(key.1, read.1)], read.2.tail)
            else if read.2.head? = some ',' then
              (readMembers fuel (skipBlanks read.2.tail)).map fun later => ((key.1, read.1) :: later.1, later.2)
            else none
        else none
    else none

end

/-- A reader of the texts of `Written`. -/
def readText (text : Text) : Option JsonValue :=
  (readValue text.length text).bind fun read => if read.2 = [] then some read.1 else none

theorem readString_spelled {content spelled : Text} (spells : Spelled content spelled) (rest : Text) :
    readString (spelled ++ '"' :: rest) = some (content, rest) := by
  induction spells with
  | nil =>
    rw [List.nil_append, readString.eq_def]
    rfl
  | raw printed noQuote noEscape _ ih =>
    rw [List.cons_append, readString.eq_def]
    simp [printed, noQuote, noEscape, ih]
  | @escape e c content spelled stands _ ih =>
    have other : e ≠ 'u' := by
      rintro rfl
      cases stands
    rw [List.cons_append, readString.eq_def]
    simp [other, stands, ih]
  | unicode highValue lowValue _ ih =>
    rw [List.cons_append, readString.eq_def]
    simp [highValue, lowValue, ih]

/-- The text of a value starts with what tells its kind. -/
theorem Written.starts {value : JsonValue} {text : Text} (written : Written value text) :
    ∃ c rest, text = c :: rest ∧ c ∈ ['"', '[', '\x7b'] := by
  cases written
  all_goals exact ⟨_, _, rfl, by simp⟩

theorem Items.starts {items : List JsonValue} {text : Text} (each : Items items text) :
    ∃ c rest, text = c :: rest ∧ c ∈ ['"', '[', '\x7b'] := by
  cases each with
  | one written => exact written.starts
  | cons written blank later =>
    obtain ⟨c, rest, rfl, kind⟩ := written.starts
    exact ⟨c, _, rfl, kind⟩

theorem Members.starts {members : List (Text × JsonValue)} {text : Text} (each : Members members text) :
    ∃ rest, text = '"' :: rest := by
  cases each
  all_goals exact ⟨_, rfl⟩

/-- Blanks are skipped up to what is none. -/
theorem skipBlanks_append {gap : Text} (blank : Blank gap) {c : Char} (other : c ≠ ' ') (rest : Text) :
    skipBlanks (gap ++ c :: rest) = c :: rest := by
  induction gap with
  | nil => simp [skipBlanks, other]
  | cons b gap ih =>
    obtain rfl := blank b List.mem_cons_self
    have later := ih fun c member => blank c (List.mem_cons_of_mem _ member)
    rw [skipBlanks] at later ⊢
    rw [List.cons_append, List.dropWhile_cons_of_pos (by simp)]
    exact later

private theorem kind_apart : ∀ c ∈ ['"', '[', '\x7b'], c ≠ ' ' ∧ c ≠ ']' ∧ c ≠ '\x7d' ∧ c ≠ ',' := by
  simp

/-- With fuel for its length, the text of a value is read as the value, and so are items and members. -/
theorem readValue_written (fuel : ℕ) :
    (∀ value text, Written value text → text.length ≤ fuel → ∀ rest, readValue fuel (text ++ rest) = some (value, rest)) ∧
    (∀ items text, Items items text → text.length < fuel → ∀ rest,
      readItems fuel (text ++ ']' :: rest) = some (items, rest)) ∧
    (∀ members text, Members members text → text.length < fuel → ∀ rest,
      readMembers fuel (text ++ '\x7d' :: rest) = some (members, rest)) := by
  induction fuel with
  | zero =>
    refine ⟨fun value text written short => ?_, fun _ _ _ short => absurd short (Nat.not_lt_zero _),
      fun _ _ _ short => absurd short (Nat.not_lt_zero _)⟩
    obtain ⟨c, rest, rfl, -⟩ := written.starts
    exact absurd short (by simp)
  | succ fuel ih =>
    obtain ⟨values, items, members⟩ := ih
    refine ⟨fun value text written short rest => ?_, fun list text each short rest => ?_, fun list text each short rest => ?_⟩
    · cases written with
      | str spells =>
        rw [List.cons_append, List.append_assoc, List.singleton_append, readValue, if_pos rfl, readString_spelled spells]
        rfl
      | noItems => simp [readValue]
      | @arr list text each =>
        obtain ⟨c, later, rfl, kind⟩ := each.starts
        have apart := (kind_apart c kind).2.1
        have read := items _ _ each (by simp only [List.length_cons, List.length_append, List.length_nil] at short ⊢; omega) rest
        rw [List.cons_append, List.append_assoc, List.singleton_append, readValue, if_neg (by decide), if_pos rfl,
          if_neg (by simpa using apart), read]
        rfl
      | noMembers => simp [readValue]
      | @obj list text each =>
        obtain ⟨later, rfl⟩ := each.starts
        have read := members _ _ each (by simp only [List.length_cons, List.length_append, List.length_nil] at short ⊢; omega) rest
        rw [List.cons_append, List.append_assoc, List.singleton_append, readValue, if_neg (by decide), if_neg (by decide),
          if_pos rfl, if_neg (by simp), read]
        rfl
    · cases each with
      | one written =>
        have read := values _ _ written (by omega) (']' :: rest)
        rw [readItems, read]
        simp
      | @cons value list text gap later written blank each =>
        simp only [List.length_append, List.length_cons] at short
        have first := values _ _ written (by omega) (',' :: (gap ++ later) ++ ']' :: rest)
        have others := items _ _ each (by omega) rest
        obtain ⟨c, tail, rfl, kind⟩ := each.starts
        have skipped := skipBlanks_append blank (kind_apart c kind).1 (tail ++ ']' :: rest)
        rw [List.append_assoc, readItems, first]
        simp only [List.cons_append, List.append_assoc, Option.bind_some, List.head?_cons, List.tail_cons] at others skipped ⊢
        rw [skipped, others]
        simp
    · cases each with
      | @one key spelled gap text value spells blank written =>
        simp only [List.length_append, List.length_cons] at short
        have first := readString_spelled spells (':' :: (gap ++ text) ++ '\x7d' :: rest)
        have read := values _ _ written (by omega) ('\x7d' :: rest)
        obtain ⟨c, tail, rfl, kind⟩ := written.starts
        have skipped := skipBlanks_append blank (kind_apart c kind).1 (tail ++ '\x7d' :: rest)
        rw [readMembers]
        simp only [List.cons_append, List.append_assoc, List.head?_cons, List.tail_cons, ↓reduceIte] at first read skipped ⊢
        rw [first]
        simp only [Option.bind_some, List.head?_cons, List.tail_cons, ↓reduceIte]
        rw [skipped, read]
        simp
      | @cons key spelled gap text gap' later value list spells blank written blank' each =>
        simp only [List.length_append, List.length_cons] at short
        have first := readString_spelled spells (':' :: (gap ++ (text ++ ',' :: (gap' ++ later))) ++ '\x7d' :: rest)
        have read := values _ _ written (by omega) (',' :: (gap' ++ later) ++ '\x7d' :: rest)
        have others := members _ _ each (by omega) rest
        obtain ⟨c, tail, rfl, kind⟩ := written.starts
        obtain ⟨after, rfl⟩ := each.starts
        have skipped := skipBlanks_append blank (kind_apart c kind).1 (tail ++ ',' :: (gap' ++ '"' :: after) ++ '\x7d' :: rest)
        have skipped' := skipBlanks_append blank' (show '"' ≠ ' ' by decide) (after ++ '\x7d' :: rest)
        rw [readMembers]
        simp only [List.cons_append, List.append_assoc, List.head?_cons, List.tail_cons, ↓reduceIte] at first read others skipped skipped' ⊢
        rw [first]
        simp only [Option.bind_some, List.head?_cons, List.tail_cons, ↓reduceIte]
        rw [skipped, read]
        simp only [Option.bind_some, List.head?_cons, List.tail_cons, ↓reduceIte]
        rw [skipped', others]
        simp

theorem readText_reads : Reads readText := by
  intro value text written
  have read := (readValue_written text.length).1 value text written le_rfl []
  rw [List.append_nil] at read
  rw [readText, read]
  rfl

end JsonValue

end DuckAcl
