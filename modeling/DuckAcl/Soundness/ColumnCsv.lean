import Mathlib.Data.List.TakeWhile
import DuckAcl.Model.TablePolicy

/-! # Column lists as text

A grant's items are stored as one text, joined by commas. `ParseColumnList` takes the text apart again:
at the commas outside quotes and parentheses, then at the first `=` of each part. The items come back
when each of them is one part by itself: it has no comma of its own outside quotes and parentheses, and,
unless it is the last, it closes every quote and parenthesis it opens.
-/

namespace DuckAcl

/-- The text of one item. -/
def itemText (item : Text × Text) : Text := if item.2 = [] then item.1 else item.1 ++ " = ".toList ++ item.2

theorem itemsCsv_eq (items : ColumnItems) : itemsCsv items = ", ".toList.intercalate (items.map itemText) := rfl

/-! ## Parts -/

/-- Whether a quoted run comes to its closing quote. -/
def runCloses (quote : Char) : Text → Bool
  | [] => false
  | c :: rest =>
    if c = quote then
      match rest with
      | d :: after => if d = quote then runCloses quote after else true
      | [] => true
    else runCloses quote rest

/-- Whether a text is one part of a list: it has no delimiter outside quotes and parentheses, and, unless it
is the last part, it leaves no quote and no parenthesis open. -/
def isPart (last : Bool) (depth : ℕ) (text : Text) : Bool :=
  match text with
  | [] => last || depth == 0
  | c :: rest =>
    if c = '\'' ∨ c = '"' then (last || runCloses c rest) && isPart last depth (readRun c rest).2
    else if c = '(' then isPart last (depth + 1) rest
    else if c = ')' ∧ 0 < depth then isPart last (depth - 1) rest
    else if c = ',' ∧ depth = 0 then false
    else isPart last depth rest
termination_by text.length
decreasing_by
  all_goals simp only [List.length_cons]
  · have := readRun_length c rest
    omega
  all_goals omega

/-- What follows a text is not a quote, which a quoted run before it could take for its own. -/
def Unquoted (after : Text) : Prop := ∀ c ∈ after.head?, c ≠ '\'' ∧ c ≠ '"'

theorem readRun_cons {quote c : Char} (differs : ¬ c = quote) (rest : Text) :
    readRun quote (c :: rest) = (c :: (readRun quote rest).1, (readRun quote rest).2) := by
  rw [readRun.eq_def]
  simp [differs]

theorem readRun_append {quote : Char} (isQuote : quote = '\'' ∨ quote = '"') {text after : Text}
    (closes : runCloses quote text = true) (apart : Unquoted after) :
    readRun quote (text ++ after) = ((readRun quote text).1, (readRun quote text).2 ++ after) := by
  fun_induction runCloses quote text with
  | case1 => cases closes
  | case2 after' ih => simp [readRun, ih closes]
  | case3 d after' differs => simp [readRun, differs]
  | case4 =>
    cases after with
    | nil => simp [readRun]
    | cons c rest =>
      have differs : c ≠ quote := by
        obtain ⟨notSingle, notDouble⟩ := apart c (by simp)
        rcases isQuote with rfl | rfl
        · exact notSingle
        · exact notDouble
      simp [readRun, differs]
  | case5 c rest differs ih => rw [List.cons_append, readRun_cons differs, ih closes, readRun_cons differs]

theorem readRun_whole (quote : Char) (text : Text) : (readRun quote text).1 ++ (readRun quote text).2 = text := by
  fun_induction readRun quote text with
  | case1 => rfl
  | case2 after run left split ih => simpa [split] using ih
  | case3 => rfl
  | case4 => rfl
  | case5 c rest _ run left split ih => simpa [split] using ih

/-- A part is read whole, up to what follows it. -/
theorem splitFrom_part {depth : ℕ} {text after current : Text} (part : isPart false depth text = true)
    (apart : Unquoted after) :
    splitFrom ',' current depth (text ++ after) = splitFrom ',' (current ++ text) 0 after := by
  fun_induction isPart false depth text generalizing current with
  | case1 depth =>
    simp only [Bool.false_or, beq_iff_eq] at part
    simp [part]
  | case2 depth c rest isQuote ih =>
    simp only [Bool.false_or, Bool.and_eq_true] at part
    obtain ⟨closes, part⟩ := part
    rw [List.cons_append, splitFrom, if_pos isQuote, readRun_append isQuote closes apart, ih part]
    rw [List.append_assoc, List.cons_append, readRun_whole]
  | case3 depth rest notQuote ih =>
    rw [List.cons_append, splitFrom, if_neg notQuote, if_pos rfl, ih part]
    simp
  | case4 depth c rest notQuote notOpen closing ih =>
    rw [List.cons_append, splitFrom, if_neg notQuote, if_neg notOpen, if_pos closing, ih part]
    simp
  | case5 => cases part
  | case6 depth c rest notQuote notOpen notClosing notDelimiter ih =>
    rw [List.cons_append, splitFrom, if_neg notQuote, if_neg notOpen, if_neg notClosing, if_neg notDelimiter, ih part]
    simp

/-- The last part is read whole. -/
theorem splitFrom_last {depth : ℕ} {text current : Text} (part : isPart true depth text = true) :
    splitFrom ',' current depth text = [current ++ text] := by
  fun_induction isPart true depth text generalizing current with
  | case1 depth => simp [splitFrom]
  | case2 depth c rest isQuote ih =>
    simp only [Bool.true_or, Bool.true_and] at part
    rw [splitFrom, if_pos isQuote, ih part, List.append_assoc, List.cons_append, readRun_whole]
  | case3 depth rest notQuote ih =>
    rw [splitFrom, if_neg notQuote, if_pos rfl, ih part]
    simp
  | case4 depth c rest notQuote notOpen closing ih =>
    rw [splitFrom, if_neg notQuote, if_neg notOpen, if_pos closing, ih part]
    simp
  | case5 => cases part
  | case6 depth c rest notQuote notOpen notClosing notDelimiter ih =>
    rw [splitFrom, if_neg notQuote, if_neg notOpen, if_neg notClosing, if_neg notDelimiter, ih part]
    simp

/-! ## Items -/

theorem trim_blank (text : Text) : Text.trim (' ' :: text) = Text.trim text := by
  simp [Text.trim, Text.isSpace]

theorem trim_append_blank (text : Text) : Text.trim (text ++ [' ']) = Text.trim text := by
  simp only [Text.trim, List.dropWhile_append]
  split_ifs with blank
  · simp [List.isEmpty_iff.mp blank, Text.isSpace]
  · simp [Text.isSpace]

/-- An item that is one part of a list, and that its text reads back as. -/
structure ReadsAsItem (last : Bool) (item : Text × Text) : Prop where
  named : item.1 ≠ []
  trimmed : Text.trim item.1 = item.1
  maskTrimmed : Text.trim item.2 = item.2
  uncut : '=' ∉ item.1
  part : isPart last 0 (itemText item) = true

/-- Every item is a part of the list by itself. -/
def WrittenApart : ColumnItems → Prop
  | [] => True
  | [item] => ReadsAsItem true item
  | item :: rest => ReadsAsItem false item ∧ WrittenApart rest

theorem columnItem_itemText {item : Text × Text} (trimmed : Text.trim item.1 = item.1)
    (maskTrimmed : Text.trim item.2 = item.2) (uncut : '=' ∉ item.1) : columnItem (itemText item) = item := by
  have before : ∀ c ∈ item.1, decide (c ≠ '=') = true := by
    intro c member
    simp only [decide_eq_true_eq]
    rintro rfl
    exact uncut member
  unfold itemText
  split_ifs with unmasked
  · have none : item.1.dropWhile (· ≠ '=') = [] := List.dropWhile_eq_nil_iff.mpr before
    rw [columnItem, none]
    exact Prod.ext rfl unmasked.symm
  · have dropped : (item.1 ++ " = ".toList ++ item.2).dropWhile (· ≠ '=') = '=' :: ' ' :: item.2 := by
      rw [List.append_assoc, List.dropWhile_append_of_pos before]
      rfl
    have taken : (item.1 ++ " = ".toList ++ item.2).takeWhile (· ≠ '=') = item.1 ++ [' '] := by
      rw [List.append_assoc, List.takeWhile_append_of_pos before]
      rfl
    rw [columnItem, dropped, taken]
    exact Prod.ext ((trim_append_blank _).trans trimmed) ((trim_blank _).trans maskTrimmed)

/-- The text of an item has no blanks at its ends. -/
private theorem trim_itemText {item : Text × Text} (named : item.1 ≠ []) (trimmed : Text.trim item.1 = item.1)
    (maskTrimmed : Text.trim item.2 = item.2) : Text.trim (itemText item) = itemText item := by
  obtain ⟨first, last⟩ := Text.trim_ends item.1
  obtain ⟨_, lastMask⟩ := Text.trim_ends item.2
  rw [trimmed] at first last
  rw [maskTrimmed] at lastMask
  unfold itemText
  split_ifs with unmasked
  · exact trimmed
  · apply Text.trim_eq_self
    · intro c head
      refine first c ?_
      obtain ⟨d, rest, name⟩ := List.exists_cons_of_ne_nil named
      rw [name] at head ⊢
      exact head
    · intro c ending
      rw [List.getLast?_append_of_ne_nil _ unmasked] at ending
      exact lastMask c ending

/-- Nothing is one empty part. -/
@[simp] theorem splitTopLevel_nil (delimiter : Char) : splitTopLevel [] delimiter = [[]] := by
  simp [splitTopLevel, splitFrom, Text.trim]

theorem splitTopLevel_itemsCsv {items : ColumnItems} (apart : WrittenApart items) (some : items ≠ []) :
    splitTopLevel (itemsCsv items) ',' = items.map itemText := by
  have split : ∀ current, (current = [] ∨ current = [' ']) →
      (splitFrom ',' current 0 (itemsCsv items)).map Text.trim = items.map itemText := by
    induction items with
    | nil => exact absurd rfl some
    | cons item rest ih =>
      intro current blank
      have led : ∀ text, Text.trim (current ++ text) = Text.trim text := by
        intro text
        rcases blank with rfl | rfl
        · rfl
        · exact trim_blank text
      cases rest with
      | nil =>
        have reads : ReadsAsItem true item := apart
        rw [itemsCsv_eq, List.map_singleton, List.intercalate_singleton, splitFrom_last reads.part, List.map_singleton, led,
          trim_itemText reads.named reads.trimmed reads.maskTrimmed]
      | cons next rest =>
        obtain ⟨reads, later⟩ : ReadsAsItem false item ∧ WrittenApart (next :: rest) := apart
        have joined : itemsCsv (item :: next :: rest) = itemText item ++ ',' :: ' ' :: itemsCsv (next :: rest) := by
          simp [itemsCsv_eq, List.intercalate]
        have follows : Unquoted (',' :: ' ' :: itemsCsv (next :: rest)) := by
          intro c first
          cases first
          decide
        rw [joined, splitFrom_part reads.part follows, splitFrom, if_neg (by decide), if_neg (by decide),
          if_neg (by decide), if_pos ⟨rfl, rfl⟩, splitFrom, if_neg (by decide), if_neg (by decide), if_neg (by decide),
          if_neg (by decide), List.map_cons, List.nil_append, ih later (by simp) [' '] (.inr rfl), led,
          trim_itemText reads.named reads.trimmed reads.maskTrimmed]
        rfl
  exact split [] (.inl rfl)

/-- Items that are written apart are read back. -/
theorem parseColumnList_itemsCsv {items : ColumnItems} (apart : WrittenApart items) :
    parseColumnList (itemsCsv items) = items := by
  have each : ∀ item ∈ items, ∃ last, ReadsAsItem last item := by
    induction items with
    | nil => simp
    | cons item rest ih =>
      cases rest with
      | nil => exact fun other member => ⟨true, List.mem_singleton.mp member ▸ apart⟩
      | cons next rest =>
        intro other member
        rcases List.mem_cons.mp member with rfl | later
        · exact ⟨false, apart.1⟩
        · exact ih apart.2 other later
  by_cases none : items = []
  · subst none
    simp [parseColumnList, itemsCsv]
  · rw [parseColumnList, splitTopLevel_itemsCsv apart none, List.filter_eq_self.mpr, List.map_map]
    · refine (List.map_congr_left fun item member => ?_).trans (List.map_id items)
      obtain ⟨last, reads⟩ := each item member
      exact columnItem_itemText reads.trimmed reads.maskTrimmed reads.uncut
    · intro text member
      obtain ⟨item, inside, rfl⟩ := List.mem_map.mp member
      obtain ⟨last, reads⟩ := each item inside
      have given := reads.named
      unfold itemText
      split_ifs <;> simp [given]

end DuckAcl
