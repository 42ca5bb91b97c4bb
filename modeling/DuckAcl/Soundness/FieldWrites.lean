import DuckAcl.Library.Outcome
import DuckAcl.Model.FieldWrites
import DuckAcl.Soundness.FieldLists
import DuckAcl.Soundness.TreeMerge

/-! # A narrowed write keeps what the role does not see

Position by position, the value that `CompileWrite` makes is the stored one where the tree hides it, the written one where
the tree shows it, and the mask where the tree masks it, except below a struct that stays NULL. A write is refused exactly
where it carries a field that a partial node does not list; and what was written is read back.
-/

namespace DuckAcl

open NamedFields

namespace StructValue

/-- A field of a value; what is not there is NULL. -/
def field (value : StructValue) (name : Text) : StructValue :=
  match value with
  | .struct fields => (lookup fields name).getD .null
  | _ => .null

@[simp] theorem null_field (name : Text) : field .null name = .null := rfl

theorem field_congr (value : StructValue) {name name' : Text} (same : Text.ciEquals name name' = true) :
    value.field name = value.field name' := by
  cases value with
  | struct fields => rw [field, field, lookup_congr fields same]
  | _ => rfl

theorem extract_ok {value extracted : StructValue} {name : Text} (ran : value.extract name = .ok extracted) :
    extracted = value.field name := by
  cases value with
  | null => exact (Except.ok.inj ran).symm
  | atom text => cases ran
  | struct fields =>
    rw [extract] at ran
    rw [field]
    cases found : lookup fields name with
    | none =>
      simp only [found] at ran
      cases ran
    | some there =>
      simp only [found] at ran
      exact (Except.ok.inj ran).symm

/-- The value at a path. -/
def atPath (value : StructValue) : List Step → StructValue
  | [] => value
  | .field name :: path => (value.field name).atPath path
  | .element :: _ => .null

/-- The value at a path, if there is a position. -/
def position (value : StructValue) : List Step → Option StructValue
  | [] => some value
  | .field name :: path => match value with
    | .struct fields => (lookup fields name).bind (·.position path)
    | _ => none
  | .element :: _ => none

@[simp] theorem null_atPath (path : List Step) : atPath .null path = .null := by
  induction path with
  | nil => rfl
  | cons step path ih =>
    cases step with
    | field name => exact ih
    | element => rfl

theorem structUpdate_field {value updated : StructValue} {updates : List (Text × StructValue)} {name : Text}
    (ran : value.structUpdate updates = .ok updated) : updated.field name = (lookup updates name).getD (value.field name) := by
  cases value with
  | null => rw [← Except.ok.inj ran]; rfl
  | atom text => cases ran
  | struct fields =>
    rw [← Except.ok.inj ran, field, lookup_updated, field]
    cases lookup updates name <;> rfl

theorem structPack_field {packed : StructValue} {fields : List (Text × StructValue)} {name : Text}
    (ran : structPack fields = .ok packed) : packed.field name = (lookup fields name).getD .null := by
  rw [← Except.ok.inj ran]
  rfl

/-- An updated or packed field is there. -/
theorem structUpdate_extract {value updated entry : StructValue} {updates : List (Text × StructValue)} {name : Text}
    (ran : value.structUpdate updates = .ok updated) (there : lookup updates name = some entry) : updated.extract name = .ok entry := by
  cases value with
  | null =>
    rw [← Except.ok.inj ran, extract, there]
  | atom text => cases ran
  | struct fields =>
    rw [← Except.ok.inj ran, extract, lookup_updated, there]
    rfl

theorem structPack_extract {packed entry : StructValue} {fields : List (Text × StructValue)} {name : Text}
    (ran : structPack fields = .ok packed) (there : lookup fields name = some entry) : packed.extract name = .ok entry := by
  rw [← Except.ok.inj ran, extract, there]

theorem eq_null_of_isNull {value : StructValue} (none : value.isNull = true) : value = .null := by
  cases value with
  | null => rfl
  | _ => cases none

end StructValue

open StructValue

/-! ## One level of a write -/

section Write

variable {masks : Text → StructValue} {written : Evaluated} {stored : Option Evaluated} {node : FieldNode}
  {value : StructValue} {fields : List FieldNode}

/-- The value a write folds into; NULL where nothing is stored. -/
def storedValue : Option Evaluated → StructValue
  | some (.ok value) => value
  | _ => .null

private theorem storedValue_extract (stored : Option Evaluated) (name : Text) :
    storedValue (stored.map fun stored => stored.bind (extract · name)) = (storedValue stored).field name := by
  rcases stored with _ | refusal | value
  · rfl
  · rfl
  · cases value with
    | null => rfl
    | atom text => rfl
    | struct fields =>
      rw [Option.map_some, Except.bind, extract, storedValue, field]
      cases lookup fields name <;> rfl

private theorem writeFields_lookup {updates : List (Text × StructValue)} (ran : writeFields masks written stored fields = .ok updates)
    (name : Text) :
    ((fields.find? fun child => Text.ciEquals child.name name) = none ∧ lookup updates name = none) ∨
      ∃ child entry, (fields.find? fun child => Text.ciEquals child.name name) = some child ∧ lookup updates name = some entry ∧
        writeNode masks (written.bind (extract · child.name)) (stored.map fun stored => stored.bind (extract · child.name)) child =
          .ok entry := by
  induction fields generalizing updates with
  | nil =>
    rw [← Except.ok.inj ran]
    exact .inl ⟨rfl, rfl⟩
  | cons child rest ih =>
    rw [writeFields] at ran
    obtain ⟨entry, here, ran⟩ := Outcome.bind_eq_ok.mp ran
    obtain ⟨others, later, ran⟩ := Outcome.bind_eq_ok.mp ran
    rw [← Except.ok.inj ran, List.find?_cons]
    cases same : Text.ciEquals child.name name with
    | true => exact .inr ⟨child, entry, rfl, lookup_cons_same _ same, here⟩
    | false =>
      rw [lookup_cons_other _ same]
      exact ih later

/-- What updated or packed fields make of one name. -/
private theorem fields_step {w rest : StructValue} {inner : Option Evaluated} {updates : List (Text × StructValue)} {name : Text}
    (is : written = .ok w) (made : writeFields masks written inner fields = .ok updates)
    (reads : value.field name = (lookup updates name).getD rest)
    (there : ∀ entry, lookup updates name = some entry → value.extract name = .ok entry)
    (before : ∀ name, storedValue (inner.map fun stored => stored.bind (extract · name)) = (storedValue stored).field name) :
    ((fields.find? fun child => Text.ciEquals child.name name) = none ∧ value.field name = rest) ∨
      ∃ child stored', (fields.find? fun child => Text.ciEquals child.name name) = some child ∧
        storedValue stored' = (storedValue stored).field name ∧ value.extract name = .ok (value.field name) ∧
        writeNode masks (w.extract child.name) stored' child = .ok (value.field name) := by
  rcases writeFields_lookup made name with ⟨none, missing⟩ | ⟨child, entry, found, given, wrote⟩
  · exact .inl ⟨none, by rw [reads, missing]; rfl⟩
  · have same := List.find?_some found
    have is' : value.field name = entry := by rw [reads, given, Option.getD_some]
    refine .inr ⟨child, _, found, (before child.name).trans (field_congr _ same), is' ▸ there entry given, ?_⟩
    rw [is', ← wrote, is]
    rfl

/-- What a write makes of one name: a struct that stays NULL, a field the tree says nothing of, or a child's value. -/
private theorem writeNode_step (unmasked : node.masked = false) (ran : writeNode masks written stored node = .ok value) (name : Text) :
    ∃ w, written = .ok w ∧
      ((w = .null ∧ (node.whole = true ∨ storedValue stored = .null) ∧ value = .null) ∨
      (node.find name = none ∧ value.field name = if node.whole then w.field name else (storedValue stored).field name) ∨
      ∃ child stored', node.find name = some child ∧ storedValue stored' = (storedValue stored).field name ∧
        value.extract name = .ok (value.field name) ∧
        writeNode masks (w.extract child.name) stored' child = .ok (value.field name)) := by
  obtain ⟨own, whole, masked, mask, fields, element⟩ := node
  subst unmasked
  rw [writeNode, if_neg Bool.false_ne_true] at ran
  -- the fresh form, where nothing is stored
  have packed {w : StructValue} (is : written = .ok w) (nothing : storedValue stored = .null)
      (ran : (if w.isNull then .ok .null else (do structPack (← writeFields masks written none fields)) : Evaluated) = .ok value) :
      (w = .null ∧ (false = true ∨ storedValue stored = .null) ∧ value = .null) ∨
        ((fields.find? fun child => Text.ciEquals child.name name) = none ∧ value.field name = (storedValue stored).field name) ∨
        ∃ child stored', (fields.find? fun child => Text.ciEquals child.name name) = some child ∧
          storedValue stored' = (storedValue stored).field name ∧ value.extract name = .ok (value.field name) ∧
          writeNode masks (w.extract child.name) stored' child = .ok (value.field name) := by
    split_ifs at ran with isNull
    · exact .inl ⟨eq_null_of_isNull isNull, .inr nothing, (Except.ok.inj ran).symm⟩
    · obtain ⟨updates, made, ran⟩ := Outcome.bind_eq_ok.mp ran
      refine .inr (fields_step is made ?_ (fun entry => structPack_extract ran) fun name => ?_)
      · rw [structPack_field ran, nothing, null_field]
      · rw [nothing, null_field]
        rfl
  cases whole with
  | true =>
    rw [if_pos rfl] at ran
    split_ifs at ran with empty
    · rw [List.isEmpty_iff] at empty
      subst empty
      exact ⟨value, ran, .inr (.inl ⟨rfl, rfl⟩)⟩
    · obtain ⟨w, is, ran⟩ := Outcome.bind_eq_ok.mp ran
      refine ⟨w, is, ?_⟩
      split_ifs at ran with isNull
      · exact .inl ⟨eq_null_of_isNull isNull, .inl rfl, (Except.ok.inj ran).symm⟩
      · obtain ⟨updates, made, ran⟩ := Outcome.bind_eq_ok.mp ran
        exact .inr (fields_step is made (structUpdate_field ran) (fun entry => structUpdate_extract ran) (storedValue_extract stored))
  | false =>
    rw [if_neg Bool.false_ne_true] at ran
    obtain ⟨w, is, ran⟩ := Outcome.bind_eq_ok.mp ran
    obtain ⟨foreign, -, ran⟩ := Outcome.bind_eq_ok.mp ran
    refine ⟨w, is, ?_⟩
    cases foreign with
    | true => cases ran
    | false =>
      rw [if_neg Bool.false_ne_true] at ran
      cases stored with
      | none => exact packed is rfl ran
      | some stored =>
        obtain ⟨before, isStored, ran⟩ := Outcome.bind_eq_ok.mp ran
        subst isStored
        by_cases isNull : before.isNull = true
        · rw [if_pos isNull] at ran
          exact packed is (eq_null_of_isNull isNull) ran
        · rw [if_neg isNull] at ran
          obtain ⟨updates, made, ran⟩ := Outcome.bind_eq_ok.mp ran
          exact .inr (fields_step is made (structUpdate_field ran) (fun entry => structUpdate_extract ran) (storedValue_extract (some (.ok before))))

/-- An expression that has a value has one to begin with, unless it is masked. -/
private theorem writeNode_written (unmasked : node.masked = false) (ran : writeNode masks written stored node = .ok value) :
    ∃ w, written = .ok w := by
  obtain ⟨w, is, -⟩ := writeNode_step unmasked ran []
  exact ⟨w, is⟩

end Write

/-! ## Whole paths -/

section Paths

variable {masks : Text → StructValue} {written : Evaluated} {stored : Option Evaluated} {node : FieldNode}
  {value w : StructValue} {step : Step} {path : List Step}

/-- What the tree shows whole: nothing on the way is masked, and nothing below. -/
def FieldNode.shows (node : FieldNode) (path : List Step) : Bool := node.walk FieldNode.plain path

/-- What the tree hides: it has no position there, and no mask on the way. -/
def FieldNode.Hides (node : FieldNode) (path : List Step) : Prop := node.free path = false ∧ node.maskOn path = none

private theorem Hides.unmasked (hides : node.Hides path) : node.masked = false := by
  rw [Bool.eq_false_iff]
  intro masked
  rw [FieldNode.Hides, FieldNode.maskOn_of_masked masked] at hides
  cases hides.2

private theorem childOr_field (node : FieldNode) (name : Text) : node.childOr (.field name) =
    (node.find name).or (if node.whole then some (wholeNode name) else none) := by
  rw [FieldNode.childOr, childOrWhole]
  cases node.find name <;> rfl

private theorem shows_cons (unmasked : node.masked = false) (name : Text) :
    node.shows (.field name :: path) = (node.childOr (.field name)).any (·.shows path) :=
  FieldNode.walk_cons unmasked _ _ _

private theorem shows_unmasked (shown : node.shows path = true) : node.masked = false := by
  cases path with
  | nil =>
    simp only [FieldNode.shows, FieldNode.walk, Bool.and_eq_true, Bool.not_eq_true'] at shown
    exact shown.1
  | cons step path =>
    simp only [FieldNode.shows, FieldNode.walk, Bool.and_eq_true, Bool.not_eq_true'] at shown
    exact shown.1

/-- What the tree shows is as written. -/
theorem writeNode_shown (shown : node.shows path = true) (ran : writeNode masks written stored node = .ok value) :
    ∃ w, written = .ok w ∧ value.atPath path = w.atPath path := by
  induction path generalizing node written stored value with
  | nil =>
    obtain ⟨name, whole, masked, mask, fields, element⟩ := node
    simp only [FieldNode.shows, FieldNode.walk, FieldNode.plain, Bool.and_eq_true, Bool.not_eq_true', List.isEmpty_iff,
      Option.isNone_iff_eq_none] at shown
    obtain ⟨rfl, ⟨⟨rfl, -⟩, rfl⟩, rfl⟩ := shown
    exact ⟨value, by simpa [writeNode] using ran, rfl⟩
  | cons step path ih =>
    have unmasked := shows_unmasked shown
    cases step with
    | element =>
      obtain ⟨w, is⟩ := writeNode_written unmasked ran
      exact ⟨w, is, rfl⟩
    | field name =>
      obtain ⟨w, is, step⟩ := writeNode_step unmasked ran name
      refine ⟨w, is, ?_⟩
      rw [atPath, atPath]
      rw [shows_cons unmasked, childOr_field] at shown
      rcases step with ⟨rfl, -, rfl⟩ | ⟨absent, reads⟩ | ⟨child, stored', found, -, -, wrote⟩
      · rfl
      · rw [absent, Option.none_or] at shown
        rw [reads]
        cases whole : node.whole with
        | true => rfl
        | false =>
          rw [whole] at shown
          cases shown
      · rw [found, Option.some_or, Option.any_some] at shown
        obtain ⟨inner, extracted, same⟩ := ih shown wrote
        have named := List.find?_some found
        rw [same, extract_ok extracted, field_congr w named]

private theorem hides_cons (hides : node.Hides (step :: path)) {child : FieldNode} (found : node.childOr step = some child) :
    child.Hides path := by
  have unmasked := Hides.unmasked hides
  rw [FieldNode.Hides, FieldNode.free, FieldNode.walk_cons unmasked, FieldNode.maskOn_childOr unmasked, found] at hides
  exact hides

/-- Under a whole position nothing is hidden. -/
private theorem not_hides_whole (tight : node.Tight) (whole : node.whole = true) : ¬node.Hides path := by
  induction path generalizing node with
  | nil =>
    intro hides
    have unmasked := Hides.unmasked hides
    simp [FieldNode.Hides, FieldNode.free, FieldNode.walk, unmasked] at hides
  | cons step path ih =>
    intro hides
    obtain ⟨covered, _, below⟩ := tight
    cases found : node.child step with
    | some child =>
      have hidden := hides_cons hides (FieldNode.childOr_of_child found)
      rcases covered whole step child found with whole' | masked
      · exact ih (below step child found) whole' hidden
      · rw [Hides.unmasked hidden] at masked
        cases masked
    | none =>
      obtain ⟨name, equal⟩ := node.childOr_eq step
      rw [found, whole] at equal
      have hidden := hides_cons hides equal
      rw [FieldNode.Hides, FieldNode.free, FieldNode.plain_reached (fun _ _ => rfl) rfl] at hidden
      cases hidden.1

/-- What the tree hides is as stored. -/
theorem writeNode_hidden (tight : node.Tight) (hides : node.Hides path) (ran : writeNode masks written stored node = .ok value) :
    value.atPath path = (storedValue stored).atPath path := by
  induction path generalizing node written stored value with
  | nil =>
    have unmasked := Hides.unmasked hides
    simp [FieldNode.Hides, FieldNode.free, FieldNode.walk, unmasked] at hides
  | cons step path ih =>
    have unmasked := Hides.unmasked hides
    cases step with
    | element => rfl
    | field name =>
      obtain ⟨w, -, step⟩ := writeNode_step unmasked ran name
      rw [atPath, atPath]
      rcases step with ⟨-, whole | nothing, rfl⟩ | ⟨-, reads⟩ | ⟨child, stored', found, before, -, wrote⟩
      · exact absurd hides (not_hides_whole tight whole)
      · rw [nothing]
      · cases whole : node.whole with
        | true => exact absurd hides (not_hides_whole tight whole)
        | false =>
          rw [whole] at reads
          rw [reads]
          rfl
      · have there : node.child (.field name) = some child := found
        obtain ⟨_, _, below⟩ := tight
        rw [ih (below _ _ there) (hides_cons hides (FieldNode.childOr_of_child there)) wrote, before]

/-- Where a struct above a position stays NULL: a NULL is written over it, and the role has the whole of it, or nothing is
stored there. -/
def FieldNode.StaysNull (node : FieldNode) (written stored : StructValue) : List Step → Prop
  | [] => False
  | .field name :: path => (written = .null ∧ (node.whole = true ∨ stored = .null)) ∨
    ∃ child, node.find name = some child ∧ child.StaysNull (written.field name) (stored.field name) path
  | .element :: _ => False

private theorem noElement_of_flat (flat : hasElementStep node = false) : node.element = none := by
  obtain ⟨name, whole, masked, mask, fields, element⟩ := node
  rw [hasElementStep, Bool.or_eq_false_iff] at flat
  exact Option.isSome_eq_false_iff.mp flat.1 |> Option.isNone_iff_eq_none.mp

private theorem anyElementStep_eq (fields : List FieldNode) : anyElementStep fields = fields.any hasElementStep := by
  induction fields with
  | nil => rfl
  | cons child rest ih => rw [anyElementStep, ih, List.any_cons]

private theorem flat_child (flat : hasElementStep node = false) {child : FieldNode} (member : child ∈ node.fields) :
    hasElementStep child = false := by
  obtain ⟨name, whole, masked, mask, fields, element⟩ := node
  rw [hasElementStep, Bool.or_eq_false_iff, anyElementStep_eq, List.any_eq_false] at flat
  exact Bool.eq_false_iff.mpr (flat.2 child member)

/-- What the tree masks is the mask, except below a struct that stays NULL. -/
theorem writeNode_masked (flat : hasElementStep node = false) {mask : Text} (masked : node.maskAt path = some mask)
    (ran : writeNode masks written stored node = .ok value)
    (open' : ¬node.StaysNull (storedValue (some written)) (storedValue stored) path) : value.atPath path = masks mask := by
  induction path generalizing node written stored value with
  | nil =>
    obtain ⟨name, whole, isMasked, own, fields, element⟩ := node
    rw [FieldNode.maskAt] at masked
    split_ifs at masked with given
    cases masked
    dsimp only at given
    rw [writeNode, if_pos given] at ran
    exact (Except.ok.inj ran).symm
  | cons step path ih =>
    have unmasked : node.masked = false := by
      rw [Bool.eq_false_iff]
      intro given
      rw [FieldNode.maskAt, if_pos given] at masked
      cases masked
    rw [FieldNode.maskAt_cons unmasked] at masked
    obtain ⟨child, there, below'⟩ := Option.bind_eq_some_iff.mp masked
    cases step with
    | element =>
      rw [FieldNode.child, noElement_of_flat flat] at there
      cases there
    | field name =>
      obtain ⟨w, rfl, step⟩ := writeNode_step unmasked ran name
      rw [FieldNode.StaysNull, not_or] at open'
      obtain ⟨open', below⟩ := open'
      rw [atPath]
      rcases step with ⟨is, stays, -⟩ | ⟨absent, -⟩ | ⟨child', stored', found, before, -, wrote⟩
      · exact absurd ⟨is, stays⟩ open'
      · rw [FieldNode.child, absent] at there
        cases there
      · rw [FieldNode.child, found] at there
        cases there
        have named := List.find?_some found
        refine ih (flat_child flat (List.mem_of_find?_eq_some found)) below' wrote fun stays => below ⟨child, found, ?_⟩
        have same := storedValue_extract (some (.ok w)) child.name
        rw [before] at stays
        simp only [Option.map_some, Except.bind] at same
        rw [same] at stays
        rw [← field_congr _ named]
        exact stays

end Paths

/-! ## When a write is refused -/

/-- A value has the fields that the tree names, unmasked, at every level; a NULL has them all. -/
inductive FieldNode.FitsValue : FieldNode → StructValue → Prop
  | masked {node : FieldNode} {value : StructValue} (masked : node.masked = true) : FitsValue node value
  | plain {node : FieldNode} {value : StructValue} (whole : node.whole = true) (none : node.fields = []) : FitsValue node value
  | null {node : FieldNode} : FitsValue node .null
  | struct {node : FieldNode} {fields : List (Text × StructValue)}
      (there : ∀ child ∈ node.fields, child.masked = false → (lookup fields child.name).isSome = true)
      (below : ∀ child ∈ node.fields, child.masked = false → FitsValue child ((StructValue.struct fields).field child.name)) :
      FitsValue node (.struct fields)

/-- A written value carries a field that a partial position does not list. -/
inductive FieldNode.Carries : FieldNode → StructValue → Prop
  | here {node : FieldNode} {fields : List (Text × StructValue)} {field : Text × StructValue} (unmasked : node.masked = false)
      (narrowed : node.whole = false) (member : field ∈ fields)
      (unlisted : ∀ child ∈ node.fields, Text.ciEquals child.name field.1 = false) : Carries node (.struct fields)
  | deeper {node child : FieldNode} {value : StructValue} (unmasked : node.masked = false) (member : child ∈ node.fields)
      (carries : Carries child (value.field child.name)) : Carries node value

section Refusals

variable {masks : Text → StructValue} {node : FieldNode} {w : StructValue} {fields : List FieldNode}

private theorem not_carries_null : ¬node.Carries .null := by
  intro carries
  generalize is : StructValue.null = value at carries
  induction carries with
  | here => cases is
  | deeper unmasked member carries ih => exact ih (by rw [← is]; rfl)

private theorem not_carries_masked (masked : node.masked = true) : ¬node.Carries w := by
  intro carries
  cases carries with
  | here unmasked => rw [masked] at unmasked; cases unmasked
  | deeper unmasked => rw [masked] at unmasked; cases unmasked

/-- A value with the fields of a level, and the values below. -/
private def LevelFits (fields : List FieldNode) (value : StructValue) : Prop :=
  ∀ child ∈ fields, child.masked = false → value.extract child.name = .ok (value.field child.name) ∧
    child.FitsValue (value.field child.name)

private theorem fitsValue_level (unmasked : node.masked = false) (steps : ¬(node.whole = true ∧ node.fields = []))
    (fits : node.FitsValue w) : LevelFits node.fields w ∧ ∀ text, w ≠ .atom text := by
  cases fits with
  | masked masked =>
    rw [unmasked] at masked
    cases masked
  | plain whole none => exact absurd ⟨whole, none⟩ steps
  | null => exact ⟨fun child _ _ => ⟨rfl, .null⟩, fun text => by simp⟩
  | struct there below =>
    refine ⟨fun child member unmasked' => ⟨?_, below child member unmasked'⟩, fun text => by simp⟩
    obtain ⟨value, found⟩ := Option.isSome_iff_exists.mp (there child member unmasked')
    rw [extract, field, found]
    rfl

private theorem foreign_struct (own : List (Text × StructValue)) (fields : List FieldNode) : ∃ carries,
    (StructValue.struct own).foreign (fields.map FieldNode.name) = .ok carries ∧
      (carries = true ↔ ∃ field ∈ own, ∀ child ∈ fields, Text.ciEquals child.name field.1 = false) := by
  refine ⟨_, rfl, ?_⟩
  rw [List.any_eq_true]
  refine exists_congr fun field => and_congr_right fun _ => ?_
  have listed : ((fields.map FieldNode.name).map Text.fold).contains (Text.fold field.1) =
      fields.any fun child => Text.ciEquals child.name field.1 := by
    rw [List.contains_eq_any_beq, List.any_map, List.any_map]
    refine List.any_congr rfl fun child => ?_
    rw [Function.comp_apply, Function.comp_apply, Text.ciEquals, Bool.beq_comm]
  rw [listed, Bool.not_eq_true', List.any_eq_false]
  simp only [Bool.not_eq_true]

/-- Evaluated arguments. -/
private def given (stored : Option StructValue) : Option Evaluated := stored.map Except.ok

mutual

/-- A write goes through, unless it carries a field that a partial position does not list: then it is refused. -/
private theorem writeNode_total (masks : Text → StructValue) : ∀ (node : FieldNode) (w : StructValue) (stored : Option StructValue),
    node.FitsValue w → (∀ before ∈ stored, node.FitsValue before) →
    (node.Carries w ∧ writeNode masks (.ok w) (given stored) node = .error .refused) ∨
      (¬node.Carries w ∧ ∃ value, writeNode masks (.ok w) (given stored) node = .ok value)
  | ⟨name, whole, masked, mask, fields, element⟩, w, stored, fits, storedFits => by
    have level := writeFields_total masks fields
    cases masked with
    | true => exact .inr ⟨not_carries_masked rfl, masks mask, by rw [writeNode, if_pos rfl]⟩
    | false =>
      by_cases plain : whole = true ∧ fields = []
      · obtain ⟨rfl, rfl⟩ := plain
        refine .inr ⟨fun carries => ?_, w, rfl⟩
        cases carries with
        | here _ narrowed => cases narrowed
        | deeper _ member => cases member
      · obtain ⟨fitsLevel, noAtom⟩ := fitsValue_level rfl plain fits
        have storedLevel : ∀ before ∈ stored, LevelFits fields before ∧ ∀ text, before ≠ .atom text :=
          fun before is => fitsValue_level rfl plain (storedFits before is)
        cases whole with
        | true =>
          have steps : fields.isEmpty = false := by
            rw [List.isEmpty_eq_false_iff]
            exact fun none => plain ⟨rfl, none⟩
          cases w with
          | null => exact .inr ⟨not_carries_null, .null, by rw [writeNode, if_neg Bool.false_ne_true, if_pos rfl, steps]; rfl⟩
          | atom text => exact absurd rfl (noAtom text)
          | struct own =>
            rcases level (.struct own) stored fitsLevel (fun before is => (storedLevel before is).1) with
              ⟨⟨child, member, carries⟩, refuses⟩ | ⟨free, updates, made⟩
            · refine .inl ⟨.deeper rfl member carries, ?_⟩
              rw [writeNode, if_neg Bool.false_ne_true, if_pos rfl, steps, if_neg Bool.false_ne_true, refuses]
              rfl
            · refine .inr ⟨fun carries => ?_, .struct (updated own updates), ?_⟩
              · cases carries with
                | here _ narrowed => cases narrowed
                | deeper _ member carries => exact free _ member carries
              · rw [writeNode, if_neg Bool.false_ne_true, if_pos rfl, steps, if_neg Bool.false_ne_true, made]
                rfl
        | false =>
          cases w with
          | atom text => exact absurd rfl (noAtom text)
          | null =>
            refine .inr ⟨not_carries_null, ?_⟩
            rcases stored with _ | _ | text | before
            · exact ⟨.null, rfl⟩
            · exact ⟨.null, rfl⟩
            · exact absurd rfl ((storedLevel _ rfl).2 text)
            · rcases level .null (some (.struct before)) fitsLevel (fun value is => (storedLevel value is).1) with
                ⟨⟨child, _, carries⟩, -⟩ | ⟨-, updates, made⟩
              · exact absurd carries not_carries_null
              · refine ⟨.struct (updated before updates), ?_⟩
                have made : writeFields masks (.ok .null) (some (.ok (.struct before))) fields = .ok updates := made
                rw [writeNode, if_neg Bool.false_ne_true, if_neg Bool.false_ne_true]
                simp only [given, Option.map_some, bind, Except.bind, foreign, Bool.false_eq_true, if_false, isNull, made,
                  structUpdate]
          | struct own =>
            obtain ⟨carries, test, unlisted⟩ := foreign_struct own fields
            cases carries with
            | true =>
              obtain ⟨field, member, unlisted⟩ := unlisted.mp rfl
              refine .inl ⟨.here rfl rfl member unlisted, ?_⟩
              rw [writeNode, if_neg Bool.false_ne_true, if_neg Bool.false_ne_true]
              simp only [bind, Except.bind, test, if_true]
            | false =>
              have free (below : ∀ child ∈ fields, ¬child.Carries ((StructValue.struct own).field child.name)) :
                  ¬(⟨name, false, false, mask, fields, element⟩ : FieldNode).Carries (.struct own) := by
                intro carries
                cases carries with
                | here _ _ member unlisted' =>
                  have none := unlisted.mpr ⟨_, member, unlisted'⟩
                  cases none
                | deeper _ member carries => exact below _ member carries
              rcases stored with _ | _ | text | before
              · rcases level (.struct own) none fitsLevel nofun with ⟨⟨child, member, carries⟩, refuses⟩ | ⟨below, updates, made⟩
                · refine .inl ⟨.deeper rfl member carries, ?_⟩
                  rw [given, Option.map_none] at refuses
                  rw [writeNode, if_neg Bool.false_ne_true, if_neg Bool.false_ne_true]
                  simp only [given, Option.map_none, bind, Except.bind, test, Bool.false_eq_true, if_false, isNull, refuses]
                · refine .inr ⟨free below, .struct updates, ?_⟩
                  rw [given, Option.map_none] at made
                  rw [writeNode, if_neg Bool.false_ne_true, if_neg Bool.false_ne_true]
                  simp only [given, Option.map_none, bind, Except.bind, test, Bool.false_eq_true, if_false, isNull, made, structPack]
              · rcases level (.struct own) none fitsLevel nofun with ⟨⟨child, member, carries⟩, refuses⟩ | ⟨below, updates, made⟩
                · refine .inl ⟨.deeper rfl member carries, ?_⟩
                  rw [given, Option.map_none] at refuses
                  rw [writeNode, if_neg Bool.false_ne_true, if_neg Bool.false_ne_true]
                  simp only [given, Option.map_some, bind, Except.bind, test, Bool.false_eq_true, if_false, if_true, isNull, refuses]
                · refine .inr ⟨free below, .struct updates, ?_⟩
                  rw [given, Option.map_none] at made
                  rw [writeNode, if_neg Bool.false_ne_true, if_neg Bool.false_ne_true]
                  simp only [given, Option.map_some, bind, Except.bind, test, Bool.false_eq_true, if_false, if_true, isNull, made,
                    structPack]
              · exact absurd rfl ((storedLevel _ rfl).2 text)
              · rcases level (.struct own) (some (.struct before)) fitsLevel (fun value is => (storedLevel value is).1) with
                  ⟨⟨child, member, carries⟩, refuses⟩ | ⟨below, updates, made⟩
                · refine .inl ⟨.deeper rfl member carries, ?_⟩
                  rw [given, Option.map_some] at refuses
                  rw [writeNode, if_neg Bool.false_ne_true, if_neg Bool.false_ne_true]
                  simp only [given, Option.map_some, bind, Except.bind, test, Bool.false_eq_true, if_false, isNull, refuses]
                · refine .inr ⟨free below, .struct (updated before updates), ?_⟩
                  rw [given, Option.map_some] at made
                  rw [writeNode, if_neg Bool.false_ne_true, if_neg Bool.false_ne_true]
                  simp only [given, Option.map_some, bind, Except.bind, test, Bool.false_eq_true, if_false, isNull, made, structUpdate]

private theorem writeFields_total (masks : Text → StructValue) : ∀ (fields : List FieldNode) (w : StructValue) (stored : Option StructValue),
    LevelFits fields w → (∀ before ∈ stored, LevelFits fields before) →
    ((∃ child ∈ fields, child.Carries (w.field child.name)) ∧ writeFields masks (.ok w) (given stored) fields = .error .refused) ∨
      ((∀ child ∈ fields, ¬child.Carries (w.field child.name)) ∧
        ∃ updates, writeFields masks (.ok w) (given stored) fields = .ok updates)
  | [], w, stored, _, _ => .inr ⟨fun _ member => absurd member List.not_mem_nil, [], rfl⟩
  | child :: rest, w, stored, fits, storedFits => by
    have later := writeFields_total masks rest w stored (fun other member => fits other (List.mem_cons_of_mem _ member))
      fun before is other member => storedFits before is other (List.mem_cons_of_mem _ member)
    have here : (child.Carries (w.field child.name) ∧ writeNode masks (w.extract child.name)
          ((given stored).map fun stored => stored.bind (extract · child.name)) child = .error .refused) ∨
        (¬child.Carries (w.field child.name) ∧ ∃ value, writeNode masks (w.extract child.name)
          ((given stored).map fun stored => stored.bind (extract · child.name)) child = .ok value) := by
      cases masked : child.masked with
      | true =>
        refine .inr ⟨not_carries_masked masked, masks child.mask, ?_⟩
        obtain ⟨name, whole, isMasked, mask, fields, element⟩ := child
        rw [writeNode, if_pos masked]
      | false =>
        obtain ⟨extracted, below⟩ := fits child List.mem_cons_self masked
        have before : ((given stored).map fun stored => stored.bind (extract · child.name)) =
            given (stored.map (field · child.name)) := by
          cases stored with
          | none => rfl
          | some before => exact congrArg some (storedFits before rfl child List.mem_cons_self masked).1
        rw [extracted, before]
        refine writeNode_total masks child (w.field child.name) (stored.map (field · child.name)) below ?_
        intro inner is
        obtain ⟨before, isStored, rfl⟩ := Option.map_eq_some_iff.mp is
        exact (storedFits before isStored child List.mem_cons_self masked).2
    rw [writeFields]
    rcases here with ⟨carries, refuses⟩ | ⟨free, value, wrote⟩
    · refine .inl ⟨⟨child, List.mem_cons_self, carries⟩, ?_⟩
      rw [Except.bind, refuses]
      rfl
    · rw [Except.bind, wrote]
      rcases later with ⟨⟨other, member, carries⟩, refuses⟩ | ⟨free', updates, made⟩
      · refine .inl ⟨⟨other, List.mem_cons_of_mem _ member, carries⟩, ?_⟩
        rw [refuses]
        rfl
      · refine .inr ⟨fun other member => ?_, (child.name, value) :: updates, by rw [made]; rfl⟩
        rcases List.mem_cons.mp member with rfl | member
        · exact free
        · exact free' other member

end

end Refusals

/-! ## What an INSERT leaves out -/

section Inserts

variable {masks : Text → StructValue} {written : Evaluated} {node : FieldNode} {value : StructValue} {path : List Step}

private theorem insert_step (unmasked : node.masked = false) (narrowed : node.whole = false)
    (ran : writeNode masks written none node = .ok value) :
    value = .null ∨ ∃ updates, value = .struct updates ∧ writeFields masks written none node.fields = .ok updates := by
  obtain ⟨name, whole, masked, mask, fields, element⟩ := node
  subst unmasked narrowed
  rw [writeNode, if_neg Bool.false_ne_true, if_neg Bool.false_ne_true] at ran
  obtain ⟨w, is, ran⟩ := Outcome.bind_eq_ok.mp ran
  obtain ⟨foreign, -, ran⟩ := Outcome.bind_eq_ok.mp ran
  cases foreign with
  | true => cases ran
  | false =>
    rw [if_neg Bool.false_ne_true] at ran
    by_cases isNull : w.isNull = true
    · simp only [isNull, if_true] at ran
      exact .inl (Except.ok.inj ran).symm
    · simp only [isNull, Bool.false_eq_true, if_false] at ran
      obtain ⟨updates, made, ran⟩ := Outcome.bind_eq_ok.mp ran
      exact .inr ⟨updates, (Except.ok.inj ran).symm, made⟩

/-- An INSERT has no position where the tree hides it. -/
theorem insert_hidden (tight : node.Tight) (hides : node.Hides path) (ran : writeNode masks written none node = .ok value) :
    value.position path = none := by
  induction path generalizing node written value with
  | nil =>
    have unmasked := Hides.unmasked hides
    simp [FieldNode.Hides, FieldNode.free, FieldNode.walk, unmasked] at hides
  | cons step path ih =>
    have unmasked := Hides.unmasked hides
    have narrowed : node.whole = false := by
      rw [Bool.eq_false_iff]
      exact fun whole => not_hides_whole tight whole hides
    cases step with
    | element => rfl
    | field name =>
      rcases insert_step unmasked narrowed ran with rfl | ⟨updates, rfl, made⟩
      · rfl
      · rw [position]
        rcases writeFields_lookup made name with ⟨-, missing⟩ | ⟨child, entry, found, there, wrote⟩
        · rw [missing]
          rfl
        · have isChild : node.child (.field name) = some child := found
          obtain ⟨_, _, below⟩ := tight
          rw [there, Option.bind_some]
          exact ih (below _ _ isChild) (hides_cons hides (FieldNode.childOr_of_child isChild)) wrote

end Inserts

/-! ## Reading back -/

section Reads

variable {masks : Text → StructValue} {node : FieldNode} {read value : StructValue} {source : Evaluated} {path : List Step}

private theorem readFields_lookup {fields : List FieldNode} {updates : List (Text × StructValue)}
    (ran : readFields masks source (compileFields fields) = .ok updates) (name : Text) :
    ((fields.find? fun child => Text.ciEquals child.name name) = none ∧ lookup updates name = none) ∨
      ∃ child entry, (fields.find? fun child => Text.ciEquals child.name name) = some child ∧ lookup updates name = some entry ∧
        readValue masks (source.bind (extract · child.name)) (compileNode child) = .ok entry := by
  induction fields generalizing updates with
  | nil =>
    rw [← Except.ok.inj ran]
    exact .inl ⟨rfl, rfl⟩
  | cons child rest ih =>
    rw [compileFields, readFields] at ran
    obtain ⟨entry, here, ran⟩ := Outcome.bind_eq_ok.mp ran
    obtain ⟨others, later, ran⟩ := Outcome.bind_eq_ok.mp ran
    rw [← Except.ok.inj ran, List.find?_cons]
    cases same : Text.ciEquals child.name name with
    | true => exact .inr ⟨child, entry, rfl, lookup_cons_same _ same, here⟩
    | false =>
      rw [lookup_cons_other _ same]
      exact ih later

/-- What a read makes of one name. -/
private theorem readValue_step (flat : hasElementStep node = false) (unmasked : node.masked = false)
    (ran : readValue masks source (compileNode node) = .ok read) (name : Text) :
    ∃ v, source = .ok v ∧ ((v = .null ∧ read = .null) ∨
      (node.find name = none ∧ (node.whole = true → read.field name = v.field name)) ∨
      ∃ child, node.find name = some child ∧
        readValue masks (v.extract child.name) (compileNode child) = .ok (read.field name)) := by
  have noElement := noElement_of_flat flat
  obtain ⟨own, whole, masked, mask, fields, element⟩ := node
  subst unmasked noElement
  cases whole with
  | true =>
    by_cases empty : fields = []
    · subst empty
      exact ⟨read, ran, .inr (.inl ⟨rfl, fun _ => rfl⟩)⟩
    · have steps : fields.isEmpty = false := List.isEmpty_eq_false_iff.mpr empty
      simp only [compileNode, Bool.false_eq_true, if_false, if_true, steps, readValue] at ran
      obtain ⟨v, is, ran⟩ := Outcome.bind_eq_ok.mp ran
      refine ⟨v, is, ?_⟩
      split_ifs at ran with isNull
      · exact .inl ⟨eq_null_of_isNull isNull, (Except.ok.inj ran).symm⟩
      · obtain ⟨updates, made, ran⟩ := Outcome.bind_eq_ok.mp ran
        have reads : read.field name = (lookup updates name).getD (v.field name) := structUpdate_field ran
        rcases readFields_lookup made name with ⟨none, missing⟩ | ⟨child, entry, found, there, wrote⟩
        · exact .inr (.inl ⟨none, fun _ => by rw [reads, missing]; rfl⟩)
        · refine .inr (.inr ⟨child, found, ?_⟩)
          rw [reads, there, Option.getD_some, ← wrote, is]
          rfl
  | false =>
    simp only [compileNode, Bool.false_eq_true, if_false, readValue] at ran
    obtain ⟨v, is, ran⟩ := Outcome.bind_eq_ok.mp ran
    refine ⟨v, is, ?_⟩
    split_ifs at ran with isNull
    · exact .inl ⟨eq_null_of_isNull isNull, (Except.ok.inj ran).symm⟩
    · obtain ⟨updates, made, ran⟩ := Outcome.bind_eq_ok.mp ran
      have reads : read.field name = (lookup updates name).getD .null := structPack_field ran
      rcases readFields_lookup made name with ⟨none, missing⟩ | ⟨child, entry, found, there, wrote⟩
      · exact .inr (.inl ⟨none, fun impossible => absurd impossible Bool.false_ne_true⟩)
      · refine .inr (.inr ⟨child, found, ?_⟩)
        rw [reads, there, Option.getD_some, ← wrote, is]
        rfl

/-- What the tree shows is read as it is. -/
theorem readValue_shown (flat : hasElementStep node = false) (shown : node.shows path = true)
    (ran : readValue masks source (compileNode node) = .ok read) : ∃ v, source = .ok v ∧ read.atPath path = v.atPath path := by
  induction path generalizing node source read with
  | nil =>
    obtain ⟨name, whole, masked, mask, fields, element⟩ := node
    simp only [FieldNode.shows, FieldNode.walk, FieldNode.plain, Bool.and_eq_true, Bool.not_eq_true', List.isEmpty_iff,
      Option.isNone_iff_eq_none] at shown
    obtain ⟨rfl, ⟨⟨rfl, -⟩, rfl⟩, rfl⟩ := shown
    exact ⟨read, by simpa [compileNode, readValue] using ran, rfl⟩
  | cons step path ih =>
    have unmasked := shows_unmasked shown
    cases step with
    | element =>
      obtain ⟨v, is, -⟩ := readValue_step flat unmasked ran []
      exact ⟨v, is, rfl⟩
    | field name =>
      obtain ⟨v, is, step⟩ := readValue_step flat unmasked ran name
      refine ⟨v, is, ?_⟩
      rw [atPath, atPath]
      rw [shows_cons unmasked, childOr_field] at shown
      rcases step with ⟨rfl, rfl⟩ | ⟨absent, reads⟩ | ⟨child, found, inside⟩
      · rfl
      · rw [absent, Option.none_or] at shown
        cases whole : node.whole with
        | true => rw [reads whole]
        | false =>
          rw [whole] at shown
          cases shown
      · rw [found, Option.some_or, Option.any_some] at shown
        obtain ⟨inner, extracted, same⟩ := ih (flat_child flat (List.mem_of_find?_eq_some found)) shown inside
        have named := List.find?_some found
        rw [same, extract_ok extracted, field_congr v named]

mutual

/-- A value that has what the tree names is read. -/
private theorem readValue_total (masks : Text → StructValue) : ∀ (node : FieldNode) (v : StructValue),
    hasElementStep node = false → node.FitsValue v → ∃ read, readValue masks (.ok v) (compileNode node) = .ok read
  | ⟨name, whole, masked, mask, fields, element⟩, v, flat, fits => by
    have noElement := noElement_of_flat flat
    subst noElement
    have inside := readFields_total masks fields v
    cases masked with
    | true => exact ⟨masks mask, rfl⟩
    | false =>
      by_cases plain : whole = true ∧ fields = []
      · obtain ⟨rfl, rfl⟩ := plain
        exact ⟨v, rfl⟩
      · obtain ⟨level, noAtom⟩ := fitsValue_level rfl plain fits
        rw [hasElementStep, Bool.or_eq_false_iff] at flat
        obtain ⟨updates, made⟩ := inside flat.2 level
        cases v with
        | atom text => exact absurd rfl (noAtom text)
        | null => cases whole with
          | true =>
            have steps : fields.isEmpty = false := List.isEmpty_eq_false_iff.mpr fun none => plain ⟨rfl, none⟩
            exact ⟨.null, by simp [compileNode, steps, readValue, bind, Except.bind, isNull]⟩
          | false => exact ⟨.null, rfl⟩
        | struct own => cases whole with
          | true =>
            have steps : fields.isEmpty = false := List.isEmpty_eq_false_iff.mpr fun none => plain ⟨rfl, none⟩
            exact ⟨.struct (updated own updates),
              by simp [compileNode, steps, readValue, bind, Except.bind, isNull, made, structUpdate]⟩
          | false => exact ⟨.struct updates, by simp [compileNode, readValue, bind, Except.bind, isNull, made, structPack]⟩

private theorem readFields_total (masks : Text → StructValue) : ∀ (fields : List FieldNode) (v : StructValue),
    anyElementStep fields = false → LevelFits fields v → ∃ updates, readFields masks (.ok v) (compileFields fields) = .ok updates
  | [], v, _, _ => ⟨[], rfl⟩
  | child :: rest, v, flat, level => by
    rw [anyElementStep, Bool.or_eq_false_iff] at flat
    obtain ⟨updates, later⟩ := readFields_total masks rest v flat.2 fun other member => level other (List.mem_cons_of_mem _ member)
    have here : ∃ field, readValue masks (v.extract child.name) (compileNode child) = .ok field := by
      cases masked : child.masked with
      | true =>
        refine ⟨masks child.mask, ?_⟩
        obtain ⟨name, whole, isMasked, mask, fields, element⟩ := child
        dsimp only at masked
        subst masked
        cases element <;> simp [compileNode, readValue]
      | false =>
        obtain ⟨extracted, below⟩ := level child List.mem_cons_self masked
        rw [extracted]
        exact readValue_total masks child (v.field child.name) flat.1 below
    obtain ⟨field, here⟩ := here
    refine ⟨(child.name, field) :: updates, ?_⟩
    rw [compileFields, readFields, Except.bind, here, later]
    rfl

end

private theorem structUpdate_not_atom {value : StructValue} {updates : List (Text × StructValue)} {text : Text} :
    value.structUpdate updates ≠ .ok (.atom text) := by
  cases value <;> simp [structUpdate]

/-- A partial position makes a struct, or NULL. -/
private theorem partial_not_atom {written : Evaluated} {stored : Option Evaluated} {text : Text} (unmasked : node.masked = false)
    (narrowed : node.whole = false) : writeNode masks written stored node ≠ .ok (.atom text) := by
  obtain ⟨name, whole, masked, mask, fields, element⟩ := node
  subst unmasked narrowed
  intro ran
  rw [writeNode, if_neg Bool.false_ne_true, if_neg Bool.false_ne_true] at ran
  obtain ⟨w, is, ran⟩ := Outcome.bind_eq_ok.mp ran
  obtain ⟨foreign, -, ran⟩ := Outcome.bind_eq_ok.mp ran
  have packed (ran : (if w.isNull then .ok .null else (do structPack (← writeFields masks written none fields)) : Evaluated) =
      .ok (.atom text)) : False := by
    split_ifs at ran
    · cases ran
    · obtain ⟨updates, -, ran⟩ := Outcome.bind_eq_ok.mp ran
      cases ran
  cases foreign with
  | true => cases ran
  | false =>
    rw [if_neg Bool.false_ne_true] at ran
    cases stored with
    | none => exact packed ran
    | some stored =>
      obtain ⟨before, -, ran⟩ := Outcome.bind_eq_ok.mp ran
      by_cases isNull : before.isNull = true
      · rw [if_pos isNull] at ran
        exact packed ran
      · rw [if_neg isNull] at ran
        obtain ⟨updates, -, ran⟩ := Outcome.bind_eq_ok.mp ran
        exact structUpdate_not_atom ran

/-- What a write makes has what the tree names. -/
private theorem writeNode_fits {written : Evaluated} {stored : Option Evaluated} (wf : node.Wf)
    (ran : writeNode masks written stored node = .ok value) : node.FitsValue value := by
  induction wf generalizing written stored value with
  | @mk node distinct _ _ _ _ ih _ =>
    cases masked : node.masked with
    | true => exact .masked masked
    | false =>
      have each : ∀ child ∈ node.fields, value = .null ∨
          value.extract child.name = .ok (value.field child.name) ∧ child.FitsValue (value.field child.name) := by
        intro child member
        have found : node.find child.name = some child := (find?_of_distinct distinct).mpr ⟨member, Text.ciEquals_refl _⟩
        obtain ⟨w, -, step⟩ := writeNode_step masked ran child.name
        rcases step with ⟨-, -, isNull⟩ | ⟨absent, -⟩ | ⟨other, stored', found', -, there, wrote⟩
        · exact .inl isNull
        · rw [found] at absent
          cases absent
        · rw [found] at found'
          cases found'
          exact .inr ⟨there, ih child member wrote⟩
      cases value with
      | null => exact .null
      | atom text =>
        have none : node.fields = [] := by
          rw [List.eq_nil_iff_forall_not_mem]
          intro child member
          rcases each child member with impossible | ⟨impossible, -⟩ <;> cases impossible
        cases whole : node.whole with
        | true => exact .plain whole none
        | false => exact absurd ran (partial_not_atom masked whole)
      | struct own =>
        refine .struct (fun child member _ => ?_) fun child member _ => ?_
        · rcases each child member with impossible | ⟨there, -⟩
          · cases impossible
          · rw [extract] at there
            cases found : lookup own child.name with
            | none =>
              simp only [found] at there
              cases there
            | some entry => rfl
        · rcases each child member with impossible | ⟨-, below⟩
          · cases impossible
          · exact below

end Reads

/-! ## A narrowed write -/

/-- What a write comes to: the stored value where the tree hides it, the written one where the tree shows it, and the mask
where the tree masks it, except below a struct that stays NULL. -/
structure FieldNode.Wrote (masks : Text → StructValue) (node : FieldNode) (written stored value : StructValue) : Prop where
  hidden : ∀ path, node.Hides path → value.atPath path = stored.atPath path
  shown : ∀ path, node.shows path = true → value.atPath path = written.atPath path
  masked : ∀ path mask, node.maskAt path = some mask → ¬node.StaysNull written stored path → value.atPath path = masks mask

private theorem wrote_of_ok {masks : Text → StructValue} {node : FieldNode} {written value : StructValue} {stored : Option Evaluated}
    (tight : node.Tight) (flat : hasElementStep node = false) (ran : writeNode masks (.ok written) stored node = .ok value) :
    node.Wrote masks written (storedValue stored) value where
  hidden _ hides := writeNode_hidden tight hides ran
  shown _ shown := by
    obtain ⟨w, is, same⟩ := writeNode_shown shown ran
    rw [same, Except.ok.inj is]
  masked _ _ masked open' := writeNode_masked flat masked ran open'

private theorem read_back {masks : Text → StructValue} {node : FieldNode} {written value : StructValue} {stored : Option Evaluated}
    (wf : node.Wf) (flat : hasElementStep node = false) (ran : writeNode masks (.ok written) stored node = .ok value) :
    ∃ read, readValue masks (.ok value) (compileNode node) = .ok read ∧
      ∀ path, node.shows path = true → read.atPath path = written.atPath path := by
  obtain ⟨read, reads⟩ := readValue_total masks node value flat (writeNode_fits wf ran)
  refine ⟨read, reads, fun path shown => ?_⟩
  obtain ⟨v, is, same⟩ := readValue_shown flat shown reads
  obtain ⟨w, is', same'⟩ := writeNode_shown shown ran
  rw [same, ← Except.ok.inj is, same', Except.ok.inj is']

/-- A narrowed write: an UPDATE is refused exactly where the written value carries what a partial position does not list,
and else keeps what the tree hides, takes what it shows and masks what it masks; an INSERT does so over nothing, and has
no position the tree hides; and what was written is read back. -/
theorem narrowed_write (masks : Text → StructValue) (node : FieldNode) (written stored : StructValue) (wf : node.Wf)
    (tight : node.Tight) (flat : hasElementStep node = false) (fits : node.FitsValue written) (storedFits : node.FitsValue stored) :
    (updateValue masks node written stored = .error .refused ↔ node.Carries written) ∧
    (insertValue masks node written = .error .refused ↔ node.Carries written) ∧
    (¬node.Carries written →
      (∃ value, updateValue masks node written stored = .ok value ∧ node.Wrote masks written stored value ∧
        ∃ read, readValue masks (.ok value) (compileNode node) = .ok read ∧
          ∀ path, node.shows path = true → read.atPath path = written.atPath path) ∧
      ∃ value, insertValue masks node written = .ok value ∧ node.Wrote masks written .null value ∧
        (∀ path, node.Hides path → value.position path = none) ∧
        ∃ read, readValue masks (.ok value) (compileNode node) = .ok read ∧
          ∀ path, node.shows path = true → read.atPath path = written.atPath path) := by
  have update := writeNode_total masks node written (some stored) fits fun before is => by rwa [← Option.some.inj is]
  have insert := writeNode_total masks node written none fits nofun
  refine ⟨?_, ?_, fun free => ⟨?_, ?_⟩⟩
  · rcases update with ⟨carries, refuses⟩ | ⟨free, value, ran⟩
    · exact iff_of_true refuses carries
    · exact iff_of_false (fun refuses => by rw [updateValue, show some (Except.ok stored) = given (some stored) from rfl, ran] at refuses; cases refuses) free
  · rcases insert with ⟨carries, refuses⟩ | ⟨free, value, ran⟩
    · exact iff_of_true refuses carries
    · exact iff_of_false (fun refuses => by rw [insertValue, show (none : Option Evaluated) = given none from rfl, ran] at refuses; cases refuses) free
  · obtain ⟨-, value, ran⟩ := update.resolve_left fun carries => free carries.1
    exact ⟨value, ran, wrote_of_ok tight flat ran, read_back wf flat ran⟩
  · obtain ⟨-, value, ran⟩ := insert.resolve_left fun carries => free carries.1
    exact ⟨value, ran, wrote_of_ok tight flat ran, fun path hides => insert_hidden tight hides ran, read_back wf flat ran⟩

/-- `address.city, address.ssn = 'x'`. -/
def narrowedAddress : FieldNode :=
  { name := "address".toList,
    fields := [{ name := "city".toList, whole := true }, { name := "ssn".toList, masked := true, mask := "'x'".toList }] }

/-- What a mask's text evaluates to. -/
def addressMask (_ : Text) : StructValue := .atom "x".toList

private theorem narrowedAddress_child {step : Step} {child : FieldNode} (found : narrowedAddress.child step = some child) :
    child = { name := "city".toList, whole := true } ∨ child = { name := "ssn".toList, masked := true, mask := "'x'".toList } := by
  cases step with
  | element => cases found
  | field name =>
    rw [FieldNode.child, FieldNode.find] at found
    have member := List.mem_of_find?_eq_some found
    simpa [narrowedAddress] using member

private theorem narrowedAddress_wf : narrowedAddress.Wf := by
  refine .mk (by decide) nofun nofun (fun child member => ?_) nofun
  rcases List.mem_cons.mp member with rfl | member
  · exact .mk .nil nofun nofun nofun nofun
  · rw [List.mem_singleton.mp member]
    exact .mk .nil (fun _ => ⟨rfl, rfl⟩) (fun _ => List.cons_ne_nil _ _) nofun nofun

private theorem narrowedAddress_tight : narrowedAddress.Tight := by
  refine .mk nofun (fun step child found => ?_) fun step child found => ?_
  · rcases narrowedAddress_child found with rfl | rfl <;> rfl
  · have leaf : ∀ below, child.child below = none := by
      intro below
      rcases narrowedAddress_child found with rfl | rfl <;> cases below <;> rfl
    refine .mk (fun _ below inner there => ?_) (fun below inner there => ?_) fun below inner there => ?_ <;>
      · rw [leaf below] at there
        cases there

private theorem narrowedAddress_fits {fields : List (Text × StructValue)} (city : (lookup fields "city".toList).isSome = true) :
    narrowedAddress.FitsValue (.struct fields) := by
  refine .struct (fun child member unmasked => ?_) fun child member unmasked => ?_
  · rcases List.mem_cons.mp member with rfl | member
    · exact city
    · rw [List.mem_singleton.mp member] at unmasked
      cases unmasked
  · rcases List.mem_cons.mp member with rfl | member
    · exact .plain rfl rfl
    · rw [List.mem_singleton.mp member] at unmasked
      cases unmasked

/-- `{'city': 'B'}` over `{'city': 'A', 'ssn': 'S', 'zip': 'Z'}`. -/
theorem narrowed_write_address :
    (∃ value, updateValue addressMask narrowedAddress (.struct [("city".toList, .atom "B".toList)]) (.struct
        [("city".toList, .atom "A".toList), ("ssn".toList, .atom "S".toList), ("zip".toList, .atom "Z".toList)]) = .ok value ∧
      narrowedAddress.Wrote addressMask (.struct [("city".toList, .atom "B".toList)]) (.struct
        [("city".toList, .atom "A".toList), ("ssn".toList, .atom "S".toList), ("zip".toList, .atom "Z".toList)]) value ∧
      ∃ read, readValue addressMask (.ok value) (compileNode narrowedAddress) = .ok read ∧
        ∀ path, narrowedAddress.shows path = true →
          read.atPath path = (StructValue.struct [("city".toList, .atom "B".toList)]).atPath path) ∧
    ∃ value, insertValue addressMask narrowedAddress (.struct [("city".toList, .atom "B".toList)]) = .ok value ∧
      narrowedAddress.Wrote addressMask (.struct [("city".toList, .atom "B".toList)]) .null value ∧
      (∀ path, narrowedAddress.Hides path → value.position path = none) ∧
      ∃ read, readValue addressMask (.ok value) (compileNode narrowedAddress) = .ok read ∧
        ∀ path, narrowedAddress.shows path = true →
          read.atPath path = (StructValue.struct [("city".toList, .atom "B".toList)]).atPath path := by
  refine (narrowed_write _ _ _ _ narrowedAddress_wf narrowedAddress_tight rfl (narrowedAddress_fits rfl)
    (narrowedAddress_fits rfl)).2.2 fun carries => ?_
  cases carries with
  | here _ _ member unlisted =>
    rw [List.mem_singleton.mp member] at unlisted
    have city := unlisted _ List.mem_cons_self
    cases city
  | deeper _ member carries =>
    rcases List.mem_cons.mp member with rfl | member
    · cases carries with
      | deeper _ member => cases member
    · rw [List.mem_singleton.mp member] at carries
      exact not_carries_masked rfl carries

/-- A NULL over a NULL stays NULL, the mask included. -/
theorem null_stays_null : ¬∀ value, updateValue addressMask narrowedAddress .null .null = .ok value →
    ∀ path mask, narrowedAddress.maskAt path = some mask → value.atPath path = addressMask mask := by
  intro everywhere
  have masked := everywhere .null rfl [.field "ssn".toList] "'x'".toList rfl
  cases masked

end DuckAcl
