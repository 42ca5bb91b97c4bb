import Mathlib.Data.List.Find
import DuckAcl.Library.Outcome
import DuckAcl.Model.ListedTypes
import DuckAcl.Soundness.ExposedTypes
import DuckAcl.Soundness.ReadPolicy
import DuckAcl.Soundness.RoleOrder
import DuckAcl.Soundness.TreeMerge

/-! # The listed type is the type of the read

`ProjectedType` and `CompileNode` walk the same tree, the one over a type and the other over a value. Over a source that
has what the tree steps into they come to the same type, whatever the nesting is; and that type names no field the tree
hides.
-/

namespace DuckAcl

namespace LogicalType

@[simp] theorem structFields_structOf (fields : List (Text × LogicalType)) : structFields (structOf fields) = some fields := by
  rw [structOf, structFields, Option.some.injEq]
  apply List.ext_get
  · simp
  · intro i one two
    simp
    rfl

@[simp] theorem elementType_structOf (fields : List (Text × LogicalType)) : elementType (structOf fields) = none := rfl

@[simp] theorem elementType_listOf (child : LogicalType) : elementType (listOf child) = some child := rfl

@[simp] theorem structFields_listOf (child : LogicalType) : structFields (listOf child) = none := rfl

theorem fieldType_congr {fields : List (Text × LogicalType)} {name name' : Text} (same : Text.ciEquals name name' = true) :
    fieldType fields name = fieldType fields name' := by
  simp only [fieldType, Text.ciEquals_congr_right same]

theorem fieldType_append (first second : List (Text × LogicalType)) (name : Text) :
    fieldType (first ++ second) name = (fieldType first name).or (fieldType second name) := by
  rw [fieldType, List.find?_append, fieldType, fieldType]
  cases first.find? fun field => Text.ciEquals field.1 name <;> rfl

/-- Among fields with different names each one is the first of its name. -/
theorem find?_field {fields : List (Text × LogicalType)} (distinct : fields.Pairwise fun a b => Text.ciEquals a.1 b.1 = false)
    {field : Text × LogicalType} (member : field ∈ fields) {name : Text} (same : Text.ciEquals field.1 name = true) :
    fields.find? (fun other => Text.ciEquals other.1 name) = some field := by
  induction fields with
  | nil => cases member
  | cons head rest ih =>
    obtain ⟨apart, distinct⟩ := List.pairwise_cons.mp distinct
    rw [List.find?_cons]
    rcases List.mem_cons.mp member with rfl | member
    · rw [same]
    · have other : Text.ciEquals head.1 name = false := by
        rw [Bool.eq_false_iff]
        intro alike
        have clash := Text.ciEquals_trans alike (Text.ciEquals_symm same)
        rw [apart field member] at clash
        cases clash
      rw [other]
      exact ih distinct member

end LogicalType

open LogicalType ReadExpr

/-- The source has what the tree steps into: the named fields of a struct, the elements of a list. A position that
nothing is stepped into from is whole. -/
inductive FieldNode.FitsType : FieldNode → LogicalType → Prop
  | masked {node : FieldNode} {source : LogicalType} (masked : node.masked = true) : FitsType node source
  | plain {node : FieldNode} {source : LogicalType} (isPlain : node.plain = true) : FitsType node source
  | element {node child : FieldNode} {source inner : LogicalType} (unmasked : node.masked = false)
      (steps : node.element = some child) (listed : source.elementType = some inner) (below : FitsType child inner) :
      FitsType node source
  | fields {node : FieldNode} {source : LogicalType} {children : List (Text × LogicalType)} (types : FieldNode → LogicalType)
      (unmasked : node.masked = false) (noElement : node.element = none) (steps : node.fields ≠ [])
      (struct : source.structFields = some children) (distinct : children.Pairwise fun a b => Text.ciEquals a.1 b.1 = false)
      (named : ∀ field ∈ node.fields, field.masked = false → fieldType children field.name = some (types field))
      (below : ∀ field ∈ node.fields, field.masked = false → FitsType field (types field)) : FitsType node source

/-! ## One level of fields -/

section Level

variable {maskType : Text → Except BinderException LogicalType} {children : List (Text × LogicalType)} {path : Text}
  {fields : List FieldNode} {types : FieldNode → LogicalType}

/-- The fields of a level with the types they are read with. -/
def typedFields (types : FieldNode → LogicalType) (fields : List FieldNode) : List (Text × LogicalType) :=
  fields.map fun field => (field.name, types field)

theorem fieldType_typedFields (name : Text) : fieldType (typedFields types fields) name =
    (fields.find? fun field => Text.ciEquals field.name name).map types := by
  rw [fieldType, typedFields, List.find?_map, Option.map_map]
  rfl

theorem projectedField_eq (name : Text) : projectedField maskType name fields =
    (fields.find? fun field => Text.ciEquals field.name name).map (projectedType maskType) := by
  induction fields with
  | nil => rfl
  | cons field rest ih =>
    rw [projectedField, List.find?_cons]
    cases Text.ciEquals field.name name
    · simpa using ih
    · rfl

/-- How a field is spelled on the way to it: by the source where its struct is whole, and by the tree where it is
packed. -/
def spelledField (whole : Bool) (children : List (Text × LogicalType)) (name : Text) : Text :=
  if whole then ((children.find? fun child => Text.ciEquals child.1 name).map Prod.fst).getD name else name

theorem spelledField_same (whole : Bool) (children : List (Text × LogicalType)) (name : Text) :
    Text.ciEquals name (spelledField whole children name) = true := by
  rw [spelledField]
  split_ifs
  · cases found : children.find? fun child => Text.ciEquals child.1 name with
    | none => exact Text.ciEquals_refl _
    | some child =>
      have same := List.find?_some found
      exact Text.ciEquals_symm same
  · exact Text.ciEquals_refl _

/-- How the fields of a level are read: each one of the source is projected, and one that left it is masked. -/
structure LevelTyped (maskType : Text → Except BinderException LogicalType) (whole : Bool)
    (children : List (Text × LogicalType)) (path : Text) (fields : List FieldNode) (types : FieldNode → LogicalType) : Prop where
  present : ∀ field ∈ fields, ∀ type, fieldType children field.name = some type →
    projectedType maskType field type (path ++ stepText (.field (spelledField whole children field.name))) = .ok (types field)
  gone : ∀ field ∈ fields, fieldType children field.name = none →
    field.masked = true ∧ maskType (path ++ stepText (.field field.name)) = .ok (types field)

theorem LevelTyped.packed (level : LevelTyped maskType false children path fields types) :
    packedFields maskType children path fields = .ok (typedFields types fields) := by
  induction fields with
  | nil => rfl
  | cons field rest ih =>
    have later := ih ⟨fun other member => level.present other (List.mem_cons_of_mem _ member),
      fun other member => level.gone other (List.mem_cons_of_mem _ member)⟩
    rw [packedFields]
    cases found : fieldType children field.name with
    | none =>
      obtain ⟨masked, given⟩ := level.gone field List.mem_cons_self found
      simp only [masked, if_true, given, later]
      rfl
    | some type =>
      have projected := level.present field List.mem_cons_self type found
      rw [spelledField, if_neg Bool.false_ne_true] at projected
      simp only [projected, later]
      rfl

private theorem mapM_ok_of {α β : Type} {step : α → Except BinderException β} {answer : α → β} {list : List α}
    (ran : ∀ item ∈ list, step item = .ok (answer item)) : list.mapM step = .ok (list.map answer) := by
  induction list with
  | nil => rfl
  | cons item rest ih =>
    rw [List.mapM_cons, ran item List.mem_cons_self, ih fun other member => ran other (List.mem_cons_of_mem _ member)]
    rfl

theorem LevelTyped.updated (level : LevelTyped maskType true children path fields types)
    (distinct : children.Pairwise fun a b => Text.ciEquals a.1 b.1 = false) :
    children.mapM (fun child => keptChild path (projectedField maskType child.1 fields) child) =
      .ok (children.map fun child => (child.1, (fieldType (typedFields types fields) child.1).getD child.2)) := by
  refine mapM_ok_of fun child member => ?_
  rw [projectedField_eq, fieldType_typedFields]
  cases found : fields.find? fun field => Text.ciEquals field.name child.1 with
  | none => rfl
  | some field =>
    have same := List.find?_some found
    have first := find?_field distinct member (Text.ciEquals_symm same)
    have type : fieldType children field.name = some child.2 := by rw [fieldType, first, Option.map_some]
    have spelled : spelledField true children field.name = child.1 := by
      rw [spelledField, if_pos rfl, first, Option.map_some, Option.getD_some]
    have projected := level.present field (List.mem_of_find?_eq_some found) child.2 type
    rw [spelled] at projected
    simp only [keptChild, Option.map_some, projected]
    rfl

theorem LevelTyped.added {whole : Bool} (level : LevelTyped maskType whole children path fields types) :
    (fields.filter fun field => (fieldType children field.name).isNone && field.masked).mapM
      (fun field => do return (field.name, ← maskType (path ++ stepText (.field field.name)))) =
      .ok ((typedFields types fields).filter fun type => (fieldType children type.1).isNone) := by
  have left : ∀ field ∈ fields.filter fun field => (fieldType children field.name).isNone && field.masked,
      (do return (field.name, ← maskType (path ++ stepText (.field field.name))) : Except BinderException (Text × LogicalType)) =
        .ok (field.name, types field) := by
    intro field member
    obtain ⟨inside, picked⟩ := List.mem_filter.mp member
    rw [Bool.and_eq_true, Option.isNone_iff_eq_none] at picked
    rw [(level.gone field inside picked.1).2]
    rfl
  rw [mapM_ok_of left, typedFields, List.filter_map]
  congr 2
  refine List.filter_congr fun field member => ?_
  cases found : fieldType children field.name with
  | none => simp [found, (level.gone field member found).1]
  | some type => simp [found]

/-- A level of fields is projected as it is read: a whole struct is updated, and a partial one packed. -/
theorem LevelTyped.projected {node : FieldNode} {source : LogicalType} (unmasked : node.masked = false)
    (noElement : node.element = none) (steps : node.fields ≠ []) (struct : source.structFields = some children)
    (distinct : children.Pairwise fun a b => Text.ciEquals a.1 b.1 = false)
    (level : LevelTyped maskType node.whole children path node.fields types) :
    projectedType maskType node source path = .ok (structOf
      (if node.whole then updatedFields children (typedFields types node.fields) else typedFields types node.fields)) := by
  obtain ⟨name, whole, masked, mask, fields, element⟩ := node
  subst unmasked noElement
  have some' : fields.isEmpty = false := by simpa using steps
  rw [projectedType, if_neg Bool.false_ne_true]
  simp only [struct, some', Bool.false_eq_true, if_false]
  cases whole with
  | true =>
    simp only [if_true]
    rw [level.updated distinct, level.added]
    rfl
  | false =>
    simp only [Bool.false_eq_true, if_false]
    rw [level.packed]
    rfl

/-- The types of the compiled fields of a level. -/
theorem typesOf_fields {masks : Text → LogicalType} {source : LogicalType} (struct : source.structFields = some children)
    (typed : ∀ field ∈ fields, (compileNode field).typeOf masks (fieldType children field.name) = some (types field)) :
    typesOf masks (compileFields fields) (some source) = some (typedFields types fields) := by
  induction fields with
  | nil => rfl
  | cons field rest ih =>
    have later := ih fun other member => typed other (List.mem_cons_of_mem _ member)
    have here := typed field List.mem_cons_self
    rw [compileFields, typesOf, later]
    simp only [Option.bind_some, struct, here]
    rfl

end Level

/-! ## Whole trees -/

section Trees

variable {maskType : Text → Except BinderException LogicalType} {node : FieldNode} {source : LogicalType} {path : Text}

theorem projectedType_masked (masked : node.masked = true) : projectedType maskType node source path = maskType path := by
  obtain ⟨name, whole, flag, mask, fields, element⟩ := node
  subst masked
  cases element <;> simp [projectedType]

theorem projectedType_plain (isPlain : node.plain = true) : projectedType maskType node source path = .ok source := by
  obtain ⟨name, whole, masked, mask, fields, element⟩ := node
  simp only [FieldNode.plain, Bool.and_eq_true, Bool.not_eq_true', List.isEmpty_iff, Option.isNone_iff_eq_none] at isPlain
  obtain ⟨⟨⟨rfl, rfl⟩, rfl⟩, rfl⟩ := isPlain
  rw [projectedType, if_neg Bool.false_ne_true]
  cases source.structFields <;> rfl

theorem projectedType_element {child : FieldNode} {inner : LogicalType} (unmasked : node.masked = false)
    (steps : node.element = some child) (listed : source.elementType = some inner) :
    projectedType maskType node source path = (projectedType maskType child inner (path ++ stepText .element)).map listOf := by
  obtain ⟨name, whole, masked, mask, fields, element⟩ := node
  subst unmasked steps
  rw [projectedType, if_neg Bool.false_ne_true]
  simp only [listed]
  cases projectedType maskType child inner (path ++ stepText .element) <;> rfl

/-- Mask types that are given: at every path to a mask, the mask's. -/
def GivenMasks (maskType : Text → Except BinderException LogicalType) (masks : Text → LogicalType) (node : FieldNode)
    (path : Text) : Prop :=
  ∀ steps mask, node.maskAt steps = some mask → maskType (path ++ steps.flatMap stepText) = .ok (masks mask)

theorem GivenMasks.child {masks : Text → LogicalType} (given : GivenMasks maskType masks node path)
    (unmasked : node.masked = false) {step : Step} {child : FieldNode} (found : node.child step = some child) :
    GivenMasks maskType masks child (path ++ stepText step) := by
  intro steps mask at'
  have there : node.maskAt (step :: steps) = some mask := by
    rw [FieldNode.maskAt_cons unmasked, found]
    exact at'
  have answered := given _ _ there
  rwa [List.flatMap_cons, ← List.append_assoc] at answered

theorem GivenMasks.here {masks : Text → LogicalType} (given : GivenMasks maskType masks node path)
    (masked : node.masked = true) : maskType path = .ok (masks node.mask) := by
  have answered := given [] node.mask (by rw [FieldNode.maskAt, if_pos masked])
  simpa using answered

/-- A field of a tree with different names is the first of its name. -/
private theorem child_of_field (wf : node.Wf) {field : FieldNode} (member : field ∈ node.fields) {name : Text}
    (same : Text.ciEquals field.name name = true) : node.child (.field name) = some field := by
  obtain ⟨distinct, _, _, _, _⟩ := wf
  exact (find?_of_distinct distinct).mpr ⟨member, same⟩

/-- The projected type is the type of the compiled read. -/
theorem projectedType_typed {masks : Text → LogicalType} (fits : node.FitsType source) (wf : node.Wf)
    (given : GivenMasks maskType masks node path) :
    ∃ type, projectedType maskType node source path = .ok type ∧ (compileNode node).typeOf masks (some source) = some type := by
  induction fits generalizing path with
  | @masked node source masked =>
    refine ⟨masks node.mask, ?_, ?_⟩
    · rw [projectedType_masked masked, given.here masked]
    · obtain ⟨name, whole, flag, mask, fields, element⟩ := node
      subst masked
      cases element <;> simp [compileNode, typeOf]
  | @plain node source isPlain =>
    refine ⟨source, projectedType_plain isPlain, ?_⟩
    obtain ⟨name, whole, masked, mask, fields, element⟩ := node
    simp only [FieldNode.plain, Bool.and_eq_true, Bool.not_eq_true', List.isEmpty_iff, Option.isNone_iff_eq_none] at isPlain
    obtain ⟨⟨⟨rfl, rfl⟩, rfl⟩, rfl⟩ := isPlain
    simp [compileNode, typeOf]
  | @element node child source inner unmasked steps listed below ih =>
    have found : node.child .element = some child := steps
    obtain ⟨type, projected, typed⟩ := ih (wf.child found) (given.child unmasked found)
    refine ⟨listOf type, ?_, ?_⟩
    · rw [projectedType_element unmasked steps listed, projected]
      rfl
    · obtain ⟨name, whole, masked, mask, fields, element⟩ := node
      subst unmasked steps
      simp [compileNode, typeOf, listed, typed]
  | @fields node source children types unmasked noElement steps struct distinct named below ih =>
    have child {field : FieldNode} (member : field ∈ node.fields) {name : Text} (same : Text.ciEquals field.name name = true) :
        GivenMasks maskType masks field (path ++ stepText (.field name)) :=
      given.child unmasked (child_of_field wf member same)
    obtain ⟨_, _, _, wfFields, _⟩ := wf
    have each : ∀ field ∈ node.fields, ∃ type,
        (∀ name, Text.ciEquals field.name name = true → ∀ found, fieldType children field.name = some found →
          projectedType maskType field found (path ++ stepText (.field name)) = .ok type) ∧
        (compileNode field).typeOf masks (fieldType children field.name) = some type ∧
        (field.masked = true → type = masks field.mask) := by
      intro field member
      cases masked : field.masked with
      | true =>
        refine ⟨masks field.mask, fun name same found _ => ?_, ?_, fun _ => rfl⟩
        · rw [projectedType_masked masked, (child member same).here masked]
        · obtain ⟨name, whole, flag, mask, fields, element⟩ := field
          subst masked
          cases element <;> simp [compileNode, typeOf]
      | false =>
        have here := named field member masked
        obtain ⟨type, -, typed⟩ := ih field member masked (wfFields field member) (child member (Text.ciEquals_refl _))
        refine ⟨type, fun name same found same' => ?_, here ▸ typed, fun impossible => absurd impossible Bool.false_ne_true⟩
        obtain ⟨other, projected, typed'⟩ := ih field member masked (wfFields field member) (child member same)
        rw [here] at same'
        rw [typed] at typed'
        rw [← Option.some.inj same', projected, Option.some.inj typed']
    have : Nonempty LogicalType := ⟨sqlNull⟩
    choose! read projects typed masks' using each
    have level : LevelTyped maskType node.whole children path node.fields read := by
      refine ⟨fun field member found here => projects field member _ (spelledField_same _ _ _) found here,
        fun field member gone => ?_⟩
      cases masked : field.masked with
      | true => exact ⟨rfl, by rw [(child member (Text.ciEquals_refl _)).here masked, masks' field member masked]⟩
      | false =>
        have here := named field member masked
        rw [gone] at here
        cases here
    refine ⟨_, level.projected unmasked noElement steps struct distinct, ?_⟩
    have arguments := typesOf_fields struct typed
    obtain ⟨name, whole, masked, mask, fields, element⟩ := node
    subst unmasked noElement
    have some' : fields.isEmpty = false := by simpa using steps
    have compiled : (compileFields fields).isEmpty = false := by
      cases fields with
      | nil => cases some'
      | cons field rest => rfl
    cases whole <;> simp [compileNode, typeOf, some', compiled, struct, arguments]

end Trees

/-! ## What a projected type names -/

/-- A type has a position at a path. -/
def LogicalType.HasPath (type : LogicalType) (path : List Step) : Prop := (path.foldlM stepType type).isSome = true

theorem LogicalType.hasPath_cons {type : LogicalType} {step : Step} {path : List Step} :
    type.HasPath (step :: path) ↔ ∃ next, stepType type step = some next ∧ next.HasPath path := by
  rw [HasPath, List.foldlM_cons]
  cases stepType type step <;> simp [HasPath]

/-- The tree has something at a path: a position, or a mask on the way. -/
def FieldNode.Exposes (node : FieldNode) (path : List Step) : Prop := node.free path = true ∨ (node.maskOn path).isSome = true

theorem FieldNode.exposes_cons {node child : FieldNode} (unmasked : node.masked = false) {step : Step} {path : List Step}
    (found : node.childOr step = some child) : node.Exposes (step :: path) ↔ child.Exposes path := by
  rw [Exposes, Exposes, free, walk_cons unmasked, maskOn_childOr unmasked, found]
  rfl

theorem FieldNode.exposes_here {node : FieldNode} (unmasked : node.masked = false) : node.Exposes [] :=
  .inl (by simp [free, walk, unmasked])

theorem FieldNode.exposes_plain {node : FieldNode} (isPlain : node.plain = true) (path : List Step) : node.Exposes path :=
  .inl (plain_reached (fun _ _ => rfl) isPlain path)

/-- An updated field has the type it was updated to. -/
theorem fieldType_updatedFields {children types : List (Text × LogicalType)} {name : Text} {type update : LogicalType}
    (updated : fieldType (updatedFields children types) name = some type) (given : fieldType types name = some update) :
    type = update := by
  rw [updatedFields, fieldType_append] at updated
  have kept : fieldType (children.map fun child => (child.1, (fieldType types child.1).getD child.2)) name =
      (children.find? fun child => Text.ciEquals child.1 name).map fun child => (fieldType types child.1).getD child.2 := by
    rw [fieldType, List.find?_map, Option.map_map]
    rfl
  rw [kept] at updated
  cases found : children.find? fun child => Text.ciEquals child.1 name with
  | some child =>
    have same := List.find?_some found
    rw [found, Option.map_some, fieldType_congr same, given, Option.some_or] at updated
    exact (Option.some.inj updated).symm
  | none =>
    have gone : fieldType children name = none := by rw [fieldType, found, Option.map_none]
    have all : fieldType (types.filter fun type => (fieldType children type.1).isNone) name = fieldType types name := by
      rw [fieldType, List.find?_filter, fieldType]
      congr 1
      refine List.find?_congr fun type _ => ?_
      cases same : Text.ciEquals type.1 name with
      | false => simp
      | true => simp [fieldType_congr same, gone]
    rw [found, Option.map_none, Option.none_or, all, given] at updated
    exact (Option.some.inj updated).symm

/-- Over mask types that answer, whatever they are, the projected type has no position that the tree hides. -/
theorem projectedType_answers (masks : Text → LogicalType) {node : FieldNode} {source : LogicalType} (fits : node.FitsType source)
    (wf : node.Wf) (path : Text) : ∃ type, projectedType (fun path => .ok (masks path)) node source path = .ok type ∧
      ∀ steps, type.HasPath steps → node.Exposes steps := by
  induction fits generalizing path with
  | @masked node source masked =>
    refine ⟨_, projectedType_masked masked, fun steps _ => .inr ?_⟩
    rw [FieldNode.maskOn_of_masked masked]
    rfl
  | @plain node source isPlain => exact ⟨source, projectedType_plain isPlain, fun steps _ => FieldNode.exposes_plain isPlain steps⟩
  | @element node child source inner unmasked steps listed below ih =>
    have isElement : node.child .element = some child := steps
    obtain ⟨type, projected, shown⟩ := ih (wf.child isElement) (path ++ stepText .element)
    refine ⟨listOf type, ?_, fun path' there => ?_⟩
    · rw [projectedType_element unmasked steps listed, projected]
      rfl
    · cases path' with
      | nil => exact FieldNode.exposes_here unmasked
      | cons step rest =>
        obtain ⟨next, stepped, there⟩ := LogicalType.hasPath_cons.mp there
        cases step with
        | field name => cases stepped
        | element =>
          have found : node.childOr .element = some child := FieldNode.childOr_of_child steps
          rw [FieldNode.exposes_cons unmasked found]
          cases stepped
          exact shown rest there
  | @fields node source children types unmasked noElement steps struct distinct named below ih =>
    have childOf {field : FieldNode} {name : Text} (found : node.find name = some field) : node.childOr (.field name) = some field :=
      FieldNode.childOr_of_child found
    obtain ⟨_, _, _, wfFields, _⟩ := wf
    have each : ∀ field ∈ node.fields, ∃ type,
        (∀ found, fieldType children field.name = some found → projectedType (fun path => .ok (masks path)) field found
          (path ++ stepText (.field (spelledField node.whole children field.name))) = .ok type) ∧
        (fieldType children field.name = none → masks (path ++ stepText (.field field.name)) = type) ∧
        ∀ steps, type.HasPath steps → field.Exposes steps := by
      intro field member
      cases masked : field.masked with
      | true =>
        have all : ∀ steps, field.Exposes steps := fun steps => .inr (by rw [FieldNode.maskOn_of_masked masked]; rfl)
        cases there : fieldType children field.name with
        | none => exact ⟨_, nofun, fun _ => rfl, fun steps _ => all steps⟩
        | some type => exact ⟨_, fun found _ => projectedType_masked masked, nofun, fun steps _ => all steps⟩
      | false =>
        obtain ⟨type, projected, shown⟩ := ih field member masked (wfFields field member)
          (path ++ stepText (.field (spelledField node.whole children field.name)))
        have here := named field member masked
        refine ⟨type, fun found same => ?_, fun gone => ?_, shown⟩
        · rw [here] at same
          rw [← Option.some.inj same, projected]
        · rw [here] at gone
          cases gone
    have : Nonempty LogicalType := ⟨sqlNull⟩
    choose! read present gone shown using each
    have level : LevelTyped (fun path => .ok (masks path)) node.whole children path node.fields read := by
      refine ⟨present, fun field member missing => ⟨?_, by rw [gone field member missing]⟩⟩
      by_contra unmasked'
      rw [Bool.not_eq_true] at unmasked'
      have here := named field member unmasked'
      rw [missing] at here
      cases here
    refine ⟨_, level.projected unmasked noElement steps struct distinct, fun path' there => ?_⟩
    cases path' with
    | nil => exact FieldNode.exposes_here unmasked
    | cons step rest =>
      obtain ⟨next, stepped, there⟩ := LogicalType.hasPath_cons.mp there
      cases step with
      | element => cases stepped
      | field name =>
        rw [stepType, structFields_structOf, Option.bind_some] at stepped
        have reads := @fieldType_typedFields node.fields read name
        cases found : node.find name with
        | some field =>
          have member := List.mem_of_find?_eq_some found
          rw [FieldNode.find] at found
          rw [found, Option.map_some] at reads
          rw [FieldNode.exposes_cons unmasked (childOf found)]
          refine shown field member rest ?_
          cases whole : node.whole with
          | true =>
            rw [whole, if_pos rfl] at stepped
            rwa [← fieldType_updatedFields stepped reads]
          | false =>
            rw [whole, if_neg Bool.false_ne_true, reads] at stepped
            rwa [Option.some.inj stepped]
        | none =>
          rw [FieldNode.find] at found
          rw [found, Option.map_none] at reads
          cases whole : node.whole with
          | true =>
            have implied : node.childOr (.field name) = some (wholeNode name) := by
              rw [FieldNode.childOr, childOrWhole, FieldNode.find, found]
              simp [whole]
            rw [FieldNode.exposes_cons unmasked implied]
            exact FieldNode.exposes_plain rfl rest
          | false =>
            rw [whole, if_neg Bool.false_ne_true, reads] at stepped
            cases stepped

/-! ## Mask types that throw -/

section Total

variable {maskType maskType' : Text → Except BinderException LogicalType}

private theorem mapM_keeps {α β : Type} {step step' : α → Except BinderException β} {list : List α} {answers : List β}
    (keeps : ∀ item ∈ list, ∀ answer, step item = .ok answer → step' item = .ok answer) (ran : list.mapM step = .ok answers) :
    list.mapM step' = .ok answers := by
  induction list generalizing answers with
  | nil => exact ran
  | cons item rest ih =>
    rw [List.mapM_cons] at ran ⊢
    obtain ⟨first, stepped, ran⟩ := Outcome.bind_eq_ok.mp ran
    obtain ⟨others, later, ran⟩ := Outcome.bind_eq_ok.mp ran
    rw [keeps item List.mem_cons_self first stepped,
      ih (fun other member => keeps other (List.mem_cons_of_mem _ member)) later]
    exact ran

private theorem keptChild_keeps {fields : List FieldNode} {path : Text} {child answer : Text × LogicalType}
    (below : ∀ field ∈ fields, ∀ source path type, projectedType maskType field source path = .ok type →
      projectedType maskType' field source path = .ok type)
    (ran : keptChild path (projectedField maskType child.1 fields) child = .ok answer) :
    keptChild path (projectedField maskType' child.1 fields) child = .ok answer := by
  rw [projectedField_eq] at ran ⊢
  cases found : fields.find? fun field => Text.ciEquals field.name child.1 with
  | none =>
    rw [found] at ran
    exact ran
  | some field =>
    rw [found] at ran
    obtain ⟨type, projected, ran⟩ := Outcome.bind_eq_ok.mp ran
    exact Outcome.bind_eq_ok.mpr ⟨type, below field (List.mem_of_find?_eq_some found) _ _ type projected, ran⟩

private theorem masked_keeps (keeps : ∀ path type, maskType path = .ok type → maskType' path = .ok type) {name path : Text}
    {answer : Text × LogicalType}
    (ran : (do return (name, ← maskType path) : Except BinderException (Text × LogicalType)) = .ok answer) :
    (do return (name, ← maskType' path) : Except BinderException (Text × LogicalType)) = .ok answer := by
  obtain ⟨type, answered, ran⟩ := Outcome.bind_eq_ok.mp ran
  exact Outcome.bind_eq_ok.mpr ⟨type, keeps _ type answered, ran⟩

private theorem packedFields_keeps (keeps : ∀ path type, maskType path = .ok type → maskType' path = .ok type)
    {children : List (Text × LogicalType)} {path : Text} {fields : List FieldNode} {types : List (Text × LogicalType)}
    (below : ∀ field ∈ fields, ∀ source path type, projectedType maskType field source path = .ok type →
      projectedType maskType' field source path = .ok type)
    (ran : packedFields maskType children path fields = .ok types) : packedFields maskType' children path fields = .ok types := by
  induction fields generalizing types with
  | nil => exact ran
  | cons field rest ih =>
    have later {types : List (Text × LogicalType)} (ran : packedFields maskType children path rest = .ok types) :=
      ih (fun other member => below other (List.mem_cons_of_mem _ member)) ran
    rw [packedFields] at ran ⊢
    cases found : fieldType children field.name with
    | none =>
      simp only [found] at ran ⊢
      split_ifs at ran ⊢ with masked
      · obtain ⟨type, answered, ran⟩ := Outcome.bind_eq_ok.mp ran
        obtain ⟨others, after, ran⟩ := Outcome.bind_eq_ok.mp ran
        rw [keeps _ type answered, Outcome.bind_eq_ok.mpr ⟨type, rfl, Outcome.bind_eq_ok.mpr ⟨others, later after, ran⟩⟩]
      · exact later ran
    | some source =>
      simp only [found] at ran ⊢
      obtain ⟨type, projected, ran⟩ := Outcome.bind_eq_ok.mp ran
      obtain ⟨others, after, ran⟩ := Outcome.bind_eq_ok.mp ran
      rw [below field List.mem_cons_self _ _ type projected]
      exact Outcome.bind_eq_ok.mpr ⟨type, rfl, Outcome.bind_eq_ok.mpr ⟨others, later after, ran⟩⟩

mutual

/-- What is projected stays as it is when more mask types are known. -/
theorem projectedType_keeps (keeps : ∀ path type, maskType path = .ok type → maskType' path = .ok type) :
    ∀ (node : FieldNode) (source : LogicalType) (path : Text) (type : LogicalType),
      projectedType maskType node source path = .ok type → projectedType maskType' node source path = .ok type
  | ⟨_, whole, masked, _, fields, element⟩, origin, path, type, ran => by
    have below := projectedFields_keeps keeps fields
    cases masked with
    | true =>
      rw [projectedType_masked rfl] at ran ⊢
      exact keeps path type ran
    | false =>
      cases element with
      | some child =>
        cases listed : origin.elementType with
        | none =>
          rw [projectedType] at ran ⊢
          simpa [listed] using ran
        | some inner =>
          rw [projectedType_element rfl rfl listed] at ran ⊢
          cases projected : projectedType maskType child inner (path ++ stepText .element) with
          | error refusal =>
            rw [projected] at ran
            cases ran
          | ok answer =>
            rw [projected] at ran
            rw [projectedType_keeps keeps child inner _ answer projected]
            exact ran
      | none =>
        rw [projectedType, if_neg Bool.false_ne_true] at ran ⊢
        cases struct : origin.structFields with
        | none => simpa [struct] using ran
        | some children =>
          simp only [struct] at ran ⊢
          split_ifs at ran ⊢ with empty all
          · exact ran
          · obtain ⟨kept, updated, ran⟩ := Outcome.bind_eq_ok.mp ran
            obtain ⟨added, appended, ran⟩ := Outcome.bind_eq_ok.mp ran
            have updated' := mapM_keeps (fun item _ answer => keptChild_keeps below) updated
            have appended' := mapM_keeps (fun field _ answer => masked_keeps keeps) appended
            exact Outcome.bind_eq_ok.mpr ⟨kept, updated', Outcome.bind_eq_ok.mpr ⟨added, appended', ran⟩⟩
          · obtain ⟨packed, ran', ran⟩ := Outcome.bind_eq_ok.mp ran
            rw [packedFields_keeps keeps below ran']
            exact ran

theorem projectedFields_keeps (keeps : ∀ path type, maskType path = .ok type → maskType' path = .ok type) :
    ∀ (fields : List FieldNode), ∀ field ∈ fields, ∀ (source : LogicalType) (path : Text) (type : LogicalType),
      projectedType maskType field source path = .ok type → projectedType maskType' field source path = .ok type
  | [], field, member, _, _, _, _ => by cases member
  | child :: rest, field, member, origin, path, type, ran => by
    rcases List.mem_cons.mp member with same | member
    · rw [same] at ran ⊢
      exact projectedType_keeps keeps child origin path type ran
    · exact projectedFields_keeps keeps rest field member origin path type ran

end

end Total

/-- A projected type has no position that the tree hides. -/
theorem projectedType_exposes {maskType : Text → Except BinderException LogicalType} {node : FieldNode}
    {source type : LogicalType} {path : Text} (fits : node.FitsType source) (wf : node.Wf)
    (ran : projectedType maskType node source path = .ok type) {steps : List Step} (there : type.HasPath steps) :
    node.Exposes steps := by
  obtain ⟨other, answered, exposes⟩ := projectedType_answers (fun path => (maskType path).toOption.getD sqlNull) fits wf path
  have kept : projectedType (fun path => .ok ((maskType path).toOption.getD sqlNull)) node source path = .ok type :=
    projectedType_keeps (fun path type known => by rw [known]; rfl) node source path type ran
  rw [answered] at kept
  cases kept
  exact exposes steps there

/-! ## The lists of the roles -/

/-- A role's grant on an object: its levels, and what its own projection was probed to. -/
structure GrantedRole where
  catalog : GrantLevel
  object : GrantLevel
  probed : Text

namespace GrantedRole

/-- What the listing is given of a role. -/
def lists (role : GrantedRole) : RoleLists := ⟨role.catalog.columnCsv, role.object.columnCsv, role.probed⟩

/-- What a read narrows a role to (`RowPolicy`). -/
def policy (role : GrantedRole) : Except BinderException GrantPolicy := narrowAll [role.catalog, role.object]

/-- A role's own tree of a column, and its probe. -/
def OwnTree (name : Text) (role : GrantedRole) (own : Option FieldNode × Text) : Prop :=
  ∃ policy trees, role.policy = .ok policy ∧ ColumnTrees.fromItems policy.columns = .ok trees ∧
    own = (trees.find name, role.probed)

end GrantedRole

/-- The union a read is granted. -/
def unitedGrants (roles : List GrantedRole) : Except BinderException GrantUnion :=
  roles.foldlM (fun union role => do union.add (← role.policy)) {}

/-- What a policy says of columns. -/
private def policyColumns (policy : GrantPolicy) : Bool × ColumnItems := (policy.restricts, policy.columns)

/-- What a union says of columns. -/
private def unionColumns (union : GrantUnion) : Bool × Bool × ColumnItems := (union.any, union.unrestrictedColumns, union.columns)

private theorem ok_of_map_eq {α β γ : Type} {x : Except BinderException α} {y : Except BinderException β} {f : α → γ} {g : β → γ}
    (same : x.map f = y.map g) {a : α} (ran : x = .ok a) : ∃ b, y = .ok b ∧ f a = g b := by
  subst ran
  cases y with
  | error refusal => cases same
  | ok b => exact ⟨b, rfl, Except.ok.inj same⟩

/-- The columns of a narrowed policy do not depend on its row filters. -/
private theorem narrow_columns {first second : GrantPolicy} (same : policyColumns first = policyColumns second)
    (rls rls' csv : Text) (checked checked' : Bool) :
    (first.narrow rls csv checked).map policyColumns = (second.narrow rls' csv checked').map policyColumns := by
  obtain ⟨restricts, unchecked, columns, predicates⟩ := first
  obtain ⟨restricts', unchecked', columns', predicates'⟩ := second
  obtain ⟨rfl, rfl⟩ := Prod.mk.inj same
  have parts (policy : GrantPolicy) (level : ColumnItems) : (policy.narrowColumns level).map policyColumns =
      if level = [] then .ok (policy.restricts, policy.columns)
      else if policy.restricts = false then .ok (true, level)
      else if hasFieldPaths policy.columns || hasFieldPaths level then
        (intersectColumnItems policy.columns level).map fun columns => (policy.restricts, columns)
      else .ok (policy.restricts, GrantPolicy.intersectPlain policy.columns level) := by
    rw [GrantPolicy.narrowColumns]
    split_ifs
    · rfl
    · rfl
    · cases intersectColumnItems policy.columns level <;> rfl
    · rfl
  rw [GrantPolicy.narrow, GrantPolicy.narrow, parts, parts]
  split_ifs <;> rfl

private theorem policy_columns (role : GrantedRole) :
    (do let policy ← ({} : GrantPolicy).narrow [] role.catalog.columnCsv true
        policy.narrow [] role.object.columnCsv true : Except BinderException GrantPolicy).map policyColumns =
      role.policy.map policyColumns := by
  have unfolded : role.policy = (({} : GrantPolicy).narrow role.catalog.rls role.catalog.columnCsv role.catalog.rlsChecked).bind
      fun policy => policy.narrow role.object.rls role.object.columnCsv role.object.rlsChecked := by
    simp only [GrantedRole.policy, narrowAll, List.foldlM_cons, List.foldlM_nil, bind_pure]
    rfl
  have first := @narrow_columns {} {} rfl [] role.catalog.rls role.catalog.columnCsv true role.catalog.rlsChecked
  rw [unfolded]
  cases one : ({} : GrantPolicy).narrow [] role.catalog.columnCsv true with
  | error refusal =>
    rw [one] at first
    cases two : ({} : GrantPolicy).narrow role.catalog.rls role.catalog.columnCsv role.catalog.rlsChecked with
    | error refusal' =>
      rw [two] at first
      exact first
    | ok policy =>
      rw [two] at first
      cases first
  | ok policy =>
    obtain ⟨other, two, same⟩ := ok_of_map_eq first one
    rw [two]
    exact narrow_columns same [] role.object.rls role.object.columnCsv true role.object.rlsChecked

private theorem add_columns {first second : GrantUnion} {one two : GrantPolicy} (same : unionColumns first = unionColumns second)
    (same' : policyColumns one = policyColumns two) :
    (first.add one).map unionColumns = (second.add two).map unionColumns := by
  obtain ⟨restricts, unchecked, list, predicates⟩ := one
  obtain ⟨restricts', unchecked', list', predicates'⟩ := two
  obtain ⟨any, rls, open', bad, seen, columns⟩ := first
  obtain ⟨any', rls', open'', bad', seen', columns'⟩ := second
  simp only [unionColumns, policyColumns, Prod.mk.injEq] at same same'
  obtain ⟨-, rfl, rfl⟩ := same
  obtain ⟨rfl, rfl⟩ := same'
  rw [GrantUnion.add_eq, GrantUnion.add_eq]
  cases (if restricts then joinColumns columns list else Except.ok columns) <;> rfl

/-- One role more, in the listing and in the read. -/
private theorem addRole_eq (name : Text) (before : GrantUnion × List (Option FieldNode × Text)) (role : GrantedRole) :
    TypeEngine.addRole name before role.lists =
      (do let policy ← ({} : GrantPolicy).narrow [] role.catalog.columnCsv true
          policy.narrow [] role.object.columnCsv true : Except BinderException GrantPolicy).bind fun policy =>
        (before.1.add policy).bind fun grants => (ColumnTrees.fromItems policy.columns).bind fun trees =>
          .ok (grants, before.2 ++ [(trees.find name, role.probed)]) := by
  rw [TypeEngine.addRole, GrantedRole.lists]
  cases ({} : GrantPolicy).narrow [] role.catalog.columnCsv true <;> rfl

section Union

variable {name : Text} {role : GrantedRole} {listed read : GrantUnion} {own : List (Option FieldNode × Text)}

private theorem addRole_read (same : unionColumns listed = unionColumns read)
    {next : GrantUnion × List (Option FieldNode × Text)} (ran : TypeEngine.addRole name (listed, own) role.lists = .ok next) :
    ∃ after entry, (do read.add (← role.policy) : Except BinderException GrantUnion) = .ok after ∧
      unionColumns next.1 = unionColumns after ∧ next.2 = own ++ [entry] ∧ role.OwnTree name entry := by
  rw [addRole_eq] at ran
  obtain ⟨policy, narrowed, ran⟩ := Outcome.bind_eq_ok.mp ran
  obtain ⟨grants, added, ran⟩ := Outcome.bind_eq_ok.mp ran
  obtain ⟨trees, built, ran⟩ := Outcome.bind_eq_ok.mp ran
  cases ran
  obtain ⟨other, narrowed', same'⟩ := ok_of_map_eq (policy_columns role) narrowed
  obtain ⟨after, added', same''⟩ := ok_of_map_eq (add_columns same same') added
  refine ⟨after, _, Outcome.bind_eq_ok.mpr ⟨other, narrowed', added'⟩, same'', rfl, other, trees, narrowed', ?_, rfl⟩
  rwa [← (Prod.mk.inj same').2]

private theorem addRole_listed (same : unionColumns listed = unionColumns read) {after : GrantUnion}
    (ran : (do read.add (← role.policy) : Except BinderException GrantUnion) = .ok after) {entry : Option FieldNode × Text}
    (tree : role.OwnTree name entry) :
    ∃ grants, TypeEngine.addRole name (listed, own) role.lists = .ok (grants, own ++ [entry]) ∧
      unionColumns grants = unionColumns after := by
  obtain ⟨policy, narrowed, added⟩ := Outcome.bind_eq_ok.mp ran
  obtain ⟨policy', trees, narrowed', built, rfl⟩ := tree
  cases narrowed.symm.trans narrowed'
  obtain ⟨other, narrowed'', same'⟩ := ok_of_map_eq (policy_columns role).symm narrowed
  obtain ⟨grants, added', same''⟩ := ok_of_map_eq (add_columns same.symm same') added
  have built' : ColumnTrees.fromItems other.columns = .ok trees := by rwa [← (Prod.mk.inj same').2]
  refine ⟨grants, ?_, same''.symm⟩
  rw [addRole_eq]
  exact Outcome.bind_eq_ok.mpr ⟨other, narrowed'', Outcome.bind_eq_ok.mpr ⟨grants, added', Outcome.bind_eq_ok.mpr ⟨trees, built', rfl⟩⟩⟩

/-- The listing's fold goes through with the read's, and the roles' own trees. -/
private theorem addRoles_iff {roles : List GrantedRole} (final : GrantUnion × List (Option FieldNode × Text))
    (same : unionColumns listed = unionColumns read) :
    (∃ columns, (roles.map GrantedRole.lists).foldlM (TypeEngine.addRole name) (listed, own) = .ok (columns, final.2) ∧
      unionColumns columns = unionColumns final.1) ↔
    ∃ after trees, roles.foldlM (fun union role => do union.add (← role.policy)) read = .ok after ∧
      unionColumns after = unionColumns final.1 ∧ final.2 = own ++ trees ∧ List.Forall₂ (GrantedRole.OwnTree name) roles trees := by
  induction roles generalizing listed read own with
  | nil =>
    constructor
    · rintro ⟨columns, ran, ends⟩
      cases ran
      exact ⟨read, [], rfl, same ▸ ends, (List.append_nil _).symm, .nil⟩
    · rintro ⟨after, trees, ran, ends, is, each⟩
      cases ran
      cases each
      exact ⟨listed, by rw [is, List.append_nil]; rfl, same.trans ends⟩
  | cons role rest ih =>
    constructor
    · rintro ⟨columns, ran, ends⟩
      rw [List.map_cons, List.foldlM_cons] at ran
      obtain ⟨⟨grants, own'⟩, stepped, ran⟩ := Outcome.bind_eq_ok.mp ran
      obtain ⟨after, entry, added, same', rfl, tree⟩ := addRole_read same stepped
      obtain ⟨last, trees, later, ends', is, each⟩ := (ih same').mp ⟨columns, ran, ends⟩
      have all : final.2 = own ++ entry :: trees := by rw [is, List.append_assoc, List.singleton_append]
      refine ⟨last, entry :: trees, ?_, ends', all, .cons tree each⟩
      rw [List.foldlM_cons]
      exact Outcome.bind_eq_ok.mpr ⟨after, added, later⟩
    · rintro ⟨last, trees, ran, ends, is, each⟩
      rw [List.foldlM_cons] at ran
      obtain ⟨after, added, ran⟩ := Outcome.bind_eq_ok.mp ran
      cases each with
      | @cons _ entry _ trees tree each =>
        have step : ∃ grants, TypeEngine.addRole name (listed, own) role.lists = .ok (grants, own ++ [entry]) ∧
            unionColumns grants = unionColumns after := addRole_listed same added tree
        obtain ⟨grants, stepped, same'⟩ := step
        have all : final.2 = (own ++ [entry]) ++ trees := by rw [is, List.append_assoc, List.singleton_append]
        obtain ⟨columns, later, ends'⟩ := (ih same').mpr ⟨last, trees, ran, ends, all, each⟩
        refine ⟨columns, ?_, ends'⟩
        rw [List.map_cons, List.foldlM_cons]
        exact Outcome.bind_eq_ok.mpr ⟨_, stepped, later⟩

end Union

/-! ## What a listing answers -/

/-- The expression a read value is. -/
def ReadValue.expr : ReadValue → ReadExpr
  | .whole _ => .source
  | .mask sql => .mask sql
  | .compiled tree _ => compileNode tree

/-- What the union's list has under a name is well formed, and a read lists its column and compiles it. -/
theorem found_reads {items : ColumnItems} {trees : ColumnTrees} (built : ColumnTrees.fromItems items = .ok trees) {name : Text}
    {node : FieldNode} (found : trees.find name = some node) :
    node.Wf ∧ ∃ listed column, listColumns items = .ok listed ∧ column ∈ listed ∧ Text.ciEquals column.name name = true ∧
      ∀ source, (column.read source).expr = compileNode node := by
  have member := List.mem_of_find?_eq_some found
  have same := List.find?_some found
  obtain ⟨_, _, _, wf, _⟩ := (fromItems_sound built).wf
  have listed : listColumns items = .ok (trees.columns.map listedColumn) := by rw [listColumns, built]; rfl
  refine ⟨wf node member, _, listedColumn node, listed, List.mem_map_of_mem member, by rwa [listedColumn_name], fun source => ?_⟩
  obtain ⟨_, _, given, _, _⟩ := wf node member
  rw [listedColumn]
  obtain ⟨name, whole, masked, mask, fields, element⟩ := node
  cases masked with
  | true =>
    have some' : mask ≠ [] := given rfl
    cases element <;> simp [ListedColumn.read, some', ReadValue.expr, compileNode]
  | false =>
    rw [if_neg Bool.false_ne_true]
    split_ifs with isPlain
    · simp only [FieldNode.plain, Bool.and_eq_true, Bool.not_eq_true', List.isEmpty_iff, Option.isNone_iff_eq_none] at isPlain
      obtain ⟨⟨⟨rfl, -⟩, rfl⟩, rfl⟩ := isPlain
      simp [ListedColumn.read, ReadValue.expr, compileNode]
    · rfl

namespace TypeEngine

/-- What a listing answers of a column under the union a read is granted: the source's type where no list restricts,
nothing where the union does not list the column, and the projected type of its tree. -/
inductive ListedAs (engine : TypeEngine) (sourceText name : Text) (source : LogicalType)
    (own : List (Option FieldNode × Text)) (grants : GrantUnion) : Option Text → Prop
  | unrestricted (all : grants.restricts = false) : ListedAs engine sourceText name source own grants (some sourceText)
  | hidden {trees : ColumnTrees} (limited : grants.restricts = true) (built : ColumnTrees.fromItems grants.columns = .ok trees)
      (absent : trees.find name = none) : ListedAs engine sourceText name source own grants none
  | projected {trees : ColumnTrees} {node : FieldNode} {type : LogicalType} (limited : grants.restricts = true)
      (built : ColumnTrees.fromItems grants.columns = .ok trees) (found : trees.find name = some node)
      (projects : projectedType (engine.maskType own source) node source [] = .ok type) :
      ListedAs engine sourceText name source own grants (some (engine.print type))

/-- A listing's answer, by the union a read is granted and the roles' own trees. -/
def Answered (engine : TypeEngine) (sourceText name : Text) (roles : List GrantedRole) (answer : Option Text) : Prop :=
  ∃ source grants own, engine.bindType sourceText = .ok source ∧ unitedGrants roles = .ok grants ∧
    List.Forall₂ (GrantedRole.OwnTree name) roles own ∧ ListedAs engine sourceText name source own grants answer

variable {engine : TypeEngine} {sourceText name : Text} {source : LogicalType} {own : List (Option FieldNode × Text)}

/-- The columns decide whether a union restricts. -/
private theorem restricts_eq {first second : GrantUnion} (same : unionColumns first = unionColumns second) :
    first.restricts = second.restricts ∧ first.columns = second.columns := by
  simp only [unionColumns, Prod.mk.injEq] at same
  obtain ⟨any, unrestricted, columns⟩ := same
  exact ⟨by rw [GrantUnion.restricts, GrantUnion.restricts, any, unrestricted], columns⟩

/-- A listing answers from the read's union, and from the roles' own trees for the types of masks. -/
theorem listedAnswer_iff {roles : List GrantedRole} {answer : Option Text} :
    engine.listedAnswer sourceText name (roles.map GrantedRole.lists) = .ok answer ↔
      Answered engine sourceText name roles answer := by
  constructor
  · intro ran
    rw [listedAnswer] at ran
    obtain ⟨source, bound, ran⟩ := Outcome.bind_eq_ok.mp ran
    obtain ⟨⟨columns, own⟩, folded, ran⟩ := Outcome.bind_eq_ok.mp ran
    obtain ⟨grants, trees, united, same, is, each⟩ := (addRoles_iff (columns, own) rfl).mp ⟨columns, folded, rfl⟩
    rw [List.nil_append] at is
    dsimp only at is same ran
    subst is
    obtain ⟨limits, lists⟩ := restricts_eq same
    refine ⟨source, grants, own, bound, united, each, ?_⟩
    rw [← limits, ← lists] at ran
    split_ifs at ran with open'
    · cases ran
      exact .unrestricted open'
    · rw [Bool.not_eq_false] at open'
      obtain ⟨trees, built, ran⟩ := Outcome.bind_eq_ok.mp ran
      cases found : trees.find name with
      | none =>
        simp only [found] at ran
        cases ran
        exact .hidden open' built found
      | some node =>
        simp only [found] at ran
        obtain ⟨type, projects, ran⟩ := Outcome.bind_eq_ok.mp ran
        cases ran
        exact .projected open' built found projects
  · rintro ⟨source, grants, own, bound, united, each, answered⟩
    have read : ∃ columns, (roles.map GrantedRole.lists).foldlM (addRole name) ({}, []) = .ok (columns, own) ∧
        unionColumns columns = unionColumns grants :=
      (addRoles_iff (grants, own) rfl).mpr ⟨grants, own, united, rfl, rfl, each⟩
    obtain ⟨columns, folded, same⟩ := read
    obtain ⟨limits, lists⟩ := restricts_eq same
    rw [listedAnswer]
    refine Outcome.bind_eq_ok.mpr ⟨source, bound, Outcome.bind_eq_ok.mpr ⟨_, folded, ?_⟩⟩
    dsimp only
    rw [limits, lists]
    cases answered with
    | unrestricted all => rw [if_pos all]; rfl
    | hidden limited built absent =>
      rw [if_neg (by rw [limited]; exact Bool.noConfusion)]
      refine Outcome.bind_eq_ok.mpr ⟨_, built, ?_⟩
      rw [absent]
      rfl
    | projected limited built found projects =>
      rw [if_neg (by rw [limited]; exact Bool.noConfusion)]
      refine Outcome.bind_eq_ok.mpr ⟨_, built, ?_⟩
      rw [found]
      exact Outcome.bind_eq_ok.mpr ⟨_, projects, rfl⟩

/-- A read refuses the roles' lists: they do not unite, or what they unite to is no list of columns. -/
def ReadRefuses (roles : List GrantedRole) : Prop :=
  ∀ grants, unitedGrants roles = .ok grants →
    grants.restricts = true ∧ ∀ listed, listColumns grants.columns ≠ .ok listed

theorem not_answered {roles : List GrantedRole} (refuses : ReadRefuses roles) (answer : Option Text) :
    ¬Answered engine sourceText name roles answer := by
  rintro ⟨source, grants, own, -, united, -, answered⟩
  obtain ⟨limited, unread⟩ := refuses grants united
  have read {trees : ColumnTrees} (built : ColumnTrees.fromItems grants.columns = .ok trees) : False :=
    unread (trees.columns.map listedColumn) (by rw [listColumns, built]; rfl)
  cases answered with
  | unrestricted all =>
    rw [limited] at all
    cases all
  | hidden _ built _ => exact read built
  | projected _ built _ _ => exact read built

theorem listedType_answered {roles : List GrantedRole} {answer : Option Text}
    (answered : Answered engine sourceText name roles answer) :
    engine.listedType (some sourceText) (some name) (some (roles.map GrantedRole.lists)) = answer := by
  simp only [listedType, listedAnswer_iff.mpr answered]

theorem listedType_refused {roles : List GrantedRole} (refused : ∀ answer, ¬Answered engine sourceText name roles answer) :
    engine.listedType (some sourceText) (some name) (some (roles.map GrantedRole.lists)) = some (engine.print sqlNull) := by
  cases ran : engine.listedAnswer sourceText name (roles.map GrantedRole.lists) with
  | ok answer => exact absurd (listedAnswer_iff.mp ran) (refused answer)
  | error refusal => simp only [listedType, ran]

/-- The listed type is the type of the read: a tree is projected to the type of its compiled read; a listing answers from
the read's own union, and the NULL type where that is refused; its tree is the one a read compiles; and what it projects
has no position that the tree hides. -/
theorem listed_types_agree :
    (∀ (maskType : Text → Except BinderException LogicalType) (masks : Text → LogicalType) (node : FieldNode)
      (source : LogicalType) (path : Text), node.Wf → node.FitsType source → GivenMasks maskType masks node path →
      ∃ type, projectedType maskType node source path = .ok type ∧ (compileNode node).typeOf masks (some source) = some type) ∧
    (∀ (engine : TypeEngine) (sourceText name : Text) (roles : List GrantedRole),
      (∀ answer, Answered engine sourceText name roles answer →
        engine.listedType (some sourceText) (some name) (some (roles.map GrantedRole.lists)) = answer) ∧
      ((∀ answer, ¬Answered engine sourceText name roles answer) →
        engine.listedType (some sourceText) (some name) (some (roles.map GrantedRole.lists)) = some (engine.print sqlNull)) ∧
      (ReadRefuses roles → ∀ answer, ¬Answered engine sourceText name roles answer)) ∧
    (∀ (items : ColumnItems) (trees : ColumnTrees) (name : Text) (node : FieldNode), ColumnTrees.fromItems items = .ok trees →
      trees.find name = some node → node.Wf ∧ ∃ listed column, listColumns items = .ok listed ∧ column ∈ listed ∧
        Text.ciEquals column.name name = true ∧ ∀ source, (column.read source).expr = compileNode node) ∧
    ∀ (maskType : Text → Except BinderException LogicalType) (node : FieldNode) (source type : LogicalType) (path : Text),
      node.Wf → node.FitsType source → projectedType maskType node source path = .ok type →
        ∀ steps, type.HasPath steps → node.Exposes steps :=
  ⟨fun _ _ _ _ _ wf fits given => projectedType_typed fits wf given,
    fun _ _ _ _ => ⟨fun _ => listedType_answered, listedType_refused, fun refuses answer => not_answered refuses answer⟩,
    fun _ _ _ _ built found => found_reads built found,
    fun _ _ _ _ _ wf fits ran _ there => projectedType_exposes fits wf ran there⟩

/-- An address with a secret. -/
def addressType : LogicalType :=
  structOf [("city".toList, .scalar .varchar []), ("ssn".toList, .scalar .varchar []), ("secret".toList, .scalar .varchar [])]

/-- `addr.city, addr.ssn = 'x'`. -/
def addressTree : FieldNode :=
  { name := "addr".toList,
    fields := [{ name := "city".toList, whole := true }, { name := "ssn".toList, masked := true, mask := "'x'".toList }] }

/-- An engine over one table, whose masks read columns. -/
def addressEngine : TypeEngine where
  bindType _ := .ok addressType
  print := LogicalType.toText
  parseMask _ := .ok .other

/-- A role with one list on the object. -/
def grantedOn (columnCsv : Text) : GrantedRole := ⟨⟨[], [], true⟩, ⟨[], columnCsv, true⟩, []⟩

private theorem addressTree_fits : addressTree.FitsType addressType := by
  refine .fields (fun _ => .scalar .varchar []) rfl rfl (List.cons_ne_nil _ _) (structFields_structOf _) (by decide) ?_ ?_
  · intro field member unmasked
    rcases List.mem_cons.mp member with rfl | member
    · rfl
    · rw [List.mem_singleton.mp member] at unmasked
      cases unmasked
  · intro field member unmasked
    rcases List.mem_cons.mp member with rfl | member
    · exact .plain rfl
    · rw [List.mem_singleton.mp member] at unmasked
      cases unmasked

private theorem addressTree_wf : addressTree.Wf := by
  refine .mk (by decide) nofun nofun (fun child member => ?_) nofun
  rcases List.mem_cons.mp member with rfl | member
  · exact .mk .nil nofun nofun nofun nofun
  · rw [List.mem_singleton.mp member]
    exact .mk .nil (fun _ => ⟨rfl, rfl⟩) (fun _ => List.cons_ne_nil _ _) nofun nofun

theorem listed_types_agree_address :
    (∃ type, projectedType (fun _ => .ok (.scalar .varchar [])) addressTree addressType [] = .ok type ∧
      (compileNode addressTree).typeOf (fun _ => .scalar .varchar []) (some addressType) = some type) ∧
    addressEngine.listedType (some "ADDRESS".toList) (some "addr".toList) (some (([] : List GrantedRole).map GrantedRole.lists)) =
      some "ADDRESS".toList ∧
    addressEngine.listedType (some "ADDRESS".toList) (some "addr".toList)
      (some ([grantedOn "a = 1".toList, grantedOn "a = 2".toList].map GrantedRole.lists)) = some (addressEngine.print sqlNull) ∧
    (∃ listed column, listColumns [("addr".toList, "f".toList)] = .ok listed ∧ column ∈ listed ∧
      Text.ciEquals column.name "addr".toList = true ∧ ∀ source, (column.read source).expr = .mask "f".toList) ∧
    addressTree.Exposes [.field "city".toList] := by
  obtain ⟨typed, lists, reads, exposes⟩ := listed_types_agree
  have refuses : ReadRefuses [grantedOn "a = 1".toList, grantedOn "a = 2".toList] := by
    intro grants united
    have none : (unitedGrants [grantedOn "a = 1".toList, grantedOn "a = 2".toList]).toOption = none := by decide +kernel
    rw [united] at none
    cases none
  obtain ⟨-, refused, unanswered⟩ := lists addressEngine "ADDRESS".toList "addr".toList
    [grantedOn "a = 1".toList, grantedOn "a = 2".toList]
  have projected : projectedType (fun _ => .ok (.scalar .varchar [])) addressTree addressType [] =
      .ok (structOf [("city".toList, .scalar .varchar []), ("ssn".toList, .scalar .varchar [])]) := by
    rfl
  refine ⟨typed _ _ _ _ _ addressTree_wf addressTree_fits fun _ _ _ => rfl, (lists _ _ _ []).1 _ ?_, refused (unanswered refuses), ?_,
    exposes _ _ _ _ _ addressTree_wf addressTree_fits projected _ rfl⟩
  · exact ⟨addressType, {}, [], rfl, rfl, .nil, .unrestricted rfl⟩
  · exact (reads _ ⟨[{ name := "addr".toList, masked := true, mask := "f".toList }]⟩ "addr".toList
      { name := "addr".toList, masked := true, mask := "f".toList } rfl rfl).2

/-- A mask over a struct that nothing was probed for is listed as the NULL type, and read. -/
theorem unprobed_mask_listed : addressEngine.listedType (some (LogicalType.toText addressType)) (some "addr".toList)
      (some (([grantedOn "addr = f".toList] : List GrantedRole).map GrantedRole.lists)) = some (addressEngine.print sqlNull) ∧
    ¬ReadRefuses [grantedOn "addr = f".toList] := by
  constructor
  · decide +kernel
  · intro refuses
    have united : unitedGrants [grantedOn "addr = f".toList] =
        .ok { any := true, unrestrictedRls := true, columns := [("addr".toList, "f".toList)] } := by decide +kernel
    obtain ⟨_, unread⟩ := refuses _ united
    exact unread _ rfl

end TypeEngine

end DuckAcl
