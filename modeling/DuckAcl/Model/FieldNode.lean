import DuckAcl.Model.FieldPath

/-! # Field trees

The items of one column form a tree. Levels of a grant chain intersect trees, the roles of a
principal unite them, and a tree compiles to the expression the role reads. The definitions follow
`acl_field_paths.hpp` function by function: `InsertPath`, `Simplify`, `IntersectNodes`,
`UniteNodes`, `SerializeNode`, `CompileNode`, `HasElementStep` and `ColumnTrees`.
-/

namespace DuckAcl

/-- A list of `COLUMNS` items: the name as written, and the mask (empty: shown as it is). -/
abbrev ColumnItems := List (Text × Text)

/-- One position of a column's tree. `whole`: everything from here down is visible except the
masked descendants listed; `masked`: the value here is `mask`; otherwise only `fields` and
`element` are visible. -/
structure FieldNode where
  name : Text := []
  whole : Bool := false
  masked : Bool := false
  mask : Text := []
  fields : List FieldNode := []
  element : Option FieldNode := none

namespace FieldNode

/-- `FieldNode::Find`: the child field of that name. -/
def find (node : FieldNode) (field : Text) : Option FieldNode :=
  node.fields.find? fun child => Text.ciEquals child.name field

/-- `FieldNode::Empty`. -/
def empty (node : FieldNode) : Bool :=
  !node.whole && !node.masked && node.fields.isEmpty && node.element.isNone

/-- `FieldNode::Plain`: visible entirely and unmasked anywhere below. -/
def plain (node : FieldNode) : Bool :=
  node.whole && !node.masked && node.fields.isEmpty && node.element.isNone

mutual

/-- The number of nodes on the longest branch; the tree operations recurse on it. -/
def height : FieldNode → ℕ
  | ⟨_, _, _, _, fields, element⟩ => max (heights fields) (heightElement element) + 1

def heights : List FieldNode → ℕ
  | [] => 0
  | node :: rest => max node.height (heights rest)

def heightElement : Option FieldNode → ℕ
  | none => 0
  | some node => node.height

end

theorem height_pos (node : FieldNode) : 0 < node.height := by
  cases node
  rw [height]
  omega

theorem height_le_heights {node : FieldNode} {nodes : List FieldNode} (member : node ∈ nodes) :
    node.height ≤ heights nodes := by
  induction nodes with
  | nil => cases member
  | cons head rest ih =>
    rw [heights]
    rcases List.mem_cons.mp member with rfl | member
    · omega
    · have := ih member
      omega

theorem height_find {node child : FieldNode} {field : Text} (found : node.find field = some child) :
    child.height < node.height := by
  have member := height_le_heights (List.mem_of_find?_eq_some found)
  cases node
  rw [height]
  dsimp only at member
  omega

theorem height_element {node child : FieldNode} (found : node.element = some child) :
    child.height < node.height := by
  obtain ⟨_, _, _, _, _, _⟩ := node
  subst found
  rw [height, heightElement]
  omega

end FieldNode

/-- `WholeNode`. -/
def wholeNode (name : Text) : FieldNode := { name, whole := true }

theorem height_wholeNode (name : Text) : (wholeNode name).height = 1 := rfl

/-- `ChildOrWhole`: a side's child by name, or, under a whole node, the whole child it implies. -/
def childOrWhole (node : FieldNode) (name : Text) : Option FieldNode :=
  match node.find name with
  | some child => some child
  | none => if node.whole then some (wholeNode name) else none

/-- The element of a side, or, under a whole node, the whole element it implies. -/
def elementOrWhole (node : FieldNode) : Option FieldNode :=
  match node.element with
  | some child => some child
  | none => if node.whole then some (wholeNode []) else none

/-- Edit the first field of that name, or a new field appended under it. -/
def editField (name : Text) (edit : FieldNode → Except BinderException FieldNode) :
    List FieldNode → Except BinderException (List FieldNode)
  | [] => do return [← edit { name }]
  | child :: rest =>
    if Text.ciEquals child.name name then do return (← edit child) :: rest
    else do return child :: (← editField name edit rest)

/-- The error of two masks on one position of one grant. -/
def maskedTwice (display first second : Text) : BinderException :=
  "acl: \"".toList ++ display ++ "\" is masked twice in one grant (\"".toList ++ first ++
    "\" and \"".toList ++ second ++ "\")".toList

/-- `InsertPath`: put one item of a grant into its column's tree. A mask above covers the path. -/
def insertPath (mask display : Text) : List Step → FieldNode → Except BinderException FieldNode
  | [], target =>
    if mask ≠ [] then
      if target.masked ∧ target.mask ≠ mask then .error (maskedTwice display target.mask mask)
      else .ok { target with masked := true, mask, fields := [], element := none }
    else if target.masked then .ok target
    else .ok { target with whole := true }
  | .element :: steps, node =>
    if node.masked then .ok node
    else do return { node with element := some (← insertPath mask display steps (node.element.getD {})) }
  | .field name :: steps, node =>
    if node.masked then .ok node
    else do return { node with fields := ← editField name (insertPath mask display steps) node.fields }

/-- A child `Simplify` leaves out: a plain one under a whole node, or an empty one. -/
def saysNothing (whole : Bool) (child : FieldNode) : Bool := (whole && child.plain) || child.empty

mutual

/-- `Simplify`, for a node whose caller sets `whole` first when `under` holds: under a plain whole
node only masked descendants say anything, and the wider item wins. -/
def simplifyUnder (under : Bool) : FieldNode → FieldNode
  | ⟨name, whole, masked, mask, fields, element⟩ =>
    if masked then ⟨name, whole, masked, mask, [], none⟩
    else ⟨name, whole || under, masked, mask, simplifyFields (whole || under) fields,
      simplifyElement (whole || under) element⟩

def simplifyFields (whole : Bool) : List FieldNode → List FieldNode
  | [] => []
  | child :: rest =>
    let kept := simplifyUnder whole child
    if saysNothing whole kept then simplifyFields whole rest
    else kept :: simplifyFields whole rest

def simplifyElement (whole : Bool) : Option FieldNode → Option FieldNode
  | none => none
  | some child =>
    let kept := simplifyUnder whole child
    if saysNothing whole kept then none else some kept

end

/-- `Simplify`. -/
def simplify (node : FieldNode) : FieldNode := simplifyUnder false node

/-- The children either side names, the first side's order first. -/
def mergedNames (a b : FieldNode) : List Text :=
  a.fields.map FieldNode.name ++
    (b.fields.filter fun child => (a.find child.name).isNone).map FieldNode.name

/-- Under a whole result a plain child says nothing. -/
def keepMerged (whole : Bool) (merged : FieldNode) : Bool := !(whole && merged.plain)

theorem find_of_mem_mergedNames {a b : FieldNode} {name : Text} (member : name ∈ mergedNames a b) :
    (a.find name).isSome ∨ (b.find name).isSome := by
  have present {node : FieldNode} {child : FieldNode} (inside : child ∈ node.fields) :
      (node.find child.name).isSome := by
    rw [FieldNode.find, List.find?_isSome]
    exact ⟨child, inside, Text.ciEquals_refl _⟩
  rcases List.mem_append.mp member with named | named
  · obtain ⟨child, inside, rfl⟩ := List.mem_map.mp named
    exact .inl (present inside)
  · obtain ⟨child, inside, rfl⟩ := List.mem_map.mp named
    exact .inr (present (List.mem_filter.mp inside).1)

private theorem height_childOrWhole {node child : FieldNode} {name : Text}
    (found : childOrWhole node name = some child) :
    child.height ≤ node.height ∧ ((node.find name).isSome → child.height < node.height) := by
  have positive := node.height_pos
  rw [childOrWhole] at found
  split at found
  · rename_i explicit
    cases found
    have := FieldNode.height_find explicit
    exact ⟨by omega, fun _ => this⟩
  · rename_i missing
    split_ifs at found
    cases found
    rw [height_wholeNode, missing]
    exact ⟨positive, by simp⟩

/-- A merge recurses into strictly smaller pairs: one side of a merged child is explicit. -/
theorem height_children {a b ac bc : FieldNode} {name : Text} (member : name ∈ mergedNames a b)
    (left : childOrWhole a name = some ac) (right : childOrWhole b name = some bc) :
    ac.height + bc.height < a.height + b.height := by
  have onLeft := height_childOrWhole left
  have onRight := height_childOrWhole right
  rcases find_of_mem_mergedNames member with explicit | explicit
  · have := onLeft.2 explicit
    omega
  · have := onRight.2 explicit
    omega

private theorem height_elementOrWhole {node child : FieldNode} (found : elementOrWhole node = some child) :
    child.height ≤ node.height ∧ (node.element.isSome → child.height < node.height) := by
  have positive := node.height_pos
  rw [elementOrWhole] at found
  split at found
  · rename_i explicit
    cases found
    have := FieldNode.height_element explicit
    exact ⟨by omega, fun _ => this⟩
  · rename_i missing
    split_ifs at found
    cases found
    rw [height_wholeNode, missing]
    exact ⟨positive, by simp⟩

theorem height_elements {a b ae be : FieldNode} (named : a.element.isSome ∨ b.element.isSome)
    (left : elementOrWhole a = some ae) (right : elementOrWhole b = some be) :
    ae.height + be.height < a.height + b.height := by
  have onLeft := height_elementOrWhole left
  have onRight := height_elementOrWhole right
  rcases named with explicit | explicit
  · have := onLeft.2 explicit
    omega
  · have := onRight.2 explicit
    omega

/-- `IntersectNodes`: what both the wider level `a` and the narrower `b` let through, the
narrower's mask winning where both mask; nothing when nothing is left. -/
def intersectNodes (a b : FieldNode) : Option FieldNode :=
  if b.masked || a.masked then
    some { name := a.name, masked := true, mask := if b.masked then b.mask else a.mask }
  else
    let whole := a.whole && b.whole
    let fields := (mergedNames a b).attach.filterMap fun ⟨name, _member⟩ =>
      match _left : childOrWhole a name, _right : childOrWhole b name with
      | some ac, some bc => (intersectNodes ac bc).filter (keepMerged whole)
      | _, _ => none
    -- an element is judged only where a side names one
    let element :=
      if _named : a.element.isSome ∨ b.element.isSome then
        match _left : elementOrWhole a, _right : elementOrWhole b with
        | some ae, some be => (intersectNodes ae be).filter (keepMerged whole)
        | _, _ => none
      else none
    let result : FieldNode := { name := a.name, whole, fields, element }
    if result.empty then none else some result
termination_by a.height + b.height
decreasing_by
  · exact height_children _member _left _right
  · exact height_elements _named _left _right

/-- The error of two roles masking one position differently. -/
def maskDiffers (display first second : Text) : BinderException :=
  "acl: the principal's roles mask column \"".toList ++ display ++ "\" differently (\"".toList ++ first ++
    "\" vs \"".toList ++ second ++ "\") - grant the same expression, or drop one of the grants".toList

/-- The height of a side that may be missing. -/
def heightSide : Option FieldNode → ℕ
  | none => 0
  | some node => node.height

theorem heightSide_children {a b : FieldNode} {name : Text} (member : name ∈ mergedNames a b) :
    heightSide (childOrWhole a name) + heightSide (childOrWhole b name) < a.height + b.height := by
  have positive := a.height_pos
  have positive' := b.height_pos
  cases left : childOrWhole a name with
  | none =>
    cases right : childOrWhole b name with
    | none => simp only [heightSide]; omega
    | some bc =>
      have := (height_childOrWhole right).1
      simp only [heightSide]
      omega
  | some ac =>
    cases right : childOrWhole b name with
    | none =>
      have := (height_childOrWhole left).1
      simp only [heightSide]
      omega
    | some bc => exact height_children member left right

theorem heightSide_elements {a b : FieldNode} (named : a.element.isSome ∨ b.element.isSome) :
    heightSide (elementOrWhole a) + heightSide (elementOrWhole b) < a.height + b.height := by
  have positive := a.height_pos
  have positive' := b.height_pos
  cases left : elementOrWhole a with
  | none =>
    cases right : elementOrWhole b with
    | none => simp only [heightSide]; omega
    | some be =>
      have := (height_elementOrWhole right).1
      simp only [heightSide]
      omega
  | some ae =>
    cases right : elementOrWhole b with
    | none =>
      have := (height_elementOrWhole left).1
      simp only [heightSide]
      omega
    | some be => exact height_elements named left right

/-- `UniteNodes`: what either side lets through. A visible field beats a masked one, the whole
beats a part, and two different masks of one position are refused rather than picked. -/
def uniteNodes (display : Text) (left right : Option FieldNode) :
    Except BinderException (Option FieldNode) :=
  match left, right with
  | none, side => .ok side
  | some a, none => .ok (some a)
  | some a, some b =>
    if a.masked && b.masked then
      if a.mask ≠ b.mask then .error (maskDiffers display a.mask b.mask) else .ok (some a)
    else if a.masked then .ok (some b)
    else if b.masked then .ok (some a)
    else do
      let whole := a.whole || b.whole
      let fields ← (mergedNames a b).attach.mapM fun ⟨name, _member⟩ =>
        uniteNodes (display ++ stepText (.field name)) (childOrWhole a name) (childOrWhole b name)
      let element ←
        if _named : a.element.isSome ∨ b.element.isSome then
          uniteNodes (display ++ stepText .element) (elementOrWhole a) (elementOrWhole b)
        else pure none
      return some { name := a.name, whole, fields := fields.filterMap (Option.filter (keepMerged whole)),
                    element := element.filter (keepMerged whole) }
termination_by heightSide left + heightSide right
decreasing_by
  · exact heightSide_children _member
  · exact heightSide_elements _named

mutual

/-- `SerializeNode`: a tree back to `COLUMNS` items, `at` being the text of its own position. -/
def serializeNode (position : Text) : FieldNode → ColumnItems
  | ⟨_, whole, masked, mask, fields, element⟩ =>
    if masked then [(position, mask)]
    else (if whole then [(position, [])] else []) ++ serializeFields position fields ++
      serializeElement position element

def serializeFields (position : Text) : List FieldNode → ColumnItems
  | [] => []
  | child :: rest =>
    serializeNode (position ++ stepText (.field child.name)) child ++ serializeFields position rest

def serializeElement (position : Text) : Option FieldNode → ColumnItems
  | none => []
  | some child => serializeNode (position ++ stepText .element) child

end

mutual

/-- `HasElementStep`: whether a tree steps into list elements anywhere. -/
def hasElementStep : FieldNode → Bool
  | ⟨_, _, _, _, fields, element⟩ => element.isSome || anyElementStep fields

def anyElementStep : List FieldNode → Bool
  | [] => false
  | child :: rest => hasElementStep child || anyElementStep rest

end

/-- The expression `CompileNode` writes, over the value it is applied to. -/
inductive ReadExpr where
  | source
  | mask (text : Text)
  | listTransform (element : ReadExpr)
  | structUpdate (updates : List (Text × ReadExpr))
  | structPack (packed : List (Text × ReadExpr))

mutual

/-- `CompileNode`: the value a tree lets the role read. A list keeps its shape, each element through
the element's tree; a whole struct has its masked fields replaced; a partial one is packed from
the fields it shows. -/
def compileNode : FieldNode → ReadExpr
  | ⟨_, whole, masked, mask, fields, element⟩ =>
    if masked then .mask mask
    else match element with
      | some child => .listTransform (compileNode child)
      | none =>
        if whole then
          if fields.isEmpty then .source else .structUpdate (compileFields fields)
        else .structPack (compileFields fields)

def compileFields : List FieldNode → List (Text × ReadExpr)
  | [] => []
  | child :: rest => (child.name, compileNode child) :: compileFields rest

end

/-- `ColumnTrees`: items grouped by column, in the order the columns first appear. -/
structure ColumnTrees where
  columns : List FieldNode := []

namespace ColumnTrees

/-- `ColumnTrees::Find`. -/
def find (trees : ColumnTrees) (name : Text) : Option FieldNode :=
  trees.columns.find? fun column => Text.ciEquals column.name name

/-- Whether a trimmed name looks like a path: it holds a `.` or a `[`, or starts with a quote. -/
def looksLikePath (trimmed : Text) : Bool :=
  trimmed.contains '.' || trimmed.contains '[' || trimmed.head? == some '"'

/-- What an item's name denotes: a path when it reads as one, else a column whatever it holds. -/
def itemPath (name : Text) : FieldPath :=
  if looksLikePath (Text.trim name) then
    match parseFieldPath (Text.trim name) with
    | .ok path => path
    | .error _ => ⟨Text.trim name, []⟩
  else ⟨Text.trim name, []⟩

/-- One round of `ColumnTrees::From`'s loop: insert an item into its column's tree. -/
def insertItem (trees : ColumnTrees) (item : Text × Text) : Except BinderException ColumnTrees := do
  let path := itemPath item.1
  return ⟨← editField path.head (insertPath item.2 item.1 path.steps) trees.columns⟩

/-- `ColumnTrees::From`. -/
def fromItems (items : ColumnItems) : Except BinderException ColumnTrees := do
  let trees ← items.foldlM insertItem {}
  return ⟨trees.columns.map simplify⟩

/-- `ColumnTrees::RootName`: a column is written as it was named; only one that paths step into is
quoted, where needed, so the paths read back. -/
def rootName (column : FieldNode) : Text :=
  if column.fields.isEmpty ∧ column.element.isNone ∧ looksLikePath column.name = false then column.name
  else fieldName column.name

/-- `ColumnTrees::Items`. -/
def items (trees : ColumnTrees) : ColumnItems :=
  trees.columns.flatMap fun column => serializeNode (rootName column) column

end ColumnTrees

/-- `HasFieldPaths`: whether a list names any path, not only columns. -/
def hasFieldPaths (items : ColumnItems) : Bool :=
  items.any fun item => ColumnTrees.looksLikePath (Text.trim item.1)

/-- `IntersectColumnItems`: the wider list `a` narrowed by `b`, in `a`'s column order. -/
def intersectColumnItems (a b : ColumnItems) : Except BinderException ColumnItems := do
  let wider ← ColumnTrees.fromItems a
  let narrower ← ColumnTrees.fromItems b
  let columns := wider.columns.filterMap fun column =>
    (narrower.find column.name).bind (intersectNodes column)
  return ColumnTrees.items ⟨columns⟩

/-- `UniteColumnItems`: `a` united with `b`, `a`'s columns first, then the new ones in `b`'s order. -/
def uniteColumnItems (a b : ColumnItems) : Except BinderException ColumnItems := do
  let first ← ColumnTrees.fromItems a
  let second ← ColumnTrees.fromItems b
  let shared ← first.columns.mapM fun column =>
    uniteNodes column.name (some column) (second.find column.name)
  let added := second.columns.filter fun column => (first.find column.name).isNone
  return ColumnTrees.items ⟨shared.filterMap id ++ added⟩

end DuckAcl
