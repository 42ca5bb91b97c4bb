import DuckAcl.Model.FieldNode

/-! # What a tree lets through

A path names a column and then steps into it. `reads` says whether the expression `CompileNode`
writes for a tree returns the source value at a path unmasked, following the path through
`struct_update`, `struct_pack` and `list_transform`. A path takes a field step only where the
source is a struct and `[]` only where it is a list, so at each position it is judged by the items
of that kind; `compileNode_returns` connects this reading with the compiled expression along every
path the tree fits.
-/

namespace DuckAcl

namespace FieldNode

/-- The child a step leads to, if the tree says anything about it. -/
def child (node : FieldNode) : Step → Option FieldNode
  | .field name => node.find name
  | .element => node.element

/-- The child, or the whole one a whole node implies. -/
def childOr (node : FieldNode) : Step → Option FieldNode
  | .field name => childOrWhole node name
  | .element => elementOrWhole node

/-- Whether the source value at a path is returned unmasked. -/
def reads (node : FieldNode) : List Step → Bool
  | [] => !node.masked && node.whole
  | step :: path => !node.masked && match node.child step with
    | some child => child.reads path
    | none => node.whole

/-- The mask met first on a path, if any. -/
def maskOn (node : FieldNode) : List Step → Option Text
  | [] => if node.masked then some node.mask else none
  | step :: path => if node.masked then some node.mask else match node.child step with
    | some child => child.maskOn path
    | none => none

/-- The mask put at exactly a path, nothing above it being masked. -/
def maskAt (node : FieldNode) : List Step → Option Text
  | [] => if node.masked then some node.mask else none
  | step :: path => if node.masked then none else match node.child step with
    | some child => child.maskAt path
    | none => none

/-- Some position on a path is whole. -/
def opens (node : FieldNode) : List Step → Bool
  | [] => node.whole
  | step :: path => node.whole || match node.child step with
    | some child => child.opens path
    | none => false

/-- A path leads to a position that answers `base`, and nothing on it is masked. -/
def walk (base : FieldNode → Bool) (node : FieldNode) : List Step → Bool
  | [] => !node.masked && base node
  | step :: path => !node.masked && (node.childOr step).any (·.walk base path)

/-- The position at a path is there, and nothing on the path is masked. -/
def free (node : FieldNode) (path : List Step) : Bool := node.walk (fun _ => true) path

end FieldNode

/-- A side that may be missing reads nothing. -/
def readsSide (side : Option FieldNode) (path : List Step) : Bool := side.any (·.reads path)

namespace ColumnTrees

/-- The trees as the fields of one position that is neither whole nor masked. -/
def root (trees : ColumnTrees) : FieldNode := { fields := trees.columns }

end ColumnTrees

/-- Whether an item list lets a path be read unmasked: its trees are built with
`ColumnTrees::From`, and the path's first step is the column. -/
def readable (items : ColumnItems) (path : List Step) : Bool :=
  match ColumnTrees.fromItems items with
  | .ok trees => trees.root.reads path
  | .error _ => false

/-- The mask a list puts on a path or a position above it, the one met first. -/
def maskOf (items : ColumnItems) (path : List Step) : Option Text :=
  match ColumnTrees.fromItems items with
  | .ok trees => trees.root.maskOn path
  | .error _ => none

/-- The mask a list puts at exactly a path, nothing above it being masked. -/
def maskPut (items : ColumnItems) (path : List Step) : Option Text :=
  match ColumnTrees.fromItems items with
  | .ok trees => trees.root.maskAt path
  | .error _ => none

/-- Whether a list has something to show at a path or below it, nothing on the path being masked. -/
def reached (items : ColumnItems) (path : List Step) : Bool :=
  match ColumnTrees.fromItems items with
  | .ok trees => trees.root.free path
  | .error _ => false

namespace ReadExpr

/-- The compiled field of that name, if the expression has one of its own. -/
def field (entries : List (Text × ReadExpr)) (name : Text) : Option ReadExpr :=
  (entries.find? fun entry => Text.ciEquals entry.1 name).map Prod.snd

/-- Whether a compiled expression returns the source value at a path: `struct_update` keeps the
fields it does not replace, `struct_pack` has only those it lists. -/
def Returns : ReadExpr → List Step → Prop
  | .source, _ => True
  | .mask _, _ => False
  | .listTransform element, .element :: path => element.Returns path
  | .listTransform _, _ => False
  | .structUpdate _, [] => True
  | .structUpdate updates, .field name :: path =>
    match field updates name with
    | some update => update.Returns path
    | none => True
  | .structUpdate _, .element :: _ => False
  | .structPack packed, .field name :: path =>
    match field packed name with
    | some entry => entry.Returns path
    | none => False
  | .structPack _, _ => False
termination_by _ path => path

end ReadExpr

/-- A path takes `[]` where the tree has an element and a field step where it has fields. -/
def FieldNode.Fits (node : FieldNode) : List Step → Prop
  | [] => node.masked = true ∨ node.element = none
  | .element :: path => node.masked = true ∨ match node.element with
    | some child => child.Fits path
    | none => node.fields = []
  | .field name :: path => node.masked = true ∨ (node.element = none ∧ ∀ child ∈ node.find name, child.Fits path)

private theorem field_compileFields (fields : List FieldNode) (name : Text) :
    ReadExpr.field (compileFields fields) name =
      (fields.find? fun child => Text.ciEquals child.name name).map compileNode := by
  induction fields with
  | nil => rfl
  | cons child rest ih =>
    simp only [ReadExpr.field, compileFields, List.find?_cons] at ih ⊢
    cases Text.ciEquals child.name name with
    | true => rfl
    | false => exact ih

/-- The compiled expression returns the source value exactly where the tree reads it. -/
theorem compileNode_returns {node : FieldNode} {path : List Step} (fits : node.Fits path) :
    (compileNode node).Returns path ↔ node.reads path = true := by
  induction path generalizing node with
  | nil =>
    obtain ⟨name, whole, masked, mask, fields, element⟩ := node
    cases masked with
    | true => cases element <;> simp [compileNode, ReadExpr.Returns, FieldNode.reads]
    | false =>
      obtain rfl : element = none := by simpa [FieldNode.Fits] using fits
      cases whole with
      | false => simp [compileNode, ReadExpr.Returns, FieldNode.reads]
      | true =>
        cases fields <;> simp [compileNode, ReadExpr.Returns, FieldNode.reads]
  | cons step path ih =>
    obtain ⟨name, whole, masked, mask, fields, element⟩ := node
    cases masked with
    | true => cases element <;> simp [compileNode, ReadExpr.Returns, FieldNode.reads]
    | false =>
      cases step with
      | element =>
        cases element with
        | some child =>
          have inner : child.Fits path := by simpa [FieldNode.Fits] using fits
          simpa [compileNode, ReadExpr.Returns, FieldNode.reads, FieldNode.child] using ih inner
        | none =>
          obtain rfl : fields = [] := by simpa [FieldNode.Fits] using fits
          cases whole <;> simp [compileNode, ReadExpr.Returns, FieldNode.reads, FieldNode.child]
      | field wanted =>
        obtain ⟨rfl, inner⟩ : element = none ∧ ∀ child ∈ fields.find? (fun child => Text.ciEquals child.name wanted),
            child.Fits path := by
          simpa [FieldNode.Fits, FieldNode.find] using fits
        have entries := field_compileFields fields wanted
        simp only [FieldNode.reads, FieldNode.child, FieldNode.find, Bool.not_false, Bool.true_and]
        cases found : fields.find? fun child => Text.ciEquals child.name wanted with
        | none =>
          rw [found, Option.map_none] at entries
          cases whole with
          | false => simp [compileNode, ReadExpr.Returns, entries]
          | true =>
            by_cases bare : fields = []
            · simp [compileNode, ReadExpr.Returns, bare]
            · simp [compileNode, ReadExpr.Returns, bare, entries]
        | some child =>
          rw [found, Option.map_some] at entries
          have bare : fields ≠ [] := by
            rintro rfl
            cases found
          cases whole <;> simp [compileNode, ReadExpr.Returns, bare, entries, ih (inner child found)]

end DuckAcl
