import DuckAcl.Model.ExposedTypes

/-! # How far an exposed type is read

The clean reading of a type replaces aliases and ENUMs wherever they stand. `ExposedType` reaches it exactly when
every nested level prints differently as soon as one of its children is read differently. A child whose alias prints
like what it stands for hides what is to be replaced, in it and below it.
-/

namespace DuckAcl

namespace LogicalType

/-- An ENUM stands somewhere in the type. -/
def hasEnum : LogicalType → Bool
  | .enum _ _ => true
  | .nested _ children _ => decide (∃ child, hasEnum (children child) = true)
  | .scalar _ _ => false
  | .decimal _ _ _ => false

/-- No ENUM and no alias anywhere, JSON excepted. -/
def Clean : LogicalType → Prop
  | .enum _ _ => False
  | .nested _ children aliased => aliased = [] ∧ ∀ child, Clean (children child)
  | .scalar id aliased => aliased = [] ∨ (LogicalType.scalar id aliased).isJson = true
  | .decimal _ _ aliased => aliased = []

/-- The shape, the names and the sizes, over the base types of the leaves. -/
def skeleton : LogicalType → LogicalType
  | .enum _ _ => .scalar .varchar []
  | .nested kind children _ => .nested kind (fun child => skeleton (children child)) []
  | .scalar id _ => .scalar id []
  | .decimal width scale _ => .decimal width scale []

/-- The reading the flags ask for, at every depth. A nested type of which a part is read differently loses its own
alias too. -/
def readAs (stripAlias enumsToVarchar : Bool) : LogicalType → LogicalType
  | .enum labels aliased =>
    if enumsToVarchar then .scalar .varchar [] else .enum labels (if stripAlias then [] else aliased)
  | .nested kind children aliased =>
    .nested kind (fun child => readAs stripAlias enumsToVarchar (children child))
      (if stripAlias || (enumsToVarchar && hasEnum (.nested kind children aliased)) then [] else aliased)
  | .scalar id aliased =>
    .scalar id (if stripAlias && !(LogicalType.scalar id aliased).isJson then [] else aliased)
  | .decimal width scale aliased => .decimal width scale (if stripAlias then [] else aliased)

/-- At every nested level, children that all print as they are read are read as they are. -/
def ToldApart (print : LogicalType → Text) (stripAlias enumsToVarchar : Bool) : LogicalType → Prop
  | .nested _ children _ =>
    (∀ child, ToldApart print stripAlias enumsToVarchar (children child)) ∧
      ((∀ child, print (readAs stripAlias enumsToVarchar (children child)) = print (children child)) →
        ∀ child, readAs stripAlias enumsToVarchar (children child) = children child)
  | .enum _ _ => True
  | .scalar _ _ => True
  | .decimal _ _ _ => True

attribute [local simp] stripped getAlias withoutAlias baseOf Clean skeleton readAs ToldApart

variable {print : LogicalType → Text} {strip enums : Bool} {type : LogicalType}

section Levels

variable {kind : NestedKind} {children : Fin kind.arity → LogicalType} {aliased : Text}

@[simp] theorem hasEnum_nested :
    hasEnum (.nested kind children aliased) = true ↔ ∃ child, hasEnum (children child) = true :=
  decide_eq_true_iff

@[simp] theorem isJson_nested : isJson (.nested kind children aliased) = false := rfl

@[simp] theorem isJson_decimal {width scale : ℕ} : isJson (.decimal width scale aliased) = false := rfl

@[simp] theorem isJson_enum {labels : List Text} : isJson (.enum labels aliased) = false := rfl

theorem stripped_nested : stripped strip (.nested kind children aliased) =
    .nested kind children (if strip then [] else aliased) := by
  cases strip <;> by_cases empty : aliased = [] <;> simp [empty]

theorem stripped_scalar {id : ScalarId} : stripped strip (.scalar id aliased) = readAs strip enums (.scalar id aliased) := by
  cases strip <;> by_cases empty : aliased = [] <;> simp [empty]
  split <;> rfl

theorem stripped_decimal {width scale : ℕ} :
    stripped strip (.decimal width scale aliased) = readAs strip enums (.decimal width scale aliased) := by
  cases strip <;> by_cases empty : aliased = [] <;> simp [empty]

theorem stripped_enum {labels : List Text} :
    stripped strip (.enum labels aliased) = .enum labels (if strip then [] else aliased) := by
  cases strip <;> by_cases empty : aliased = [] <;> simp [empty]

/-- A nested type is built again over its exposed children, or left with its own. -/
theorem exposedType_nested : exposedType print strip enums (.nested kind children aliased) =
    if ∃ child, print (exposedType print strip enums (children child)) ≠ print (children child) then
      .nested kind (fun child => exposedType print strip enums (children child)) []
    else .nested kind children (if strip then [] else aliased) := by
  rw [← stripped_nested]
  rfl

end Levels

/-! ## Leaves and levels -/

section Leaves

variable {aliased : Text}

theorem exposedType_scalar {id : ScalarId} :
    exposedType print strip enums (.scalar id aliased) = readAs strip enums (.scalar id aliased) :=
  stripped_scalar

theorem exposedType_decimal {width scale : ℕ} :
    exposedType print strip enums (.decimal width scale aliased) = readAs strip enums (.decimal width scale aliased) :=
  stripped_decimal

theorem exposedType_enum {labels : List Text} :
    exposedType print strip enums (.enum labels aliased) = readAs strip enums (.enum labels aliased) := by
  cases enums with
  | true => rfl
  | false => exact stripped_enum

end Leaves

theorem hasEnum_readAs (type : LogicalType) : hasEnum (readAs strip enums type) = (!enums && hasEnum type) := by
  induction type with
  | scalar id aliased => exact (Bool.and_false _).symm
  | decimal width scale aliased => exact (Bool.and_false _).symm
  | enum labels aliased => cases enums <;> rfl
  | nested kind children aliased ih =>
    rw [Bool.eq_iff_iff, readAs, hasEnum_nested]
    simp [ih]

/-- A reading of a reading answers both requests. -/
theorem readAs_readAs {strip' enums' : Bool} (type : LogicalType) :
    readAs strip' enums' (readAs strip enums type) = readAs (strip || strip') (enums || enums') type := by
  induction type with
  | scalar id aliased =>
    by_cases json : (LogicalType.scalar id aliased).isJson = true
    · simp [json]
    · cases strip <;> cases strip' <;> simp [json]
  | decimal width scale aliased => cases strip <;> cases strip' <;> rfl
  | enum labels aliased => cases strip <;> cases enums <;> cases strip' <;> cases enums' <;> simp
  | nested kind children aliased ih =>
    have below := @hasEnum_readAs strip enums (.nested kind children aliased)
    rw [readAs] at below
    rw [readAs, readAs, below]
    simp only [readAs, ih]
    cases strip <;> cases enums <;> cases strip' <;> cases enums' <;> simp

theorem skeleton_readAs (type : LogicalType) : skeleton (readAs strip enums type) = skeleton type := by
  induction type with
  | scalar id aliased => rfl
  | decimal width scale aliased => rfl
  | enum labels aliased => cases enums <;> rfl
  | nested kind children aliased ih => simp only [readAs, skeleton, ih]

/-- Building a level again or not, the shape is kept. -/
theorem skeleton_exposedType (type : LogicalType) :
    skeleton (exposedType print strip enums type) = skeleton type := by
  induction type with
  | scalar id aliased => rw [exposedType_scalar, skeleton_readAs]
  | decimal width scale aliased => rw [exposedType_decimal, skeleton_readAs]
  | enum labels aliased => rw [exposedType_enum, skeleton_readAs]
  | nested kind children aliased ih =>
    rw [exposedType_nested]
    split
    · simp only [skeleton, ih]
    · rfl

/-- A type read as it is comes back as it was. -/
theorem exposedType_of_read (read : readAs strip enums type = type) : exposedType print strip enums type = type := by
  induction type with
  | scalar id aliased => rwa [exposedType_scalar]
  | decimal width scale aliased => rwa [exposedType_decimal]
  | enum labels aliased => rwa [exposedType_enum]
  | nested kind children aliased ih =>
    rw [readAs, nested.injEq] at read
    obtain ⟨-, readChildren, readAlias⟩ := read
    have unchanged : ∀ child, exposedType print strip enums (children child) = children child :=
      fun child => ih child (congrFun (eq_of_heq readChildren) child)
    rw [exposedType_nested, if_neg (by simp [unchanged]), nested.injEq]
    refine ⟨rfl, HEq.rfl, ?_⟩
    cases strip with
    | false => rfl
    | true => simpa using readAlias

/-- A second time changes nothing: a level built again has children that stay, and one left alone is compared with
the same children. -/
theorem exposedType_idempotent (type : LogicalType) :
    exposedType print strip enums (exposedType print strip enums type) = exposedType print strip enums type := by
  induction type with
  | scalar id aliased =>
    rw [exposedType_scalar]
    exact exposedType_of_read (by rw [readAs_readAs]; simp)
  | decimal width scale aliased =>
    rw [exposedType_decimal]
    exact exposedType_of_read (by rw [readAs_readAs]; simp)
  | enum labels aliased =>
    rw [exposedType_enum]
    exact exposedType_of_read (by rw [readAs_readAs]; simp)
  | nested kind children aliased ih =>
    rw [exposedType_nested]
    split
    · rw [exposedType_nested, if_neg (by simp [ih])]
      simp
    · rename_i unchanged
      rw [exposedType_nested, if_neg unchanged]
      cases strip <;> rfl

/-! ## The clean reading -/

theorem clean_readAs (type : LogicalType) : Clean (readAs true true type) := by
  induction type with
  | scalar id aliased =>
    by_cases json : (LogicalType.scalar id aliased).isJson = true
    · simp [json]
    · simp [json]
  | decimal width scale aliased => rfl
  | enum labels aliased => exact .inl rfl
  | nested kind children aliased ih => exact ⟨rfl, ih⟩

theorem Clean.hasEnum (clean : Clean type) : type.hasEnum = false := by
  induction type with
  | scalar id aliased => rfl
  | decimal width scale aliased => rfl
  | enum labels aliased => exact clean.elim
  | nested kind children aliased ih =>
    rw [Bool.eq_false_iff, ne_eq, hasEnum_nested]
    rintro ⟨child, stands⟩
    simp [ih child (clean.2 child)] at stands

theorem Clean.read (clean : Clean type) : readAs strip enums type = type := by
  induction type with
  | scalar id aliased =>
    rcases clean with rfl | json
    · simp
    · simp [json]
  | decimal width scale aliased => 
    cases clean
    simp
  | enum labels aliased => exact clean.elim
  | nested kind children aliased ih =>
    obtain ⟨rfl, below⟩ := clean
    simp [ih _ (below _)]

/-- An exposed type that is clean is the clean reading. -/
theorem clean_exposedType_iff :
    Clean (exposedType print true true type) ↔ exposedType print true true type = readAs true true type := by
  refine ⟨fun clean => ?_, fun reached => reached ▸ clean_readAs type⟩
  induction type with
  | scalar id aliased => exact exposedType_scalar
  | decimal width scale aliased => exact exposedType_decimal
  | enum labels aliased => exact exposedType_enum
  | nested kind children aliased ih =>
    rw [exposedType_nested] at clean ⊢
    split at clean
    · rename_i changed
      rw [if_pos changed]
      simp [ih _ (clean.2 _)]
    · rename_i unchanged
      rw [if_neg unchanged]
      simp [(clean.2 _).read]

/-! ## When the reading is reached -/

theorem hasEnum_of_read (read : readAs strip true type = type) : type.hasEnum = false := by
  rw [← read, hasEnum_readAs]
  rfl

/-- A type that changes had an alias to strip or an ENUM to replace. -/
theorem exposedType_unasked (noEnum : enums = false ∨ type.hasEnum = false) :
    exposedType print false enums type = type := by
  apply exposedType_of_read
  induction type with
  | scalar id aliased => simp
  | decimal width scale aliased => simp
  | enum labels aliased => rcases noEnum with rfl | noEnum <;> simp_all [hasEnum]
  | nested kind children aliased ih =>
    have below : ∀ child, enums = false ∨ (children child).hasEnum = false := by
      intro child
      refine noEnum.imp_right fun noEnum => ?_
      rw [Bool.eq_false_iff] at noEnum ⊢
      exact fun stands => noEnum (hasEnum_nested.mpr ⟨child, stands⟩)
    simp only [readAs, Bool.false_or, ih _ (below _)]
    rcases noEnum with rfl | noEnum <;> simp [*]

theorem ToldApart.of_read (read : readAs strip enums type = type) : ToldApart print strip enums type := by
  induction type with
  | nested kind children aliased ih =>
    rw [readAs, nested.injEq] at read
    have readChildren := congrFun (eq_of_heq read.2.1)
    exact ⟨fun child => ih child (readChildren child), fun _ => readChildren⟩
  | _ => trivial

/-- The reading is reached exactly when every level tells its changed children apart. -/
theorem exposedType_iff (type : LogicalType) :
    exposedType print strip enums type = readAs strip enums type ↔ ToldApart print strip enums type := by
  induction type with
  | scalar id aliased => simp only [exposedType_scalar, ToldApart]
  | decimal width scale aliased => simp only [exposedType_decimal, ToldApart]
  | enum labels aliased => simp only [exposedType_enum, ToldApart]
  | nested kind children aliased ih =>
    rw [exposedType_nested]
    constructor
    · intro reached
      split at reached
      · rename_i changed
        rw [readAs, nested.injEq] at reached
        have exposed := congrFun (eq_of_heq reached.2.1)
        refine ⟨fun child => (ih child).mp (exposed child), fun same => ?_⟩
        obtain ⟨child, differs⟩ := changed
        rw [exposed child] at differs
        exact absurd (same child) differs
      · rw [readAs, nested.injEq] at reached
        have read := congrFun (eq_of_heq reached.2.1)
        exact ⟨fun child => .of_read (read child).symm, fun _ child => (read child).symm⟩
    · rintro ⟨below, toldApart⟩
      have exposed := fun child => (ih child).mpr (below child)
      by_cases changed : ∃ child, print (exposedType print strip enums (children child)) ≠ print (children child)
      · rw [if_pos changed, readAs, nested.injEq]
        refine ⟨rfl, heq_of_eq (funext exposed), ?_⟩
        obtain ⟨child, differs⟩ := changed
        -- the child that changed had something to replace, so the reading drops this alias too
        cases strip with
        | true => rfl
        | false =>
          have asked : ¬(enums = false ∨ (children child).hasEnum = false) :=
            fun unasked => differs (by rw [exposedType_unasked unasked])
          rw [not_or, Bool.not_eq_false, Bool.not_eq_false] at asked
          rw [if_pos]
          rw [Bool.or_eq_true, Bool.and_eq_true, hasEnum_nested]
          exact .inr ⟨asked.1, child, asked.2⟩
      · rw [if_neg changed, readAs, nested.injEq]
        push Not at changed
        have read := toldApart fun child => by rw [← exposed child, changed child]
        refine ⟨rfl, heq_of_eq (funext fun child => (read child).symm), ?_⟩
        cases strip with
        | true => rfl
        | false =>
          cases enums with
          | false => rfl
          | true =>
            have noEnum : (LogicalType.nested kind children aliased).hasEnum = false := by
              rw [Bool.eq_false_iff, ne_eq, hasEnum_nested]
              rintro ⟨child, stands⟩
              simp [hasEnum_of_read (read child)] at stands
            simp [noEnum]

/-- One flag and then the other reach the clean reading where each step reaches what it is asked for. -/
theorem exposedType_then {strip' enums' : Bool} (first : ToldApart print strip enums type)
    (second : ToldApart print strip' enums' (readAs strip enums type)) :
    exposedType print strip' enums' (exposedType print strip enums type) =
      readAs (strip || strip') (enums || enums') type := by
  rw [(exposedType_iff type).mpr first, (exposedType_iff _).mpr second, readAs_readAs]

/-- An exposed type keeps its shape and stays when it is exposed again, whatever the flags. It is clean exactly when
every level tells apart the children that the clean reading changes. Where the single flags' levels do so too, on the
type and on each other's readings, they come to the same in either order. -/
theorem exposedType_clean_iff (print : LogicalType → Text) (type : LogicalType) :
    (Clean (exposedType print true true type) ∧ skeleton (exposedType print true true type) = skeleton type ∧
        (∀ strip enums, exposedType print strip enums (exposedType print strip enums type) =
          exposedType print strip enums type) ↔
      ToldApart print true true type) ∧
    (ToldApart print true true type →
      (ToldApart print true false type → ToldApart print false true (readAs true false type) →
        exposedType print true true type = exposedType print false true (exposedType print true false type)) ∧
      (ToldApart print false true type → ToldApart print true false (readAs false true type) →
        exposedType print true true type = exposedType print true false (exposedType print false true type))) := by
  refine ⟨⟨fun holds => ?_, fun toldApart => ⟨?_, skeleton_exposedType type, fun _ _ => exposedType_idempotent type⟩⟩,
    fun toldApart => ⟨fun first second => ?_, fun first second => ?_⟩⟩
  · exact (exposedType_iff type).mp (clean_exposedType_iff.mp holds.1)
  · exact clean_exposedType_iff.mpr ((exposedType_iff type).mpr toldApart)
  · rw [exposedType_then first second, (exposedType_iff type).mpr toldApart]
    rfl
  · rw [exposedType_then first second, (exposedType_iff type).mpr toldApart]
    rfl

/-! ## Types as the engine prints them -/

/-- `LogicalType::ToString`, over field names and labels that need no quoting: the alias where there is one. -/
def toText : LogicalType → Text
  | .scalar .varchar aliased => if aliased ≠ [] then aliased else "VARCHAR".toList
  | .scalar (.other name) aliased => if aliased ≠ [] then aliased else name
  | .decimal width scale aliased =>
    if aliased ≠ [] then aliased
    else "DECIMAL(".toList ++ (Nat.repr width).toList ++ ",".toList ++ (Nat.repr scale).toList ++ ")".toList
  | .enum labels aliased =>
    if aliased ≠ [] then aliased
    else "ENUM(".toList ++ List.intercalate ", ".toList (labels.map fun label => '\'' :: label ++ "'".toList) ++ ")".toList
  | .nested kind children aliased =>
    let texts := List.ofFn fun child => toText (children child)
    let fields (names : List Text) :=
      "(".toList ++ List.intercalate ", ".toList (List.zipWith (fun name text => name ++ ' ' :: text) names texts) ++
        ")".toList
    if aliased ≠ [] then aliased
    else match kind with
      | .struct names => "STRUCT".toList ++ fields names
      | .union names => "UNION".toList ++ fields names
      | .map => "MAP(".toList ++ List.intercalate ", ".toList texts ++ ")".toList
      | .list => texts.flatten ++ "[]".toList
      | .array size => texts.flatten ++ "[".toList ++ (Nat.repr size).toList ++ "]".toList

/-- `mood[]`, where `mood` is an ENUM. -/
def moods : LogicalType := .nested .list (fun _ => .enum ["sad".toList, "ok".toList] "mood".toList) []

/-- A list of a type that was created under the name `DECIMAL(10,2)`, for DECIMAL(10,2). -/
def prices : LogicalType := .nested .list (fun _ => .decimal 10 2 "DECIMAL(10,2)".toList) []

theorem exposedType_moods :
    Clean (exposedType toText true true moods) ∧
      exposedType toText true true moods = exposedType toText false true (exposedType toText true false moods) ∧
      exposedType toText true true moods = exposedType toText true false (exposedType toText false true moods) := by
  have both : ToldApart toText true true moods := by simp [moods, toText]
  have base : ToldApart toText true false moods := by simp [moods, toText]
  have labels : ToldApart toText false true moods := by simp [moods, toText]
  have then_labels : ToldApart toText false true (readAs true false moods) := by
    simp [moods, toText]
  have then_base : ToldApart toText true false (readAs false true moods) := by
    simp [moods, toText]
  obtain ⟨clean, order⟩ := exposedType_clean_iff toText moods
  exact ⟨(clean.mpr both).1, (order both).1 base then_labels, (order both).2 labels then_base⟩

/-- An alias that prints like its base type stays inside a list. -/
theorem prices_keep_alias : ¬Clean (exposedType toText true true prices) := by
  have width : Nat.toDigits 10 10 = ['1', '0'] := rfl
  have scale : Nat.toDigits 10 2 = ['2'] := rfl
  rw [clean_exposedType_iff, exposedType_iff]
  simp only [ToldApart, prices, readAs]
  rintro ⟨-, toldApart⟩
  have read := toldApart (fun _ => by simp [toText, width, scale]) ⟨0, Nat.one_pos⟩
  simp at read

end LogicalType

end DuckAcl
