import DuckAcl.Model.FunctionModel
import DuckAcl.Soundness.FunctionCategories

/-! # What the order of a policy's rows decides

The model is folded row by row. A candidate and its categories come from whichever rows name the function,
and a role's rows on a target replace one another. So the model is what the rows say, in any order, once
the rows on one target agree and the rows of one function spell it alike.
-/

namespace DuckAcl

namespace FunctionKey

theorem same_iff {key other : FunctionKey} : key.same other = true ↔ key.kind = other.kind ∧ key.name = other.name ∧
    Text.fold key.database = Text.fold other.database ∧ Text.fold key.schema = Text.fold other.schema := by
  simp [same, Text.ciEquals_iff]

theorem same_symm {key other : FunctionKey} (alike : key.same other = true) : other.same key = true := by
  obtain ⟨kind, name, database, schema⟩ := same_iff.mp alike
  exact same_iff.mpr ⟨kind.symm, name.symm, database.symm, schema.symm⟩

theorem same_trans {a b c : FunctionKey} (first : a.same b = true) (second : b.same c = true) : a.same c = true := by
  obtain ⟨kind, name, database, schema⟩ := same_iff.mp first
  obtain ⟨kind', name', database', schema'⟩ := same_iff.mp second
  exact same_iff.mpr ⟨kind.trans kind', name.trans name', database.trans database', schema.trans schema'⟩

/-- Keys of one function have one serialization. -/
theorem serialize_same {key other : FunctionKey} (alike : key.same other = true) : key.serialize = other.serialize := by
  obtain ⟨kind, name, database, schema⟩ := same_iff.mp alike
  rw [serialize, serialize, kind, name, database, schema]

end FunctionKey

/-- The key a row names, in lower case; a grant on a category names none. -/
def FunctionMemberRow.named (row : FunctionMemberRow) : Option FunctionKey := row.key.map (·.lowered)

def FunctionGrantRow.named (row : FunctionGrantRow) : Option FunctionKey :=
  if row.category = [] then row.key.map (·.lowered) else none

namespace FunctionCategoryModel

variable {model : FunctionCategoryModel}

/-! ## Candidates by key -/

private theorem find_changeFirst {key other : FunctionKey} {change : FunctionCandidate → FunctionCandidate}
    (keeps : ∀ candidate, (change candidate).key = candidate.key) (candidates : List FunctionCandidate) :
    (changeFirst key change candidates).find? (·.key.same other) =
      if key.same other then (candidates.find? (·.key.same other)).map change
      else candidates.find? (·.key.same other) := by
  induction candidates with
  | nil => simp [changeFirst]
  | cons candidate rest ih =>
    unfold changeFirst
    by_cases here : candidate.key.same key = true
    · rw [if_pos here]
      by_cases alike : key.same other = true
      · have both := FunctionKey.same_trans here alike
        simp [keeps, alike, both]
      · have neither : candidate.key.same other = false := by
          rw [Bool.eq_false_iff]
          exact fun found => alike (FunctionKey.same_trans (FunctionKey.same_symm here) found)
        simp [keeps, alike, neither]
    · rw [if_neg here]
      by_cases found : candidate.key.same other = true
      · have apart : key.same other = false := by
          rw [Bool.eq_false_iff]
          exact fun alike => here (FunctionKey.same_trans found (FunctionKey.same_symm alike))
        simp [found, apart]
      · simp [found, ih]

/-- A candidate with one more category. -/
def withCategory (category : Text) (candidate : FunctionCandidate) : FunctionCandidate :=
  if candidate.categories.any (Text.ciEquals · category) then candidate
  else { candidate with categories := candidate.categories ++ [category] }

/-- The candidate of a key, new where there is none. -/
def candidateOf (model : FunctionCategoryModel) (key : FunctionKey) : FunctionCandidate :=
  (model.findCandidate key).getD { key }

theorem findCandidate_congr {key other : FunctionKey} (alike : key.same other = true) :
    model.findCandidate key = model.findCandidate other := by
  unfold findCandidate
  congr 1
  funext candidate
  rw [Bool.eq_iff_iff]
  exact ⟨fun met => FunctionKey.same_trans met alike, fun met => FunctionKey.same_trans met (FunctionKey.same_symm alike)⟩

/-- A candidate added for a key that has none. -/
private theorem findCandidate_append {key other : FunctionKey} {categories : List Text} {rules : Entries Text RoleRules}
    {rows : Entries Text CategoryRow} (absent : model.findCandidate key = none) :
    findCandidate { candidates := model.candidates ++ [{ key, categories }], categories := rows, rules } other =
      if key.same other then some { key, categories } else model.findCandidate other := by
  rw [findCandidate, List.find?_append]
  by_cases alike : key.same other = true
  · have none : model.candidates.find? (·.key.same other) = none := by
      rw [← findCandidate, ← findCandidate_congr alike, absent]
    simp [alike, none]
  · simp [alike, findCandidate]

theorem findCandidate_addMember (category : Text) (key other : FunctionKey) :
    (model.addMember category key).findCandidate other =
      if key.lowered.same other then some (withCategory category (model.candidateOf key.lowered))
      else model.findCandidate other := by
  unfold addMember
  dsimp only
  have candidates : (if model.hasCategory category then model else model.addCategory category [] false).candidates =
      model.candidates := by
    split_ifs <;> rfl
  generalize (if model.hasCategory category then model else model.addCategory category [] false) = known at candidates
  have found_same : ∀ key, known.findCandidate key = model.findCandidate key := fun key => by
    rw [findCandidate, findCandidate, candidates]
  rw [found_same, candidateOf]
  cases found : model.findCandidate key.lowered with
  | none =>
    dsimp only [Option.getD_none]
    rw [candidates, findCandidate_append found]
    rfl
  | some existing =>
    dsimp only [Option.getD_some]
    by_cases alike : key.lowered.same other = true
    · have here : model.findCandidate other = some existing := by rw [← findCandidate_congr alike, found]
      rw [if_pos alike, withCategory]
      split_ifs
      · rw [found_same, here]
      · rw [findCandidate, find_changeFirst (by exact fun _ => rfl), if_pos alike, candidates, ← findCandidate, here]
        rfl
    · rw [if_neg alike]
      split_ifs
      · rw [found_same]
      · rw [findCandidate, find_changeFirst (by exact fun _ => rfl), if_neg alike, candidates, ← findCandidate]

theorem findCandidate_addNameGrant (role : Text) (key other : FunctionKey) (allowed : Bool) :
    (model.addNameGrant role key allowed).findCandidate other =
      if key.lowered.same other then some (model.candidateOf key.lowered) else model.findCandidate other := by
  unfold addNameGrant candidateOf
  dsimp only
  cases found : model.findCandidate key.lowered with
  | none => exact findCandidate_append found
  | some existing =>
    by_cases alike : key.lowered.same other = true
    · rw [if_pos alike]
      exact (findCandidate_congr alike).symm.trans found
    · rw [if_neg alike]
      rfl

/-! ## Rules by role -/

theorem rulesOf_changeRules (role other : Text) (change : RoleRules → RoleRules) :
    (model.changeRules role change).rulesOf other =
      if Text.ciEquals role other then change (model.rulesOf role) else model.rulesOf other := by
  unfold changeRules rulesOf
  dsimp only
  rw [Entries.find_put]
  by_cases same : Text.fold role = Text.fold other
  · simp [same, Text.ciEquals_iff]
  · have apart : Text.ciEquals role other = false := by
      rw [Bool.eq_false_iff]
      exact fun equal => same (Text.ciEquals_iff.mp equal)
    simp [apart, Ne.symm same]

/-! ## The model tells what the rows tell -/

/-- The candidates are those of the keys named, and in the categories the member rows put them in. -/
structure Tells (model : FunctionCategoryModel) (keys : List FunctionKey) (members : List (FunctionKey × Text)) : Prop where
  known : ∀ other, (model.findCandidate other).isSome = true ↔ ∃ key ∈ keys, key.same other = true
  spelled : ∀ {other candidate}, model.findCandidate other = some candidate → candidate.key ∈ keys
  categories : ∀ {other candidate}, model.findCandidate other = some candidate → ∀ category,
    (∃ written ∈ candidate.categories, Text.fold written = category) ↔
      ∃ member ∈ members, member.1.same other = true ∧ Text.fold member.2 = category
  listed : ∀ member ∈ members, member.1 ∈ keys

variable {keys : List FunctionKey} {members : List (FunctionKey × Text)}

theorem fold_withCategory (category : Text) (candidate : FunctionCandidate) (folded : Text) :
    (∃ written ∈ (withCategory category candidate).categories, Text.fold written = folded) ↔
      (∃ written ∈ candidate.categories, Text.fold written = folded) ∨ Text.fold category = folded := by
  unfold withCategory
  split_ifs with already
  · obtain ⟨written, member, same⟩ := List.any_eq_true.mp already
    refine ⟨.inl, ?_⟩
    rintro (old | rfl)
    · exact old
    · exact ⟨written, member, Text.ciEquals_iff.mp same⟩
  · simp only [List.mem_append, List.mem_singleton, or_and_right, exists_or, exists_eq_left]

/-- The candidate of a key has the categories the members of that key have. -/
theorem Tells.candidateOf (told : model.Tells keys members) (key : FunctionKey) (category : Text) :
    (∃ written ∈ (model.candidateOf key).categories, Text.fold written = category) ↔
      ∃ member ∈ members, member.1.same key = true ∧ Text.fold member.2 = category := by
  unfold FunctionCategoryModel.candidateOf
  cases found : model.findCandidate key with
  | some candidate => exact told.categories found category
  | none =>
    have unknown : ¬ ∃ key' ∈ keys, key'.same key = true := by
      rw [← told.known key, found]
      simp
    constructor
    · rintro ⟨written, member, -⟩
      cases member
    · rintro ⟨member, among, same, -⟩
      exact absurd ⟨member.1, told.listed member among, same⟩ unknown

theorem Tells.candidateOf_key (told : model.Tells keys members) (key : FunctionKey) :
    (model.candidateOf key).key ∈ keys ++ [key] := by
  unfold FunctionCategoryModel.candidateOf
  cases found : model.findCandidate key with
  | some candidate => exact List.mem_append_left _ (told.spelled found)
  | none => exact List.mem_append_right _ (List.mem_singleton_self key)

theorem Tells.addMember (told : model.Tells keys members) (category : Text) (key : FunctionKey) :
    (model.addMember category key).Tells (keys ++ [key.lowered]) (members ++ [(key.lowered, category)]) where
  known := by
    intro other
    rw [findCandidate_addMember]
    split_ifs with alike
    · simp [alike]
    · simp [told.known, alike]
  spelled := by
    intro other candidate found
    rw [findCandidate_addMember] at found
    split_ifs at found
    · obtain rfl := Option.some.inj found
      have kept : ∀ candidate, (withCategory category candidate).key = candidate.key := by
        intro candidate
        unfold withCategory
        split_ifs <;> rfl
      rw [kept]
      exact told.candidateOf_key key.lowered
    · exact List.mem_append_left _ (told.spelled found)
  categories := by
    intro other candidate found folded
    rw [findCandidate_addMember] at found
    simp only [List.mem_append, List.mem_singleton, or_and_right, exists_or, exists_eq_left]
    split_ifs at found with alike
    · obtain rfl := Option.some.inj found
      rw [fold_withCategory, told.candidateOf]
      have both : ∀ member : FunctionKey × Text, member.1.same key.lowered = true ↔ member.1.same other = true := by
        intro member
        exact ⟨fun met => FunctionKey.same_trans met alike,
          fun met => FunctionKey.same_trans met (FunctionKey.same_symm alike)⟩
      simp only [both, alike, true_and]
    · rw [told.categories found]
      simp [alike]
  listed := by
    intro member among
    rcases List.mem_append.mp among with old | new
    · exact List.mem_append_left _ (told.listed member old)
    · obtain rfl := List.mem_singleton.mp new
      exact List.mem_append_right _ (List.mem_singleton_self _)

theorem Tells.addNameGrant (told : model.Tells keys members) (role : Text) (key : FunctionKey) (allowed : Bool) :
    (model.addNameGrant role key allowed).Tells (keys ++ [key.lowered]) members where
  known := by
    intro other
    rw [findCandidate_addNameGrant]
    split_ifs with alike
    · simp [alike]
    · simp [told.known, alike]
  spelled := by
    intro other candidate found
    rw [findCandidate_addNameGrant] at found
    split_ifs at found
    · obtain rfl := Option.some.inj found
      exact told.candidateOf_key key.lowered
    · exact List.mem_append_left _ (told.spelled found)
  categories := by
    intro other candidate found folded
    rw [findCandidate_addNameGrant] at found
    split_ifs at found with alike
    · obtain rfl := Option.some.inj found
      rw [told.candidateOf]
      have both : ∀ member : FunctionKey × Text, member.1.same key.lowered = true ↔ member.1.same other = true := by
        intro member
        exact ⟨fun met => FunctionKey.same_trans met alike,
          fun met => FunctionKey.same_trans met (FunctionKey.same_symm alike)⟩
      simp only [both]
    · exact told.categories found folded
  listed := fun member among => List.mem_append_left _ (told.listed member among)

/-- What a member row adds to the members. -/
def memberOf (row : FunctionMemberRow) : Option (FunctionKey × Text) := row.named.map fun key => (key, row.category)

theorem Tells.memberRows (rows : List FunctionMemberRow) (told : model.Tells keys members) :
    (rows.foldl addMemberRow model).Tells (keys ++ rows.filterMap (·.named)) (members ++ rows.filterMap memberOf) := by
  induction rows generalizing model keys members with
  | nil => simpa using told
  | cons row rest ih =>
    rw [List.foldl_cons, addMemberRow]
    cases named : row.key with
    | none => simpa [FunctionMemberRow.named, memberOf, named] using ih told
    | some key => simpa [FunctionMemberRow.named, memberOf, named] using ih (told.addMember row.category key)

theorem Tells.grantRows (rows : List FunctionGrantRow) (told : model.Tells keys members) :
    (rows.foldl addGrantRow model).Tells (keys ++ rows.filterMap (·.named)) members := by
  induction rows generalizing model keys with
  | nil => simpa using told
  | cons row rest ih =>
    rw [List.foldl_cons, addGrantRow]
    by_cases category : row.category = []
    · cases named : row.key with
      | none => simpa [FunctionGrantRow.named, category, named] using ih told
      | some key =>
        simpa [FunctionGrantRow.named, category, named] using ih (told.addNameGrant row.role key (row.allowed.getD false))
    · have same : Tells (model.addCategoryGrant row.role row.category (row.allowed.getD false)) keys members :=
        ⟨told.known, told.spelled, told.categories, told.listed⟩
      simpa [FunctionGrantRow.named, category] using ih same

end FunctionCategoryModel

/-- The keys the rows name. -/
def FunctionRows.keys (rows : FunctionRows) : List FunctionKey :=
  rows.members.filterMap (·.named) ++ rows.grants.filterMap (·.named)

theorem FunctionRows.told (rows : FunctionRows) :
    rows.functionModel.Tells rows.keys (rows.members.filterMap FunctionCategoryModel.memberOf) := by
  have categories : ∀ (list : List (Text × Text × Option Bool)) (model : FunctionCategoryModel), model.candidates = [] →
      (list.foldl FunctionCategoryModel.addCategoryRow model).candidates = [] := by
    intro list
    induction list with
    | nil => exact fun _ empty => empty
    | cons row rest ih => exact fun model empty => ih _ empty
  have start : (rows.categories.foldl FunctionCategoryModel.addCategoryRow {}).Tells [] [] := by
    have none : ∀ other, (rows.categories.foldl FunctionCategoryModel.addCategoryRow {}).findCandidate other = none := by
      intro other
      rw [FunctionCategoryModel.findCandidate, categories rows.categories {} rfl]
      rfl
    refine ⟨fun other => by simp [none], ?_, ?_, by simp⟩
    · intro other candidate found
      rw [none] at found
      cases found
    · intro other candidate found
      rw [none] at found
      cases found
  exact (start.memberRows rows.members).grantRows rows.grants

/-! ## Rows on one target -/

/-- Rows that replace one another: where those on one target agree, each of the two answers holds when some
row gives it. -/
private theorem fold_agreed {σ α : Type} {f : σ → α → σ} (yes no : σ → Prop) {effect : α → Option Bool}
    (step : ∀ s a, (yes (f s a) ↔ (effect a).elim (yes s) (· = true)) ∧ (no (f s a) ↔ (effect a).elim (no s) (· = false)))
    {start : σ}
    (neither : ¬ yes start ∧ ¬ no start) {items : List α}
    (agreed : ∀ a ∈ items, ∀ a' ∈ items, ∀ b b', effect a = some b → effect a' = some b' → b = b') :
    (yes (items.foldl f start) ↔ ∃ a ∈ items, effect a = some true) ∧
      (no (items.foldl f start) ↔ ∃ a ∈ items, effect a = some false) := by
  induction items using List.reverseRecOn with
  | nil => simpa using neither
  | append_singleton items last ih =>
    have before := ih fun a member a' member' =>
      agreed a (List.mem_append_left _ member) a' (List.mem_append_left _ member')
    rw [List.foldl_append, List.foldl_cons, List.foldl_nil]
    simp only [List.mem_append, List.mem_singleton, or_and_right, exists_or, exists_eq_left]
    rw [(step _ last).1, (step _ last).2]
    cases spoken : effect last with
    | none => simpa using before
    | some answer =>
      dsimp only [Option.elim_some]
      have alike : ∀ a ∈ items, ∀ b, effect a = some b → b = answer := fun a member b gave =>
        agreed a (List.mem_append_left _ member) last (List.mem_append_right _ (List.mem_singleton_self _)) b answer gave spoken
      constructor
      · constructor
        · exact fun yes => .inr (by rw [yes])
        · rintro (⟨a, member, gave⟩ | gave)
          · exact (alike a member true gave).symm
          · exact Option.some.inj gave
      · constructor
        · exact fun no => .inr (by rw [no])
        · rintro (⟨a, member, gave⟩ | gave)
          · exact (alike a member false gave).symm
          · exact Option.some.inj gave

namespace FunctionGrantRow

/-- Whether the row allows. -/
def allows (row : FunctionGrantRow) : Bool := row.allowed.getD false

/-- What a row of a role answers on a category, folded. -/
def onCategory (role category : Text) (row : FunctionGrantRow) : Option Bool :=
  if row.category ≠ [] ∧ Text.ciEquals row.role role ∧ Text.fold row.category = category then some row.allows else none

/-- What a row of a role answers on a key, serialized. -/
def onKey (role key : Text) (row : FunctionGrantRow) : Option Bool :=
  if Text.ciEquals row.role role ∧ row.named.any (·.serialize = key) then some row.allows else none

end FunctionGrantRow

namespace FunctionCategoryModel

variable {model : FunctionCategoryModel}

/-- A role's rows on a category, replaced. -/
private theorem mem_addCategoryGrant (model : FunctionCategoryModel) (role other category folded : Text) (allowed : Bool) :
    (folded ∈ ((model.addCategoryGrant role category allowed).rulesOf other).categoriesAllowed ↔
      if Text.ciEquals role other ∧ Text.fold category = folded then allowed = true
      else folded ∈ (model.rulesOf other).categoriesAllowed) ∧
    (folded ∈ ((model.addCategoryGrant role category allowed).rulesOf other).categoriesDenied ↔
      if Text.ciEquals role other ∧ Text.fold category = folded then allowed = false
      else folded ∈ (model.rulesOf other).categoriesDenied) ∧
    ((model.addCategoryGrant role category allowed).rulesOf other).keysAllowed = (model.rulesOf other).keysAllowed ∧
    ((model.addCategoryGrant role category allowed).rulesOf other).keysDenied = (model.rulesOf other).keysDenied := by
  rw [addCategoryGrant, rulesOf_changeRules]
  by_cases same : Text.ciEquals role other = true
  · have rules : model.rulesOf role = model.rulesOf other := by rw [rulesOf, rulesOf, Text.ciEquals_iff.mp same]
    rw [if_pos same, rules]
    by_cases target : Text.fold category = folded
    · subst target
      cases allowed <;> simp [same]
    · have apart : folded ≠ Text.fold category := Ne.symm target
      cases allowed <;> simp [target, apart]
  · simp [same]

/-- A role's rows with those on a key replaced. -/
private def keyRules (serialized : Text) (allowed : Bool) (rules : RoleRules) : RoleRules :=
  if allowed then
    { rules with
      keysAllowed := insert serialized (rules.keysAllowed.erase serialized)
      keysDenied := rules.keysDenied.erase serialized }
  else
    { rules with
      keysAllowed := rules.keysAllowed.erase serialized
      keysDenied := insert serialized (rules.keysDenied.erase serialized) }

private theorem rulesOf_addNameGrant (role other : Text) (key : FunctionKey) (allowed : Bool) :
    (model.addNameGrant role key allowed).rulesOf other =
      if Text.ciEquals role other then keyRules key.lowered.serialize allowed (model.rulesOf role)
      else model.rulesOf other := by
  unfold addNameGrant
  dsimp only
  rw [rulesOf_changeRules]
  cases model.findCandidate key.lowered with
  | none => rfl
  | some existing => rfl

private theorem mem_addNameGrant (model : FunctionCategoryModel) (role other : Text) (key : FunctionKey) (serialized : Text) (allowed : Bool) :
    (serialized ∈ ((model.addNameGrant role key allowed).rulesOf other).keysAllowed ↔
      if Text.ciEquals role other ∧ key.lowered.serialize = serialized then allowed = true
      else serialized ∈ (model.rulesOf other).keysAllowed) ∧
    (serialized ∈ ((model.addNameGrant role key allowed).rulesOf other).keysDenied ↔
      if Text.ciEquals role other ∧ key.lowered.serialize = serialized then allowed = false
      else serialized ∈ (model.rulesOf other).keysDenied) ∧
    ((model.addNameGrant role key allowed).rulesOf other).categoriesAllowed = (model.rulesOf other).categoriesAllowed ∧
    ((model.addNameGrant role key allowed).rulesOf other).categoriesDenied = (model.rulesOf other).categoriesDenied := by
  rw [rulesOf_addNameGrant]
  by_cases same : Text.ciEquals role other = true
  · have rules : model.rulesOf role = model.rulesOf other := by rw [rulesOf, rulesOf, Text.ciEquals_iff.mp same]
    rw [if_pos same, rules]
    by_cases target : key.lowered.serialize = serialized
    · subst target
      cases allowed <;> simp [same, keyRules]
    · have apart : serialized ≠ key.lowered.serialize := Ne.symm target
      cases allowed <;> simp [target, apart, keyRules]
  · simp [same]

private theorem rulesOf_fold_members (rows : FunctionRows) (role : Text) :
    (rows.members.foldl addMemberRow (rows.categories.foldl addCategoryRow {})).rulesOf role = {} := by
  have categories : ∀ (list : List (Text × Text × Option Bool)) (model : FunctionCategoryModel),
      (list.foldl addCategoryRow model).rules = model.rules := by
    intro list
    induction list with
    | nil => exact fun _ => rfl
    | cons row rest ih => exact fun model => ih _
  have added : ∀ (model : FunctionCategoryModel) (category : Text) (key : FunctionKey),
      (model.addMember category key).rules = model.rules := by
    intro model category key
    unfold addMember
    dsimp only
    split
    · split_ifs <;> rfl
    · split_ifs <;> rfl
  have members : ∀ (list : List FunctionMemberRow) (model : FunctionCategoryModel),
      (list.foldl addMemberRow model).rules = model.rules := by
    intro list
    induction list with
    | nil => exact fun _ => rfl
    | cons row rest ih =>
      intro model
      rw [List.foldl_cons, ih, addMemberRow]
      split
      · rfl
      · exact added model _ _
  rw [rulesOf, members, categories]
  rfl

/-- The rows of a role on a category, where they agree. -/
theorem categories_agreed (rows : FunctionRows) (role folded : Text)
    (agreed : ∀ row ∈ rows.grants, ∀ row' ∈ rows.grants, ∀ answer answer', row.onCategory role folded = some answer →
      row'.onCategory role folded = some answer' → answer = answer') :
    (folded ∈ (rows.functionModel.rulesOf role).categoriesAllowed ↔
      ∃ row ∈ rows.grants, row.onCategory role folded = some true) ∧
    (folded ∈ (rows.functionModel.rulesOf role).categoriesDenied ↔
      ∃ row ∈ rows.grants, row.onCategory role folded = some false) := by
  have step : ∀ (model : FunctionCategoryModel) (row : FunctionGrantRow),
      (folded ∈ ((model.addGrantRow row).rulesOf role).categoriesAllowed ↔
        (row.onCategory role folded).elim (folded ∈ (model.rulesOf role).categoriesAllowed) (· = true)) ∧
      (folded ∈ ((model.addGrantRow row).rulesOf role).categoriesDenied ↔
        (row.onCategory role folded).elim (folded ∈ (model.rulesOf role).categoriesDenied) (· = false)) := by
    intro model row
    unfold addGrantRow FunctionGrantRow.onCategory
    by_cases category : row.category = []
    · simp only [category, ne_eq, not_true_eq_false, if_false, false_and]
      split
      · exact ⟨Iff.rfl, Iff.rfl⟩
      · rename_i key named
        obtain ⟨-, -, allowedSame, deniedSame⟩ := mem_addNameGrant model row.role role key [] (row.allowed.getD false)
        rw [allowedSame, deniedSame]
        exact ⟨Iff.rfl, Iff.rfl⟩
    · obtain ⟨allowed, denied, -, -⟩ := mem_addCategoryGrant model row.role role row.category folded (row.allowed.getD false)
      rw [if_pos category, allowed, denied]
      by_cases target : Text.ciEquals row.role role = true ∧ Text.fold row.category = folded
      · simp [category, target, FunctionGrantRow.allows]
      · simp only [target, if_false, category, ne_eq, not_false_eq_true, true_and]
        exact ⟨Iff.rfl, Iff.rfl⟩
  refine fold_agreed (fun model : FunctionCategoryModel => folded ∈ (model.rulesOf role).categoriesAllowed)
    (fun model : FunctionCategoryModel => folded ∈ (model.rulesOf role).categoriesDenied) step ?_ agreed
  rw [rulesOf_fold_members]
  simp

/-- The rows of a role on a key, where they agree. -/
theorem keys_agreed (rows : FunctionRows) (role serialized : Text)
    (agreed : ∀ row ∈ rows.grants, ∀ row' ∈ rows.grants, ∀ answer answer', row.onKey role serialized = some answer →
      row'.onKey role serialized = some answer' → answer = answer') :
    (serialized ∈ (rows.functionModel.rulesOf role).keysAllowed ↔
      ∃ row ∈ rows.grants, row.onKey role serialized = some true) ∧
    (serialized ∈ (rows.functionModel.rulesOf role).keysDenied ↔
      ∃ row ∈ rows.grants, row.onKey role serialized = some false) := by
  have step : ∀ (model : FunctionCategoryModel) (row : FunctionGrantRow),
      (serialized ∈ ((model.addGrantRow row).rulesOf role).keysAllowed ↔
        (row.onKey role serialized).elim (serialized ∈ (model.rulesOf role).keysAllowed) (· = true)) ∧
      (serialized ∈ ((model.addGrantRow row).rulesOf role).keysDenied ↔
        (row.onKey role serialized).elim (serialized ∈ (model.rulesOf role).keysDenied) (· = false)) := by
    intro model row
    unfold addGrantRow FunctionGrantRow.onKey FunctionGrantRow.named
    by_cases category : row.category = []
    · simp only [category, ne_eq, not_true_eq_false, if_false, if_true]
      cases named : row.key with
      | none => simp
      | some key =>
        obtain ⟨allowed, denied, -, -⟩ := mem_addNameGrant model row.role role key serialized (row.allowed.getD false)
        dsimp only
        rw [allowed, denied]
        by_cases target : Text.ciEquals row.role role = true ∧ key.lowered.serialize = serialized
        · simp [target, FunctionGrantRow.allows]
        · simp only [Option.map_some, Option.any_some, decide_eq_true_eq, target, if_false]
          exact ⟨Iff.rfl, Iff.rfl⟩
    · obtain ⟨-, -, allowed, denied⟩ := mem_addCategoryGrant model row.role role row.category [] (row.allowed.getD false)
      rw [if_pos category, allowed, denied]
      simp [category]
  refine fold_agreed (fun model : FunctionCategoryModel => serialized ∈ (model.rulesOf role).keysAllowed)
    (fun model : FunctionCategoryModel => serialized ∈ (model.rulesOf role).keysDenied) step ?_ agreed
  rw [rulesOf_fold_members]
  simp

end FunctionCategoryModel

/-! ## What the rows say of a key -/

namespace FunctionRows

variable {rows : FunctionRows}

/-- A grant that bears on a key: on its name, or on a category a member row puts it in. -/
def Bears (rows : FunctionRows) (row : FunctionGrantRow) (key : FunctionKey) : Prop :=
  (∃ named, row.named = some named ∧ named.serialize = key.serialize) ∨
    row.category ≠ [] ∧ ∃ member ∈ rows.members, ∃ named, member.named = some named ∧ named.same key = true ∧
      Text.ciEquals member.category row.category = true

/-- Some row of a role answers so on a key. -/
def Answers (rows : FunctionRows) (answer : Bool) (role : Text) (key : FunctionKey) : Prop :=
  ∃ row ∈ rows.grants, Text.ciEquals row.role role = true ∧ row.allows = answer ∧ rows.Bears row key

/-- Two grants on one target. -/
def Rivals (row other : FunctionGrantRow) : Prop :=
  (row.category ≠ [] ∧ other.category ≠ [] ∧ Text.ciEquals row.category other.category = true) ∨
    ∃ named named', row.named = some named ∧ other.named = some named' ∧ named.serialize = named'.serialize

/-- The rows of a role that bear on a key agree on each target. -/
def Agreed (rows : FunctionRows) (role : Text) (key : FunctionKey) : Prop :=
  ∀ row ∈ rows.grants, ∀ other ∈ rows.grants, Text.ciEquals row.role role = true → Text.ciEquals other.role role = true →
    rows.Bears row key → Rivals row other → row.allows = other.allows

theorem onCategory_eq_some {row : FunctionGrantRow} {role category : Text} {answer : Bool} :
    row.onCategory role category = some answer ↔ row.category ≠ [] ∧ Text.ciEquals row.role role = true ∧
      Text.fold row.category = category ∧ row.allows = answer := by
  unfold FunctionGrantRow.onCategory
  split_ifs with holds
  · simp [holds]
  · simp only [false_iff]
    exact fun ⟨given, role, category, _⟩ => holds ⟨given, role, category⟩

theorem onKey_eq_some {row : FunctionGrantRow} {role key : Text} {answer : Bool} :
    row.onKey role key = some answer ↔ Text.ciEquals row.role role = true ∧
      (∃ named, row.named = some named ∧ named.serialize = key) ∧ row.allows = answer := by
  unfold FunctionGrantRow.onKey
  simp only [Option.any_eq_true, decide_eq_true_eq]
  split_ifs with holds
  · simp [holds]
  · simp only [false_iff]
    exact fun ⟨role, named, _⟩ => holds ⟨role, named⟩

/-- A role's sets on a candidate are what its rows answer on the key. -/
theorem answers_of_agreed {role : Text} {candidate : FunctionCandidate}
    (found : rows.functionModel.findCandidate candidate.key = some candidate) (agreed : rows.Agreed role candidate.key) :
    ((candidate.key.serialize ∈ (rows.functionModel.rulesOf role).keysAllowed ∨
        ∃ category ∈ candidate.categories, Text.fold category ∈ (rows.functionModel.rulesOf role).categoriesAllowed) ↔
      rows.Answers true role candidate.key) ∧
    ((candidate.key.serialize ∈ (rows.functionModel.rulesOf role).keysDenied ∨
        ∃ category ∈ candidate.categories, Text.fold category ∈ (rows.functionModel.rulesOf role).categoriesDenied) ↔
      rows.Answers false role candidate.key) := by
  have inCategory := rows.told.categories found
  have memberships : ∀ category, (∃ written ∈ candidate.categories, Text.fold written = category) ↔
      ∃ member ∈ rows.members, ∃ named, member.named = some named ∧ named.same candidate.key = true ∧
        Text.fold member.category = category := by
    intro category
    rw [inCategory category]
    simp only [List.mem_filterMap, FunctionCategoryModel.memberOf, Option.map_eq_some_iff]
    constructor
    · rintro ⟨_, ⟨member, among, named, names, rfl⟩, alike, folded⟩
      exact ⟨member, among, named, names, alike, folded⟩
    · rintro ⟨member, among, named, names, alike, folded⟩
      exact ⟨(named, member.category), ⟨member, among, named, names, rfl⟩, alike, folded⟩
  have onKeys := FunctionCategoryModel.keys_agreed rows role candidate.key.serialize (by
    intro row member row' member' answer answer' spoken spoken'
    obtain ⟨roleOf, ⟨named, names, serialized⟩, rfl⟩ := onKey_eq_some.mp spoken
    obtain ⟨roleOf', ⟨named', names', serialized'⟩, rfl⟩ := onKey_eq_some.mp spoken'
    exact agreed row member row' member' roleOf roleOf' (.inl ⟨named, names, serialized⟩)
      (.inr ⟨named, named', names, names', serialized.trans serialized'.symm⟩))
  have onCategories : ∀ written ∈ candidate.categories, _ := fun written among =>
    FunctionCategoryModel.categories_agreed rows role (Text.fold written) (by
      intro row member row' member' answer answer' spoken spoken'
      obtain ⟨some, roleOf, folded, rfl⟩ := onCategory_eq_some.mp spoken
      obtain ⟨some', roleOf', folded', rfl⟩ := onCategory_eq_some.mp spoken'
      obtain ⟨placed, placedIn, named, names, alike, same⟩ := (memberships _).mp ⟨written, among, rfl⟩
      exact agreed row member row' member' roleOf roleOf'
        (.inr ⟨some, placed, placedIn, named, names, alike, Text.ciEquals_iff.mpr (same.trans folded.symm)⟩)
        (.inl ⟨some, some', Text.ciEquals_iff.mpr (folded.trans folded'.symm)⟩))
  have bears : ∀ answer, ((∃ row ∈ rows.grants, row.onKey role candidate.key.serialize = some answer) ∨
      ∃ written ∈ candidate.categories, ∃ row ∈ rows.grants, row.onCategory role (Text.fold written) = some answer) ↔
        rows.Answers answer role candidate.key := by
    intro answer
    constructor
    · rintro (⟨row, member, spoken⟩ | ⟨written, among, row, member, spoken⟩)
      · obtain ⟨roleOf, named, allows⟩ := onKey_eq_some.mp spoken
        exact ⟨row, member, roleOf, allows, .inl named⟩
      · obtain ⟨some, roleOf, folded, allows⟩ := onCategory_eq_some.mp spoken
        obtain ⟨placed, placedIn, named, names, alike, same⟩ := (memberships _).mp ⟨written, among, rfl⟩
        exact ⟨row, member, roleOf, allows,
          .inr ⟨some, placed, placedIn, named, names, alike, Text.ciEquals_iff.mpr (same.trans folded.symm)⟩⟩
    · rintro ⟨row, member, roleOf, allows, named | ⟨some, placed, placedIn, named, names, alike, same⟩⟩
      · exact .inl ⟨row, member, onKey_eq_some.mpr ⟨roleOf, named, allows⟩⟩
      · obtain ⟨written, among, folded⟩ := (memberships _).mpr ⟨placed, placedIn, named, names, alike, rfl⟩
        refine .inr ⟨written, among, row, member, onCategory_eq_some.mpr ⟨some, roleOf, ?_, allows⟩⟩
        rw [folded, Text.ciEquals_iff.mp same]
  constructor
  · rw [← bears true, onKeys.1]
    refine or_congr Iff.rfl ⟨?_, ?_⟩
    · exact fun ⟨written, among, holds⟩ => ⟨written, among, ((onCategories written among).1).mp holds⟩
    · exact fun ⟨written, among, holds⟩ => ⟨written, among, ((onCategories written among).1).mpr holds⟩
  · rw [← bears false, onKeys.2]
    refine or_congr Iff.rfl ⟨?_, ?_⟩
    · exact fun ⟨written, among, holds⟩ => ⟨written, among, ((onCategories written among).2).mp holds⟩
    · exact fun ⟨written, among, holds⟩ => ⟨written, among, ((onCategories written among).2).mpr holds⟩

end FunctionRows

end DuckAcl
