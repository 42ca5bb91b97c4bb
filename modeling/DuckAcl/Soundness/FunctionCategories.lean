import DuckAcl.Model.FunctionCategories

/-! # What a decision on a call rests on

A candidate's decision is two passes over the roles: some role denies it, else some role allows it. More
roles only add rows that may deny. A key is one candidate's, so the categories it is in are those its
decision looked at.
-/

namespace DuckAcl

namespace FunctionCategoryModel

variable {model : FunctionCategoryModel}

/-! ## The passes of a decision -/

theorem decides_eq_none_iff {keys categories : Finset Text} {candidate : FunctionCandidate} :
    decides keys categories candidate = none ↔
      candidate.key.serialize ∉ keys ∧ ∀ category ∈ candidate.categories, Text.fold category ∉ categories := by
  unfold decides
  split_ifs with named
  · simp [named]
  · simp [named, List.find?_eq_none]

theorem judgePass_eq_none_iff {keys categories : RoleRules → Finset Text} {verdict : FunctionVerdict}
    {candidate : FunctionCandidate} {roles : List Text} :
    model.judgePass keys categories verdict candidate roles = none ↔
      ∀ role ∈ roles, decides (keys (model.rulesOf role)) (categories (model.rulesOf role)) candidate = none := by
  induction roles with
  | nil => simp [judgePass]
  | cons role rest ih =>
    rw [judgePass, List.forall_mem_cons]
    cases first : decides (keys (model.rulesOf role)) (categories (model.rulesOf role)) candidate with
    | none => simp [ih]
    | some decided => cases decided <;> simp

theorem judgePass_spec {keys categories : RoleRules → Finset Text} {verdict : FunctionVerdict}
    {candidate : FunctionCandidate} {roles : List Text} {decision : FunctionDecision}
    (judged : model.judgePass keys categories verdict candidate roles = some decision) :
    decision.verdict = verdict ∧ decision.key = candidate.key := by
  induction roles with
  | nil => cases judged
  | cons role rest ih =>
    rw [judgePass] at judged
    split at judged
    · obtain rfl := Option.some.inj judged
      exact ⟨rfl, rfl⟩
    · obtain rfl := Option.some.inj judged
      exact ⟨rfl, rfl⟩
    · exact ih judged

/-- No row of the roles, or of everyone's, denies the candidate. -/
def Undenied (model : FunctionCategoryModel) (roles : List Text) (candidate : FunctionCandidate) : Prop :=
  ∀ role ∈ roles ++ [[]], candidate.key.serialize ∉ (model.rulesOf role).keysDenied ∧
    ∀ category ∈ candidate.categories, Text.fold category ∉ (model.rulesOf role).categoriesDenied

theorem judge_key (model : FunctionCategoryModel) (roles : List Text) (candidate : FunctionCandidate) :
    (model.judge roles candidate).key = candidate.key := by
  unfold judge
  dsimp only
  split
  · rename_i decision judged
    exact (judgePass_spec judged).2
  · split
    · rename_i decision judged
      exact (judgePass_spec judged).2
    · rfl

/-- A candidate is denied exactly when some row denies it. -/
theorem judge_denied_iff {roles : List Text} {candidate : FunctionCandidate} :
    (model.judge roles candidate).verdict = .denied ↔ ¬ model.Undenied roles candidate := by
  have none : model.judgePass RoleRules.keysDenied RoleRules.categoriesDenied .denied candidate (roles ++ [[]]) = none ↔
      model.Undenied roles candidate := by
    rw [judgePass_eq_none_iff]
    simp only [decides_eq_none_iff, Undenied]
  unfold judge
  dsimp only
  split
  · rename_i decision judged
    simp [← none, judged, (judgePass_spec judged).1]
  · rename_i unjudged
    rw [← none]
    simp only [unjudged, not_true_eq_false, iff_false]
    split
    · rename_i decision judged
      simp [(judgePass_spec judged).1]
    · simp

/-- More roles deny at least as much. -/
theorem Undenied.fewer {roles more : List Text} {candidate : FunctionCandidate} (undenied : model.Undenied more candidate)
    (contains : roles ⊆ more) : model.Undenied roles candidate := by
  intro role member
  refine undenied role ?_
  rcases List.mem_append.mp member with own | everyone
  · exact List.mem_append_left _ (contains own)
  · exact List.mem_append_right _ everyone

/-! ## A resolved call -/

theorem neverByKey_verdict {decision : FunctionDecision} {verdict : FunctionVerdict} (other : verdict ≠ .never) :
    (neverByKey decision).verdict = verdict ↔
      decision.verdict = verdict ∧ functionNeverCallable decision.key.name decision.key.database = false := by
  unfold neverByKey
  split_ifs with never
  · simp [never, Ne.symm other]
  · simp [never]

theorem neverByKey_key (decision : FunctionDecision) : (neverByKey decision).key = decision.key := by
  unfold neverByKey
  split_ifs <;> rfl

/-- Which candidate a call is judged on, if any: it depends on the name and not on the roles. -/
def chosen (model : FunctionCategoryModel) (written : WrittenName) (kind : FunctionKind) : Option FunctionCandidate :=
  let name := Text.fold written.name
  if functionNeverCallable name [] && !functionNeverOnlyInSystem name then none
  else if written.qualified then findQualified written.catalog written.schema (model.named kind name)
  else
    match (model.named kind name).foldl pickBare none with
    | some (best, _, false) => some best
    | _ => none

/-- A call with a candidate is that candidate's decision; without one its verdict is no candidate's. -/
theorem resolve_chosen (model : FunctionCategoryModel) (roles : List Text) (written : WrittenName) (kind : FunctionKind) :
    match model.chosen written kind with
    | some candidate => model.resolve roles written kind = neverByKey (model.judge roles candidate)
    | none => (∀ other, model.resolve other written kind = model.resolve roles written kind) ∧
      (model.resolve roles written kind).verdict ≠ .admitted ∧ (model.resolve roles written kind).verdict ≠ .denied := by
  unfold chosen resolve
  dsimp only
  split_ifs with never qualified
  · exact ⟨fun _ => rfl, by simp, by simp⟩
  · cases findQualified written.catalog written.schema (model.named kind (Text.fold written.name)) with
    | none => exact ⟨fun _ => rfl, by simp, by simp⟩
    | some found => rfl
  · match (model.named kind (Text.fold written.name)).foldl pickBare none with
    | none =>
      refine ⟨fun _ => rfl, ?_, ?_⟩
      · intro admitted
        simpa using ((neverByKey_verdict (by simp)).mp admitted).1
      · intro denied
        simpa using ((neverByKey_verdict (by simp)).mp denied).1
    | some (_, _, true) => exact ⟨fun _ => rfl, by simp, by simp⟩
    | some (best, _, false) => rfl

/-- A denied call is denied for every list with more roles. -/
theorem resolve_denied_more {roles more : List Text} {written : WrittenName} {kind : FunctionKind} (contains : roles ⊆ more)
    (denied : (model.resolve roles written kind).verdict = .denied) :
    (model.resolve more written kind).verdict = .denied := by
  have few := model.resolve_chosen roles written kind
  have many := model.resolve_chosen more written kind
  match found : model.chosen written kind with
  | none =>
    simp only [found] at few
    exact absurd denied few.2.2
  | some candidate =>
    simp only [found] at few many
    rw [few, neverByKey_verdict (by simp), judge_denied_iff, judge_key] at denied
    rw [many, neverByKey_verdict (by simp), judge_denied_iff, judge_key]
    exact ⟨fun undenied => denied.1 (undenied.fewer contains), denied.2⟩

/-- An admitted call is a candidate's that no row denies, and its key is not in the never set. -/
theorem resolve_admitted {roles : List Text} {written : WrittenName} {kind : FunctionKind}
    (admitted : (model.resolve roles written kind).verdict = .admitted) :
    ∃ candidate, model.chosen written kind = some candidate ∧ (model.resolve roles written kind).key = candidate.key ∧
      functionNeverCallable candidate.key.name candidate.key.database = false ∧ model.Undenied roles candidate := by
  have resolved := model.resolve_chosen roles written kind
  match found : model.chosen written kind with
  | none =>
    simp only [found] at resolved
    exact absurd admitted resolved.2.1
  | some candidate =>
    simp only [found] at resolved
    rw [resolved, neverByKey_verdict (by simp), judge_key] at admitted
    refine ⟨candidate, rfl, ?_, admitted.2, ?_⟩
    · rw [resolved, neverByKey_key, judge_key]
    · by_contra denied
      rw [judge_denied_iff.mpr denied] at admitted
      cases admitted.1

/-! ## The candidates of a model that edits made -/

/-- Names are in lower case, and no function has two candidates. -/
structure Single (model : FunctionCategoryModel) : Prop where
  lowered : ∀ key ∈ model.candidates.map (·.key), Text.fold key.name = key.name
  distinct : (model.candidates.map (·.key)).Pairwise fun key other => key.same other = false

theorem Single.keys {other : FunctionCategoryModel} (single : model.Single)
    (fewer : (other.candidates.map (·.key)).Sublist (model.candidates.map (·.key))) : other.Single where
  lowered := fun key member => single.lowered key (fewer.subset member)
  distinct := single.distinct.sublist fewer

theorem Single.sameKeys {other : FunctionCategoryModel} (single : model.Single)
    (same : other.candidates.map (·.key) = model.candidates.map (·.key)) : other.Single :=
  single.keys (same ▸ List.Sublist.refl _)

theorem changeFirst_keys {key : FunctionKey} {change : FunctionCandidate → FunctionCandidate}
    (keeps : ∀ candidate, (change candidate).key = candidate.key) (candidates : List FunctionCandidate) :
    (changeFirst key change candidates).map (·.key) = candidates.map (·.key) := by
  induction candidates with
  | nil => rfl
  | cons candidate rest ih =>
    unfold changeFirst
    split_ifs
    · simp [keeps]
    · simp [ih]

/-- A candidate for a key that has none. -/
theorem Single.add (single : model.Single) {key : FunctionKey} (absent : model.findCandidate key.lowered = none)
    (categories : List Text) :
    Single { model with candidates := model.candidates ++ [{ key := key.lowered, categories := categories }] } where
  lowered := by
    intro other member
    rw [List.map_append] at member
    rcases List.mem_append.mp member with old | new
    · exact single.lowered other old
    · obtain rfl := List.mem_singleton.mp new
      exact Text.fold_fold key.name
  distinct := by
    rw [List.map_append]
    refine List.pairwise_append.mpr ⟨single.distinct, List.pairwise_singleton _ _, ?_⟩
    intro other member last new
    obtain ⟨candidate, there, rfl⟩ := List.mem_map.mp member
    obtain rfl := List.mem_singleton.mp new
    simpa using List.find?_eq_none.mp absent candidate there

theorem Single.prune (single : model.Single) (key : FunctionKey) : (model.pruneCandidate key).Single :=
  single.keys (List.filter_sublist.map _)

theorem Single.addMember (single : model.Single) (category : Text) (key : FunctionKey) :
    (model.addMember category key).Single := by
  have known : Single (if model.hasCategory category then model else model.addCategory category [] false) := by
    split_ifs
    · exact single
    · exact ⟨single.lowered, single.distinct⟩
  unfold FunctionCategoryModel.addMember
  dsimp only
  generalize (if model.hasCategory category then model else model.addCategory category [] false) = named at known
  split
  · split_ifs
    · exact known
    · refine known.sameKeys (changeFirst_keys ?_ _)
      exact fun _ => rfl
  · rename_i absent
    exact known.add absent [category]

theorem Single.removeMember (single : model.Single) (category : Text) (key : FunctionKey) :
    (model.removeMember category key).Single := by
  unfold FunctionCategoryModel.removeMember
  dsimp only
  split
  · exact single
  · have removed : Single
        { model with candidates := changeFirst key.lowered (withoutCategory category) model.candidates } := by
      refine single.sameKeys (changeFirst_keys ?_ _)
      exact fun _ => rfl
    split_ifs
    · exact single
    · exact removed.prune key.lowered
    · exact removed

theorem Single.addNameGrant (single : model.Single) (role : Text) (key : FunctionKey) (allowed : Bool) :
    (model.addNameGrant role key allowed).Single := by
  unfold FunctionCategoryModel.addNameGrant
  dsimp only
  split
  · exact ⟨single.lowered, single.distinct⟩
  · rename_i absent
    have added := single.add absent []
    exact ⟨added.lowered, added.distinct⟩

theorem Single.removeCategory (single : model.Single) (name : Text) : (model.removeCategory name).Single := by
  unfold FunctionCategoryModel.removeCategory
  split_ifs
  · refine single.keys ?_
    have keys : (model.candidates.map (withoutCategory name)).map (·.key) = model.candidates.map (·.key) := by
      rw [List.map_map]
      rfl
    rw [← keys]
    exact List.filter_sublist.map _
  · exact single

/-- Every edit keeps the candidates single. -/
theorem Single.apply (single : model.Single) (edit : FunctionEdit) : (model.apply edit).Single := by
  cases edit with
  | addCategory name comment builtin => exact ⟨single.lowered, single.distinct⟩
  | removeCategory name => exact single.removeCategory name
  | addMember category key => exact single.addMember category key
  | removeMember category key => exact single.removeMember category key
  | addCategoryGrant role category allowed => exact ⟨single.lowered, single.distinct⟩
  | removeCategoryGrant role category =>
    unfold FunctionCategoryModel.apply FunctionCategoryModel.removeCategoryGrant
    dsimp only
    split_ifs
    · exact ⟨single.lowered, single.distinct⟩
    · exact single
  | addNameGrant role key allowed => exact single.addNameGrant role key allowed
  | removeNameGrant role key =>
    unfold FunctionCategoryModel.apply FunctionCategoryModel.removeNameGrant
    dsimp only
    split_ifs
    · refine Single.prune ?_ key.lowered
      exact ⟨single.lowered, single.distinct⟩
    · exact single

theorem single_edited (edits : List FunctionEdit) : (edited edits).Single := by
  have all : ∀ (edits : List FunctionEdit) (model : FunctionCategoryModel), model.Single →
      (edits.foldl FunctionCategoryModel.apply model).Single := by
    intro edits
    induction edits with
    | nil => exact fun _ single => single
    | cons edit rest ih => exact fun model single => ih _ (single.apply edit)
  exact all edits {} ⟨by simp, by simp⟩

theorem same_refl (key : FunctionKey) : key.same key = true := by
  simp [FunctionKey.same]

/-- A candidate is the one found for its key. -/
theorem Single.findCandidate (single : model.Single) {candidate : FunctionCandidate} (member : candidate ∈ model.candidates) :
    model.findCandidate candidate.key = some candidate := by
  have distinct := single.distinct
  rw [List.pairwise_map] at distinct
  obtain ⟨before, after, split⟩ := List.append_of_mem member
  rw [split, List.pairwise_append] at distinct
  have none : before.find? (·.key.same candidate.key) = none :=
    List.find?_eq_none.mpr fun other there => by simp [distinct.2.2 other there candidate List.mem_cons_self]
  rw [FunctionCategoryModel.findCandidate, split, List.find?_append, none, Option.none_or, List.find?_cons_of_pos]
  exact same_refl candidate.key

/-- A key's categories are those of its candidate. -/
theorem Single.categoriesOf (single : model.Single) {candidate : FunctionCandidate} (member : candidate ∈ model.candidates) :
    model.categoriesOf candidate.key = candidate.categories := by
  have lowered : candidate.key.lowered = candidate.key := by
    rw [FunctionKey.lowered, single.lowered candidate.key (List.mem_map_of_mem member)]
  rw [FunctionCategoryModel.categoriesOf, lowered, single.findCandidate member]
  rfl

/-! ## The chosen candidate is one of the model's -/

private theorem pickQualified_mem {catalog schema : Text} {candidates : List FunctionCandidate}
    {found : Option FunctionCandidate} {candidate : FunctionCandidate}
    (picked : candidates.foldl (pickQualified catalog schema) found = some candidate) :
    candidate ∈ candidates ∨ found = some candidate := by
  induction candidates generalizing found with
  | nil => exact .inr picked
  | cons first rest ih =>
    rcases ih picked with later | here
    · exact .inl (List.mem_cons_of_mem _ later)
    · unfold pickQualified at here
      dsimp only at here
      split_ifs at here
      · exact .inr here
      · exact .inr here
      · exact .inr here
      · exact .inl (Option.some.inj here ▸ List.mem_cons_self)
      · exact .inr here

private theorem pickBare_mem {candidates : List FunctionCandidate} {best : Option (FunctionCandidate × ℕ × Bool)}
    {result : FunctionCandidate × ℕ × Bool} (picked : candidates.foldl pickBare best = some result) :
    result.1 ∈ candidates ∨ ∃ old, best = some old ∧ old.1 = result.1 := by
  induction candidates generalizing best with
  | nil => exact .inr ⟨result, picked, rfl⟩
  | cons first rest ih =>
    rcases ih picked with later | ⟨old, here, same⟩
    · exact .inl (List.mem_cons_of_mem _ later)
    · rw [← same]
      unfold pickBare at here
      dsimp only at here
      split at here
      · exact .inl (Option.some.inj here ▸ List.mem_cons_self)
      · split_ifs at here
        · exact .inl (Option.some.inj here ▸ List.mem_cons_self)
        · exact .inr ⟨_, rfl, Option.some.inj here ▸ rfl⟩
        · exact .inr ⟨_, rfl, Option.some.inj here ▸ rfl⟩

theorem chosen_mem {written : WrittenName} {kind : FunctionKind} {candidate : FunctionCandidate}
    (chosen : model.chosen written kind = some candidate) : candidate ∈ model.candidates := by
  suffices among : candidate ∈ model.named kind (Text.fold written.name) from List.mem_of_mem_filter among
  unfold FunctionCategoryModel.chosen at chosen
  dsimp only at chosen
  split_ifs at chosen
  · unfold findQualified at chosen
    split at chosen
    · rename_i found picked
      obtain rfl := Option.some.inj chosen
      exact (pickQualified_mem picked).resolve_right (by simp)
    · split_ifs at chosen
      exact List.mem_of_find?_eq_some chosen
  · split at chosen
    · rename_i best rank picked
      obtain rfl := Option.some.inj chosen
      exact (pickBare_mem picked).resolve_right (by simp)
    · cases chosen

end FunctionCategoryModel

end DuckAcl
