import DuckAcl.Soundness.FunctionModel

/-! # Adding and removing a function

A candidate is found by its key up to case and dropped by its key as it is spelled. So a removal that
spells the key another way than the candidate leaves the candidate, in no category and named by no grant.
Where every removal spells its key as the candidate does, none is left, and a removal undoes an addition.
-/

namespace DuckAcl

/-- A rule names the key. -/
def RoleRules.names (rules : RoleRules) (serialized : Text) : Prop :=
  serialized ∈ rules.keysAllowed ∨ serialized ∈ rules.keysDenied

namespace FunctionCategoryModel

variable {model : FunctionCategoryModel}

/-! ## What grants name -/

/-- A role's own rules, or another entry's, name the key. -/
theorem nameGranted_iff (model : FunctionCategoryModel) (role : Text) (key : FunctionKey) :
    model.nameGranted key = true ↔ (model.rulesOf role).names key.serialize ∨
      ∃ rule ∈ model.rules.list, rule.1 ≠ Text.fold role ∧ rule.2.names key.serialize := by
  rw [nameGranted, List.any_eq_true]
  simp only [decide_eq_true_eq]
  constructor
  · rintro ⟨rule, member, named⟩
    by_cases own : rule.1 = Text.fold role
    · have found : model.rules.find (Text.fold role) = some rule.2 := Entries.find_eq_some.mpr (own ▸ member)
      exact .inl (by rw [rulesOf, found]; exact named)
    · exact .inr ⟨rule, member, own, named⟩
  · rintro (named | ⟨rule, member, _, named⟩)
    · cases found : model.rules.find (Text.fold role) with
      | none => simp [rulesOf, found, RoleRules.names] at named
      | some rules =>
        rw [rulesOf, found] at named
        exact ⟨_, Entries.find_eq_some.mp found, named⟩
    · exact ⟨rule, member, named⟩

/-- What names the key after one role's rules changed. -/
theorem nameGranted_changeRules (model : FunctionCategoryModel) (role : Text) (change : RoleRules → RoleRules)
    (key : FunctionKey) :
    (model.changeRules role change).nameGranted key = true ↔ (change (model.rulesOf role)).names key.serialize ∨
      ∃ rule ∈ model.rules.list, rule.1 ≠ Text.fold role ∧ rule.2.names key.serialize := by
  rw [nameGranted_iff _ role, rulesOf_changeRules, if_pos (Text.ciEquals_refl role)]
  refine or_congr_right (exists_congr fun rule => ?_)
  simp only [changeRules, Entries.put, Entries.drop, Entries.keep, List.mem_cons, List.mem_filter, decide_eq_true_eq]
  constructor
  · rintro ⟨rfl | ⟨member, _⟩, apart, named⟩
    · exact absurd rfl apart
    · exact ⟨member, apart, named⟩
  · rintro ⟨member, apart, named⟩
    exact ⟨.inr ⟨member, apart⟩, apart, named⟩

theorem nameGranted_congr {key other : FunctionKey} (same : key.serialize = other.serialize) :
    model.nameGranted key = model.nameGranted other := by
  rw [nameGranted, nameGranted, same]

/-! ## No candidate is left behind -/

/-- Every candidate is in some category or named by some grant. -/
def Kept (model : FunctionCategoryModel) : Prop :=
  ∀ candidate ∈ model.candidates, candidate.categories ≠ [] ∨ model.nameGranted candidate.key = true

/-- The key is spelled as its candidate's. -/
def SpeltAs (model : FunctionCategoryModel) (key : FunctionKey) : Prop :=
  ∀ candidate ∈ model.candidates, candidate.key.serialize = key.lowered.serialize → candidate.key = key.lowered

/-- A removal spells its key as the candidate does. -/
def Spelled (model : FunctionCategoryModel) : FunctionEdit → Prop
  | .removeMember _ key => model.SpeltAs key
  | .removeNameGrant _ key => model.SpeltAs key
  | _ => True

/-- Every removal of a run does. -/
def SpelledRun (model : FunctionCategoryModel) : List FunctionEdit → Prop
  | [] => True
  | edit :: rest => model.Spelled edit ∧ SpelledRun (model.apply edit) rest

private theorem mem_changeFirst {key : FunctionKey} {change : FunctionCandidate → FunctionCandidate}
    {candidates : List FunctionCandidate} {candidate : FunctionCandidate} (member : candidate ∈ changeFirst key change candidates) :
    candidate ∈ candidates ∨ ∃ old ∈ candidates, candidates.find? (·.key.same key) = some old ∧ candidate = change old := by
  induction candidates with
  | nil => cases member
  | cons first rest ih =>
    rw [changeFirst] at member
    by_cases here : first.key.same key = true
    · rw [if_pos here] at member
      rcases List.mem_cons.mp member with rfl | later
      · exact .inr ⟨first, List.mem_cons_self, List.find?_cons_of_pos here, rfl⟩
      · exact .inl (List.mem_cons_of_mem _ later)
    · rw [if_neg here] at member
      rcases List.mem_cons.mp member with rfl | later
      · exact .inl List.mem_cons_self
      · rcases ih later with same | ⟨old, inside, found, rfl⟩
        · exact .inl (List.mem_cons_of_mem _ same)
        · exact .inr ⟨old, List.mem_cons_of_mem _ inside, by rw [List.find?_cons, Bool.not_eq_true _ |>.mp here, found], rfl⟩

/-- The rules do not change with the candidates. -/
private theorem nameGranted_rules {other : FunctionCategoryModel} (rules : other.rules = model.rules) (key : FunctionKey) :
    other.nameGranted key = model.nameGranted key := by
  rw [nameGranted, nameGranted, rules]

theorem Kept.addMember (kept : model.Kept) (category : Text) (key : FunctionKey) : (model.addMember category key).Kept := by
  have known : Kept (if model.hasCategory category then model else model.addCategory category [] false) := by
    split_ifs
    · exact kept
    · exact kept
  unfold FunctionCategoryModel.addMember
  generalize (if model.hasCategory category then model else model.addCategory category [] false) = filed at known
  dsimp only
  cases found : filed.findCandidate key.lowered with
  | none =>
    intro candidate member
    rcases List.mem_append.mp member with old | new
    · exact known candidate old
    · rw [List.mem_singleton.mp new]
      exact .inl (by simp)
  | some existing =>
    dsimp only
    split_ifs with inside
    · exact known
    · intro candidate member
      rcases mem_changeFirst member with old | ⟨old, _, _, rfl⟩
      · exact known candidate old
      · exact .inl (by simp)

/-- A pruned model keeps what it had to. -/
private theorem Kept.prune (key : FunctionKey)
    (kept : ∀ candidate ∈ model.candidates, candidate.categories ≠ [] ∨ model.nameGranted candidate.key = true ∨ candidate.key = key) :
    (model.pruneCandidate key).Kept := by
  intro candidate member
  obtain ⟨inside, held⟩ := List.mem_filter.mp member
  rcases kept candidate inside with filed | granted | same
  · exact .inl filed
  · exact .inr granted
  · subst same
    by_cases filed : candidate.categories = []
    · refine .inr ?_
      change model.nameGranted candidate.key = true
      simpa [filed] using held
    · exact .inl filed

theorem Kept.removeMember (kept : model.Kept) {category : Text} {key : FunctionKey} (spelled : model.SpeltAs key) :
    (model.removeMember category key).Kept := by
  unfold FunctionCategoryModel.removeMember
  dsimp only
  cases found : model.findCandidate key.lowered with
  | none => exact kept
  | some existing =>
    dsimp only
    have named := List.find?_some found
    have itself : existing.key = key.lowered := spelled existing (List.mem_of_find?_eq_some found) (FunctionKey.serialize_same named)
    split_ifs with same emptied
    · exact kept
    · refine Kept.prune key.lowered fun candidate member => ?_
      rcases mem_changeFirst member with old | ⟨old, _, first, rfl⟩
      · rcases kept candidate old with filed | granted
        · exact .inl filed
        · exact .inr (.inl granted)
      · obtain rfl : existing = old := Option.some.inj (found.symm.trans first)
        exact .inr (.inr itself)
    · intro candidate member
      rcases mem_changeFirst member with old | ⟨old, _, first, rfl⟩
      · exact kept candidate old
      · obtain rfl : existing = old := Option.some.inj (found.symm.trans first)
        exact .inl emptied

theorem Kept.removeCategory (kept : model.Kept) (name : Text) : (model.removeCategory name).Kept := by
  unfold FunctionCategoryModel.removeCategory
  split_ifs
  · intro candidate member
    obtain ⟨_, held⟩ := List.mem_filter.mp member
    by_cases filed : candidate.categories = []
    · refine .inr ?_
      have granted : model.nameGranted candidate.key = true := by simpa [filed] using held
      rw [nameGranted, List.any_eq_true] at granted ⊢
      obtain ⟨rule, inside, named⟩ := granted
      exact ⟨_, List.mem_map_of_mem inside, named⟩
    · exact .inl filed
  · exact kept

/-- A change of one role's rules that keeps what they name keeps every candidate. -/
private theorem Kept.changeRules (kept : model.Kept) (role : Text) (change : RoleRules → RoleRules)
    (keeps : ∀ serialized, (model.rulesOf role).names serialized → (change (model.rulesOf role)).names serialized) :
    (model.changeRules role change).Kept := by
  intro candidate member
  rcases kept candidate member with filed | granted
  · exact .inl filed
  · refine .inr ((nameGranted_changeRules model role change candidate.key).mpr ?_)
    exact ((nameGranted_iff model role candidate.key).mp granted).imp_left (keeps _)

private theorem Kept.addCategoryGrant (kept : model.Kept) (role category : Text) (allowed : Bool) :
    (model.addCategoryGrant role category allowed).Kept :=
  kept.changeRules role _ fun serialized named => by
    cases allowed <;> exact named

private theorem Kept.removeCategoryGrant (kept : model.Kept) (role category : Text) :
    (model.removeCategoryGrant role category).Kept := by
  unfold FunctionCategoryModel.removeCategoryGrant
  split_ifs
  · exact kept.changeRules role _ fun serialized named => named
  · exact kept

/-- A key's row in a role's rules. -/
private def withKey (serialized : Text) (allowed : Bool) (rules : RoleRules) : RoleRules :=
  if allowed then
    { rules with
      keysAllowed := insert serialized (rules.keysAllowed.erase serialized)
      keysDenied := rules.keysDenied.erase serialized }
  else
    { rules with
      keysAllowed := rules.keysAllowed.erase serialized
      keysDenied := insert serialized (rules.keysDenied.erase serialized) }

private theorem withKey_names (serialized : Text) (allowed : Bool) (rules : RoleRules) (other : Text) :
    (withKey serialized allowed rules).names other ↔ other = serialized ∨ rules.names other := by
  by_cases same : other = serialized
  · cases allowed <;> simp [withKey, RoleRules.names, same]
  · cases allowed <;> simp [withKey, RoleRules.names, same]

/-- A role's rules without a key. -/
private def withoutKey (serialized : Text) (rules : RoleRules) : RoleRules :=
  { rules with
    keysAllowed := rules.keysAllowed.erase serialized
    keysDenied := rules.keysDenied.erase serialized }

private theorem withoutKey_names (serialized : Text) (rules : RoleRules) (other : Text) :
    (withoutKey serialized rules).names other ↔ other ≠ serialized ∧ rules.names other := by
  simp only [withoutKey, RoleRules.names, Finset.mem_erase]
  tauto

/-- The model with a candidate for the key. -/
private def withCandidate (model : FunctionCategoryModel) (key : FunctionKey) : FunctionCategoryModel :=
  match model.findCandidate key.lowered with
  | some _ => model
  | none => { model with candidates := model.candidates ++ [{ key := key.lowered }] }

private theorem addNameGrant_eq (model : FunctionCategoryModel) (role : Text) (key : FunctionKey) (allowed : Bool) :
    model.addNameGrant role key allowed =
      (model.withCandidate key).changeRules role (withKey key.lowered.serialize allowed) := by
  rw [FunctionCategoryModel.addNameGrant, withCandidate]
  rfl

private theorem Kept.addNameGrant (kept : model.Kept) (role : Text) (key : FunctionKey) (allowed : Bool) :
    (model.addNameGrant role key allowed).Kept := by
  rw [addNameGrant_eq]
  have rules : (model.withCandidate key).rules = model.rules := by
    unfold withCandidate
    split <;> rfl
  have grown : ∀ candidate ∈ (model.withCandidate key).candidates, candidate ∈ model.candidates ∨
      candidate.key = key.lowered := by
    unfold withCandidate
    split
    · exact fun candidate member => .inl member
    · intro candidate member
      rcases List.mem_append.mp member with old | new
      · exact .inl old
      · exact .inr (by rw [List.mem_singleton.mp new])
  intro candidate member
  have granted := nameGranted_changeRules (model.withCandidate key) role (withKey key.lowered.serialize allowed) candidate.key
  rw [withKey_names] at granted
  rcases grown candidate member with old | same
  · rcases kept candidate old with filed | held
    · exact .inl filed
    · rw [← nameGranted_rules rules, nameGranted_iff _ role] at held
      exact .inr (granted.mpr (held.imp_left .inr))
  · exact .inr (granted.mpr (.inl (.inl (by rw [same]))))

private theorem Kept.removeNameGrant (kept : model.Kept) {role : Text} {key : FunctionKey} (spelled : model.SpeltAs key) :
    (model.removeNameGrant role key).Kept := by
  unfold FunctionCategoryModel.removeNameGrant
  split_ifs
  · refine Kept.prune key.lowered fun candidate member => ?_
    rcases kept candidate member with filed | held
    · exact .inl filed
    · by_cases same : candidate.key.serialize = key.lowered.serialize
      · exact .inr (.inr (spelled candidate member same))
      · refine .inr (.inl ((nameGranted_changeRules model role (withoutKey key.lowered.serialize) candidate.key).mpr ?_))
        rw [nameGranted_iff model role] at held
        exact held.imp_left fun named => (withoutKey_names _ _ _).mpr ⟨same, named⟩
  · exact kept

theorem Kept.apply (kept : model.Kept) {edit : FunctionEdit} (spelled : model.Spelled edit) : (model.apply edit).Kept := by
  cases edit with
  | addCategory name comment builtin => exact kept
  | removeCategory name => exact kept.removeCategory name
  | addMember category key => exact kept.addMember category key
  | removeMember category key => exact kept.removeMember spelled
  | addCategoryGrant role category allowed => exact kept.addCategoryGrant role category allowed
  | removeCategoryGrant role category => exact kept.removeCategoryGrant role category
  | addNameGrant role key allowed => exact kept.addNameGrant role key allowed
  | removeNameGrant role key => exact kept.removeNameGrant spelled

theorem Kept.run (kept : model.Kept) {edits : List FunctionEdit} (spelled : model.SpelledRun edits) :
    (edits.foldl FunctionCategoryModel.apply model).Kept := by
  induction edits generalizing model with
  | nil => exact kept
  | cons edit rest ih => exact ih (kept.apply spelled.1) spelled.2

/-! ## A removal undoes an addition -/

/-- The same answers to every call and every listing. -/
def SameAnswers (model other : FunctionCategoryModel) : Prop :=
  (∀ roles written kind, other.resolve roles written kind = model.resolve roles written kind) ∧
    ∀ roles, other.admittedKeys roles = model.admittedKeys roles

/-- Models of the same candidates and rules answer alike. -/
theorem SameAnswers.of_rules {other : FunctionCategoryModel} (candidates : other.candidates = model.candidates)
    (rules : ∀ role, other.rulesOf role = model.rulesOf role) : model.SameAnswers other := by
  have pass (keys categories : RoleRules → Finset Text) (verdict : FunctionVerdict) (candidate : FunctionCandidate)
      (roles : List Text) :
      other.judgePass keys categories verdict candidate roles = model.judgePass keys categories verdict candidate roles := by
    induction roles with
    | nil => rfl
    | cons role rest ih => rw [judgePass, judgePass, rules, ih]
  have judged : ∀ roles candidate, other.judge roles candidate = model.judge roles candidate := fun roles candidate => by
    rw [judge, judge, pass, pass]
  have named : ∀ kind name, other.named kind name = model.named kind name := fun kind name => by
    rw [FunctionCategoryModel.named, FunctionCategoryModel.named, candidates]
  have bare : ∀ roles name kind, other.resolveBare roles name kind = model.resolveBare roles name kind :=
    fun roles name kind => by simp only [resolveBare, named, judged]
  have listed : ∀ roles, other.listed roles = model.listed roles := fun roles => by
    funext candidate
    simp only [FunctionCategoryModel.listed, judged, bare]
  constructor
  · intro roles written kind
    simp only [resolve, named, judged]
  · intro roles
    simp only [admittedKeys, candidates, listed]

/-- A key in no category and named by no grant has no candidate. -/
theorem Kept.absent (kept : model.Kept) {key : FunctionKey} (unfiled : model.categoriesOf key = [])
    (ungranted : model.nameGranted key.lowered = false) : model.findCandidate key.lowered = none := by
  cases found : model.findCandidate key.lowered with
  | none => rfl
  | some candidate =>
    have member := List.mem_of_find?_eq_some found
    have named := List.find?_some found
    have same := FunctionKey.serialize_same named
    rw [FunctionCategoryModel.categoriesOf, found] at unfiled
    rcases kept candidate member with filed | granted
    · exact absurd unfiled filed
    · rw [nameGranted_congr same, ungranted] at granted
      cases granted

/-- Pruning drops a last candidate without category and grant, and no other than it. -/
private theorem prune_last {candidates : List FunctionCandidate} {key : FunctionKey}
    (absent : candidates.find? (·.key.same key) = none) {other : FunctionCategoryModel}
    (held : other.candidates = candidates ++ [{ key := key }]) (ungranted : other.nameGranted key = false) :
    (other.pruneCandidate key).candidates = candidates := by
  have apart : ∀ candidate ∈ candidates, candidate.key ≠ key := by
    intro candidate member same
    have differ := List.find?_eq_none.mp absent candidate member
    rw [same, same_refl] at differ
    exact differ rfl
  have last : ([{ key := key }] : List FunctionCandidate).filter (fun candidate =>
      !(candidate.categories.isEmpty && decide (candidate.key = key) && !other.nameGranted candidate.key)) = [] := by
    simp [ungranted]
  change other.candidates.filter _ = candidates
  rw [held, List.filter_append, last, List.append_nil, List.filter_eq_self]
  intro candidate member
  simp [apart candidate member]

private theorem changeFirst_last {candidates : List FunctionCandidate} {last : FunctionCandidate} {key : FunctionKey}
    {change : FunctionCandidate → FunctionCandidate} (absent : candidates.find? (·.key.same key) = none)
    (same : last.key.same key = true) : changeFirst key change (candidates ++ [last]) = candidates ++ [change last] := by
  induction candidates with
  | nil => simp [changeFirst, same]
  | cons first rest ih =>
    have away : first.key.same key = false := by simpa using List.find?_eq_none.mp absent first List.mem_cons_self
    rw [List.find?_cons, away] at absent
    rw [List.cons_append, changeFirst, away, if_neg Bool.false_ne_true, ih absent, List.cons_append]

/-- A member added and removed in one spelling. -/
private theorem addMember_removeMember {key key' : FunctionKey} (absent : model.findCandidate key.lowered = none)
    (ungranted : model.nameGranted key.lowered = false) (spelt : key'.lowered = key.lowered) (category : Text) :
    model.SameAnswers ((model.addMember category key).removeMember category key') := by
  have filed : ∀ base : FunctionCategoryModel, base.candidates = model.candidates → base.rules = model.rules →
      model.SameAnswers
        (removeMember { base with candidates := base.candidates ++ [{ key := key.lowered, categories := [category] }] }
          category key') := by
    intro base candidates rules
    have gone : base.candidates.find? (·.key.same key.lowered) = none := by
      rw [candidates]
      exact absent
    have found : (base.candidates ++ [({ key := key.lowered, categories := [category] } : FunctionCandidate)]).find?
        (·.key.same key.lowered) = some { key := key.lowered, categories := [category] } := by
      rw [List.find?_append, gone, Option.none_or, List.find?_cons, same_refl]
    have emptied : withoutCategory category { key := key.lowered, categories := [category] } = { key := key.lowered } := by
      simp [withoutCategory]
    rw [removeMember, spelt, findCandidate]
    dsimp only
    rw [found]
    dsimp only
    rw [emptied, if_neg (by simp), if_pos rfl, changeFirst_last gone (same_refl _)]
    refine SameAnswers.of_rules ((prune_last gone ?_ ?_).trans candidates) fun role => ?_
    · exact congrArg (fun last => base.candidates ++ [last]) emptied
    · rw [← ungranted, nameGranted, nameGranted]
      dsimp only
      rw [rules]
    · rw [rulesOf, rulesOf]
      change (Entries.find base.rules (Text.fold role)).getD {} = _
      rw [rules]
  rw [FunctionCategoryModel.addMember]
  split_ifs with known
  · rw [absent]
    exact filed model rfl rfl
  · have none : (model.addCategory category [] false).findCandidate key.lowered = none := absent
    rw [none]
    exact filed (model.addCategory category [] false) rfl rfl

/-- A grant by name added and removed in one spelling. -/
private theorem addNameGrant_removeNameGrant {key key' : FunctionKey} (absent : model.findCandidate key.lowered = none)
    (ungranted : model.nameGranted key.lowered = false) (spelt : key'.lowered = key.lowered) (role : Text) (allowed : Bool) :
    model.SameAnswers ((model.addNameGrant role key allowed).removeNameGrant role key') := by
  have none : model.withCandidate key =
      { model with candidates := model.candidates ++ [{ key := key.lowered }] } := by
    rw [withCandidate, absent]
  have unnamed : ∀ other, ¬ (model.rulesOf other).names key.lowered.serialize := fun other named => by
    rw [(nameGranted_iff model other key.lowered).mpr (.inl named)] at ungranted
    cases ungranted
  have known : (model.addNameGrant role key allowed).rules.has (Text.fold role) = true := by
    rw [addNameGrant_eq, changeRules, Entries.has_iff]
    simp [Entries.put, Entries.keys]
  rw [removeNameGrant, if_pos known, spelt]
  dsimp only
  have erased : ∀ other, ((model.addNameGrant role key allowed).changeRules role
      (withoutKey key.lowered.serialize)).rulesOf other = model.rulesOf other := by
    intro other
    have rules : ∀ other, (model.withCandidate key).rulesOf other = model.rulesOf other := fun other => by
      rw [none]
      rfl
    rw [rulesOf_changeRules, addNameGrant_eq, rulesOf_changeRules, rulesOf_changeRules, if_pos (Text.ciEquals_refl role), rules,
      rules]
    split_ifs with same
    · have alike : model.rulesOf role = model.rulesOf other := by rw [rulesOf, rulesOf, Text.ciEquals_iff.mp same]
      have plain := unnamed other
      rw [alike]
      generalize model.rulesOf other = held at plain
      rw [RoleRules.names, not_or] at plain
      cases allowed <;> simp [withoutKey, withKey, Finset.erase_insert_eq_erase, Finset.erase_eq_of_notMem, plain]
    · rfl
  have candidates : ((model.addNameGrant role key allowed).changeRules role
      (withoutKey key.lowered.serialize)).candidates = model.candidates ++ [{ key := key.lowered }] := by
    rw [addNameGrant_eq, none]
    rfl
  refine SameAnswers.of_rules (prune_last absent candidates ?_) fun other => ?_
  · rw [Bool.eq_false_iff, Ne, nameGranted_changeRules]
    change ¬ ((withoutKey key.lowered.serialize ((model.addNameGrant role key allowed).rulesOf role)).names
      key.lowered.serialize ∨ _)
    rw [withoutKey_names]
    rintro (⟨differ, _⟩ | ⟨rule, member, apart, named⟩)
    · exact differ rfl
    · rw [addNameGrant_eq, none] at member
      simp only [changeRules, Entries.put, Entries.drop, Entries.keep, List.mem_cons, List.mem_filter, decide_eq_true_eq] at member
      rcases member with rfl | ⟨inside, _⟩
      · exact apart rfl
      · rw [(nameGranted_iff model role key.lowered).mpr (.inr ⟨rule, inside, apart, named⟩)] at ungranted
        cases ungranted
  · rw [← erased other]
    rfl

/-- In a run whose removals spell their keys as the candidates do, no candidate is left without category and
grant, there is one for each key up to case, and a removal in the candidate's spelling undoes an addition of
a key that was in no category and named by no grant. -/
theorem removal_undoes_addition {edits : List FunctionEdit} (spelled : SpelledRun {} edits) :
    (edited edits).Kept ∧ (edited edits).Single ∧
      ∀ key key' : FunctionKey, key'.lowered.same key.lowered = true → (edited edits).categoriesOf key = [] →
        (edited edits).nameGranted key.lowered = false →
          (∀ category, ((edited edits).addMember category key).SpeltAs key' →
            (edited edits).SameAnswers (((edited edits).addMember category key).removeMember category key')) ∧
          ∀ role allowed, ((edited edits).addNameGrant role key allowed).SpeltAs key' →
            (edited edits).SameAnswers (((edited edits).addNameGrant role key allowed).removeNameGrant role key') := by
  have single := single_edited edits
  have kept : (edited edits).Kept := by
    have empty : ({} : FunctionCategoryModel).Kept := fun candidate member => by cases member
    exact empty.run spelled
  refine ⟨kept, single, fun key key' alike unfiled ungranted => ?_⟩
  generalize edited edits = model at kept single unfiled ungranted ⊢
  have absent := kept.absent unfiled ungranted
  have serial := FunctionKey.serialize_same alike
  constructor
  · intro category spelt
    refine addMember_removeMember absent ungranted (spelt { key := key.lowered, categories := [category] } ?_ serial.symm).symm
      category
    rw [FunctionCategoryModel.addMember]
    split_ifs
    · rw [absent]
      simp
    · have none : (model.addCategory category [] false).findCandidate key.lowered = none := absent
      rw [none]
      simp
  · intro role allowed spelt
    refine addNameGrant_removeNameGrant absent ungranted (spelt { key := key.lowered } ?_ serial.symm).symm role allowed
    rw [addNameGrant_eq, withCandidate, absent]
    simp [changeRules]

/-- The spelling of the two keys of the example. -/
private def lakeKey (database : String) : FunctionKey :=
  { database := database.toList, schema := "main".toList, name := "f".toList, kind := .scalar }

private theorem oneLetter_isName : NamePath.IsName ["f".toList] :=
  ⟨List.cons_ne_nil _ _, fun _ member => List.mem_singleton.mp member ▸ List.cons_ne_nil _ _⟩

private theorem oneLetter_short : ["f".toList].length ≤ 3 := Nat.succ_le_succ (Nat.zero_le 2)

private def oneLetter : WrittenName where
  path := ["f".toList]
  isName := oneLetter_isName
  short := oneLetter_short

theorem removal_undoes_addition_example :
    (edited []).SameAnswers (((edited []).addMember "c".toList (lakeKey "Lake")).removeMember "c".toList (lakeKey "Lake")) := by
  have run : SpelledRun {} [] := trivial
  exact ((removal_undoes_addition run).2.2 (lakeKey "Lake") (lakeKey "Lake") (same_refl _) (by decide) (by decide)).1 "c".toList
    (by unfold SpeltAs; decide)

/-- A member added as `Lake.main.f` and removed as `lake.main.f` stays a candidate: the bare name was in no
category before, and is one nobody is granted after. -/
theorem removal_leaves_candidate :
    ((edited []).resolve [] oneLetter .scalar).verdict = .uncategorized ∧
      ((edited [.addMember "c".toList (lakeKey "Lake"), .removeMember "c".toList (lakeKey "lake")]).resolve [] oneLetter
        .scalar).verdict = .notGranted ∧
      ¬ (edited [.addMember "c".toList (lakeKey "Lake"), .removeMember "c".toList (lakeKey "lake")]).Kept := by
  refine ⟨by decide, by decide, fun kept => ?_⟩
  have left := kept { key := lakeKey "Lake" } (by decide)
  rcases left with filed | granted
  · exact filed rfl
  · revert granted
    decide

end FunctionCategoryModel

end DuckAcl
