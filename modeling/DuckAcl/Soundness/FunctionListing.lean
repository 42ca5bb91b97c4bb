import DuckAcl.Soundness.FunctionCategories

/-! # The listing of functions

`AdmittedKeys` judges the candidates one by one, a call goes through the resolution of its name. In a model
made by edits a key is a candidate once, so a key's full name finds its candidate and no other, and the
listing holds exactly the keys a call of whose full name is admitted and, outside the system catalog, a
call of whose bare name is.
-/

namespace DuckAcl

/-- A key's full name, when each part of it can be written. -/
def FunctionKey.fullName (key : FunctionKey) (named : NamePath.IsName [key.database, key.schema, key.name]) : WrittenName where
  path := [key.database, key.schema, key.name]
  isName := named
  short := le_rfl

def FunctionKey.bareName (key : FunctionKey) (named : NamePath.IsName [key.database, key.schema, key.name]) : WrittenName where
  path := [key.name]
  isName := ⟨by simp, fun part member => named.2 part (by simp only [List.mem_singleton] at member; simp [member])⟩
  short := by simp

namespace FunctionCategoryModel

variable {model : FunctionCategoryModel}

theorem resolve_bare (roles : List Text) {written : WrittenName} (bare : written.qualified = false) (kind : FunctionKind) :
    model.resolve roles written kind = model.resolveBare roles written.name kind := by
  simp only [resolve, resolveBare, bare, Bool.false_eq_true, ↓reduceIte]

theorem resolve_bareName (roles : List Text) (key : FunctionKey)
    (named : NamePath.IsName [key.database, key.schema, key.name]) :
    model.resolve roles (key.bareName named) key.kind = model.resolveBare roles key.name key.kind :=
  resolve_bare roles rfl key.kind

/-- With a catalog written, a qualified name's candidate is the first of that catalog and schema. -/
private theorem foldl_pickQualified {catalog : Text} (given : catalog ≠ []) (schema : Text)
    (candidates : List FunctionCandidate) (found : Option FunctionCandidate) :
    candidates.foldl (pickQualified catalog schema) found =
      found.or (candidates.find? fun candidate =>
        Text.ciEquals candidate.key.schema schema && Text.ciEquals candidate.key.database catalog) := by
  induction candidates generalizing found with
  | nil => simp
  | cons candidate rest ih =>
    rw [List.foldl_cons, ih, List.find?_cons]
    cases sameSchema : Text.ciEquals candidate.key.schema schema with
    | false => simp [pickQualified, sameSchema]
    | true =>
      cases sameCatalog : Text.ciEquals candidate.key.database catalog with
      | false => simp [pickQualified, sameSchema, sameCatalog, given]
      | true =>
        cases found <;> simp [pickQualified, sameSchema, sameCatalog, given]

/-- A candidate's full name is resolved to it. -/
theorem Single.resolve_fullName (single : model.Single) {candidate : FunctionCandidate} (member : candidate ∈ model.candidates)
    (named : NamePath.IsName [candidate.key.database, candidate.key.schema, candidate.key.name]) (roles : List Text) :
    model.resolve roles (candidate.key.fullName named) candidate.key.kind =
      if functionNeverCallable candidate.key.name [] && !functionNeverOnlyInSystem candidate.key.name then
        { verdict := .never
          key := { database := "system".toList, schema := "main".toList, name := candidate.key.name, kind := candidate.key.kind }
          decidedBy := "never".toList }
      else neverByKey (model.judge roles candidate) := by
  have lowered : Text.fold candidate.key.name = candidate.key.name :=
    single.lowered candidate.key (List.mem_map_of_mem member)
  have given : candidate.key.database ≠ [] := named.2 _ (by simp)
  have found : findQualified candidate.key.database candidate.key.schema
      (model.named candidate.key.kind candidate.key.name) = some candidate := by
    have first : (model.named candidate.key.kind candidate.key.name).find? (fun other =>
        Text.ciEquals other.key.schema candidate.key.schema && Text.ciEquals other.key.database candidate.key.database) =
          some candidate := by
      refine Eq.trans ?_ (single.findCandidate member)
      rw [FunctionCategoryModel.named, List.find?_filter, FunctionCategoryModel.findCandidate]
      congr 1
      funext other
      rw [Bool.eq_iff_iff]
      simp only [FunctionKey.same, Bool.and_eq_true, decide_eq_true_eq, Bool.decide_and, Bool.decide_eq_true]
      tauto
    rw [findQualified, foldl_pickQualified given, first]
    rfl
  have name : (candidate.key.fullName named).name = candidate.key.name := rfl
  have catalog : (candidate.key.fullName named).catalog = candidate.key.database := rfl
  have schema : (candidate.key.fullName named).schema = candidate.key.schema := rfl
  have qualified : (candidate.key.fullName named).qualified = true := rfl
  simp only [resolve, name, catalog, schema, qualified, lowered, found, ↓reduceIte]

theorem mem_admittedKeys {roles : List Text} {key : FunctionKey} :
    key ∈ model.admittedKeys roles ↔ ∃ candidate ∈ model.candidates, candidate.key = key ∧ model.listed roles candidate = true := by
  simp only [admittedKeys, List.mem_flatMap, List.mem_map, List.mem_filter, decide_eq_true_eq]
  constructor
  · rintro ⟨kind, _, candidate, ⟨⟨member, _⟩, listed⟩, same⟩
    exact ⟨candidate, member, same, listed⟩
  · rintro ⟨candidate, member, same, listed⟩
    refine ⟨candidate.key.kind, ?_, candidate, ⟨⟨member, rfl⟩, listed⟩, same⟩
    cases candidate.key.kind <;> simp

/-- A key is listed exactly when a call of its full name is admitted as that key and, outside the system
catalog, a call of its bare name is. -/
theorem mem_admittedKeys_iff (edits : List FunctionEdit) (roles : List Text) (key : FunctionKey)
    (named : NamePath.IsName [key.database, key.schema, key.name]) :
    key ∈ (edited edits).admittedKeys roles ↔
      ((edited edits).resolve roles (key.fullName named) key.kind).verdict = .admitted ∧
        ((edited edits).resolve roles (key.fullName named) key.kind).key = key ∧
        (Text.ciEquals key.database "system".toList = false →
          ((edited edits).resolve roles (key.bareName named) key.kind).verdict = .admitted ∧
            ((edited edits).resolve roles (key.bareName named) key.kind).key = key) := by
  have single := single_edited edits
  generalize edited edits = model at single ⊢
  rw [mem_admittedKeys, resolve_bareName]
  have admitted : FunctionVerdict.admitted ≠ .never := by decide
  constructor
  · rintro ⟨candidate, member, rfl, listed⟩
    rw [FunctionCategoryModel.listed] at listed
    dsimp only at listed
    split_ifs at listed with never refused outside
    · rw [Bool.not_eq_true, Bool.or_eq_false_iff] at never
      rw [not_not] at refused
      rw [single.resolve_fullName member, never.1, if_neg Bool.false_ne_true, neverByKey_verdict admitted, neverByKey_key, judge_key]
      exact ⟨⟨refused, never.2⟩, rfl, fun _ => of_decide_eq_true listed⟩
    · rw [Bool.not_eq_true, Bool.or_eq_false_iff] at never
      rw [not_not] at refused
      rw [single.resolve_fullName member, never.1, if_neg Bool.false_ne_true, neverByKey_verdict admitted, neverByKey_key, judge_key]
      exact ⟨⟨refused, never.2⟩, rfl, fun other => absurd (by rw [other]; rfl) outside⟩
  · rintro ⟨called, itself, bare⟩
    obtain ⟨candidate, chosen, same, _, _⟩ := resolve_admitted called
    have member := chosen_mem chosen
    obtain rfl : candidate.key = key := same.symm.trans itself
    refine ⟨candidate, member, rfl, ?_⟩
    rw [single.resolve_fullName member] at called
    split_ifs at called with never
    · rw [neverByKey_verdict admitted, judge_key] at called
      rw [FunctionCategoryModel.listed]
      dsimp only
      rw [Bool.not_eq_true] at never
      rw [never, called.2, Bool.or_self, if_neg Bool.false_ne_true, if_neg (not_not.mpr called.1)]
      cases outside : Text.ciEquals candidate.key.database "system".toList with
      | false => simpa using bare outside
      | true => rfl

/-- A builtin that everyone may call. -/
def everyoneCallsAbs : List FunctionEdit :=
  [.addMember "math".toList { database := "system".toList, schema := "main".toList, name := "abs".toList, kind := .scalar },
    .addCategoryGrant [] "math".toList true]

theorem mem_admittedKeys_iff_example :
    ((edited everyoneCallsAbs).resolve []
      (FunctionKey.fullName { database := "system".toList, schema := "main".toList, name := "abs".toList, kind := .scalar }
        ⟨by simp, by simp⟩) .scalar).verdict = .admitted :=
  ((mem_admittedKeys_iff everyoneCallsAbs []
    { database := "system".toList, schema := "main".toList, name := "abs".toList, kind := .scalar } ⟨by simp, by simp⟩).mp
      (by decide)).1

end FunctionCategoryModel

end DuckAcl
