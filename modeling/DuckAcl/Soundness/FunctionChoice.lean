import Mathlib
import DuckAcl.Soundness.FunctionModel

/-! # Calls on the rows of a policy

A call is judged on one candidate of its name. Which one depends on the keys the rows name, and on their
order only where several fit and none is preferred. With the rows on each target agreed, a call's verdict
and key then come from the rows alone.
-/

namespace DuckAcl

/-! ## The candidate that is chosen -/

/-- Candidates of one function name, no two of one function. -/
structure OneName (kind : FunctionKind) (name : Text) (candidates : List FunctionCandidate) : Prop where
  named : ∀ candidate ∈ candidates, candidate.key.kind = kind ∧ candidate.key.name = name
  distinct : candidates.Pairwise fun candidate other => candidate.key.same other.key = false

section Choice

variable {kind : FunctionKind} {name : Text} {candidates others : List FunctionCandidate}

theorem OneName.unique (one : OneName kind name candidates) {candidate other : FunctionCandidate}
    (member : candidate ∈ candidates) (among : other ∈ candidates)
    (database : Text.fold candidate.key.database = Text.fold other.key.database)
    (schema : Text.fold candidate.key.schema = Text.fold other.key.schema) : candidate = other := by
  have alike : candidate.key.same other.key = true := by
    obtain ⟨kind, name⟩ := one.named candidate member
    obtain ⟨kind', name'⟩ := one.named other among
    exact FunctionKey.same_iff.mpr ⟨kind.trans kind'.symm, name.trans name'.symm, database, schema⟩
  by_contra apart
  have : Std.Symm fun a b : FunctionCandidate => a.key.same b.key = false := ⟨fun a b clear => by
    rw [Bool.eq_false_iff] at clear ⊢
    exact fun met => clear (FunctionKey.same_symm met)⟩
  have clear := one.distinct.forall member among apart
  rw [alike] at clear
  cases clear

theorem schemaRank_le (key : FunctionKey) : schemaRank key ≤ 3 := by
  unfold schemaRank
  split_ifs <;> omega

/-- Below the third rank the database is the system's, and a rank below two is one schema's. -/
theorem schemaRank_spec {key other : FunctionKey} (same : schemaRank key = schemaRank other) (low : schemaRank key < 3) :
    Text.fold key.database = Text.fold other.database ∧
      (schemaRank key < 2 → Text.fold key.schema = Text.fold other.schema) := by
  unfold schemaRank at same low ⊢
  simp only [Text.ciEquals, beq_iff_eq, Bool.not_eq_true'] at same low ⊢
  split_ifs at same low ⊢ <;> simp_all

/-- The best-ranked candidate, and a tie of several of the last rank. -/
theorem foldl_pickBare (some : candidates ≠ []) : ∃ best ∈ candidates,
    (∀ other ∈ candidates, schemaRank best.key ≤ schemaRank other.key) ∧
      candidates.foldl FunctionCategoryModel.pickBare none =
        .some (best, schemaRank best.key, decide (schemaRank best.key = 3 ∧ 2 ≤ candidates.length)) := by
  induction candidates using List.reverseRecOn with
  | nil => exact absurd rfl some
  | append_singleton rest last ih =>
    rw [List.foldl_append, List.foldl_cons, List.foldl_nil]
    by_cases empty : rest = []
    · subst empty
      exact ⟨last, by simp, by simp, by simp [FunctionCategoryModel.pickBare]⟩
    · obtain ⟨best, member, lowest, picked⟩ := ih empty
      have positive := List.length_pos_of_ne_nil empty
      have bound := schemaRank_le best.key
      rw [picked, FunctionCategoryModel.pickBare]
      split_ifs with lower tied
      · refine ⟨last, by simp, ?_, ?_⟩
        · intro other among
          rcases List.mem_append.mp among with old | new
          · exact lower.le.trans (lowest other old)
          · obtain rfl := List.mem_singleton.mp new
            exact le_rfl
        · have below : schemaRank last.key ≠ 3 := by omega
          simp [below]
      · refine ⟨best, by simp [member], ?_, ?_⟩
        · intro other among
          rcases List.mem_append.mp among with old | new
          · exact lowest other old
          · obtain rfl := List.mem_singleton.mp new
            exact tied.1.ge
        · have top : schemaRank best.key = 3 := tied.1.symm.trans tied.2
          have two : 2 ≤ rest.length + 1 := by omega
          simp [top, two]
      · refine ⟨best, by simp [member], ?_, ?_⟩
        · intro other among
          rcases List.mem_append.mp among with old | new
          · exact lowest other old
          · obtain rfl := List.mem_singleton.mp new
            exact Nat.le_of_not_lt lower
        · have below : schemaRank best.key ≠ 3 := by
            intro top
            have := schemaRank_le last.key
            exact tied ⟨by omega, by omega⟩
          simp [below]

/-- A candidate that fits a qualified name. -/
def Fits (catalog schema : Text) (key : FunctionKey) : Prop :=
  Text.ciEquals key.schema schema = true ∧ (catalog = [] ∨ Text.ciEquals key.database catalog = true)

def InSystem (key : FunctionKey) : Prop := Text.ciEquals key.database "system".toList = true

/-- The first candidate that fits, and the system's where one of its does and no catalog was written. -/
theorem foldl_pickQualified (catalog schema : Text) (candidates : List FunctionCandidate) :
    (candidates.foldl (FunctionCategoryModel.pickQualified catalog schema) none = none ∧
      ∀ candidate ∈ candidates, ¬ Fits catalog schema candidate.key) ∨
    ∃ found ∈ candidates, candidates.foldl (FunctionCategoryModel.pickQualified catalog schema) none = some found ∧
      Fits catalog schema found.key ∧
      (catalog = [] → (∃ other ∈ candidates, Fits catalog schema other.key ∧ InSystem other.key) → InSystem found.key) := by
  induction candidates using List.reverseRecOn with
  | nil => exact .inl ⟨rfl, by simp⟩
  | append_singleton rest last ih =>
    rw [List.foldl_append, List.foldl_cons, List.foldl_nil, FunctionCategoryModel.pickQualified]
    dsimp only
    by_cases fits : Fits catalog schema last.key
    · have schemaFits : ¬ (!Text.ciEquals last.key.schema schema) = true := by simp [fits.1]
      have catalogFits : ¬ (catalog ≠ [] ∧ (!Text.ciEquals last.key.database catalog) = true) := by
        rintro ⟨given, other⟩
        rcases fits.2 with none | same
        · exact given none
        · simp [same] at other
      rw [if_neg schemaFits, if_neg catalogFits]
      rcases ih with ⟨nothing, unfit⟩ | ⟨found, member, picked, foundFits, preferred⟩
      · refine .inr ⟨last, by simp, by simp [nothing], fits, ?_⟩
        rintro - ⟨other, among, otherFits, system⟩
        rcases List.mem_append.mp among with old | new
        · exact absurd otherFits (unfit other old)
        · obtain rfl := List.mem_singleton.mp new
          exact system
      · by_cases replaced : catalog = [] ∧ Text.ciEquals last.key.database "system".toList = true
        · refine .inr ⟨last, by simp, ?_, fits, fun _ _ => replaced.2⟩
          have kept : ¬ (catalog = [] ∧ (!Text.ciEquals last.key.database "system".toList) = true ∧
              (some found).isSome = true) := by
            rintro ⟨-, notSystem, -⟩
            rw [replaced.2] at notSystem
            cases notSystem
          rw [picked, if_neg kept, if_pos (.inr replaced)]
        · refine .inr ⟨found, by simp [member], ?_, foundFits, ?_⟩
          · by_cases bare : catalog = []
            · have other : Text.ciEquals last.key.database "system".toList = false := by
                simpa [bare] using replaced
              rw [picked, if_pos ⟨bare, by rw [other]; rfl, rfl⟩]
            · simp [picked, bare]
          · rintro bare ⟨other, among, otherFits, system⟩
            rcases List.mem_append.mp among with old | new
            · exact preferred bare ⟨other, old, otherFits, system⟩
            · obtain rfl := List.mem_singleton.mp new
              exact absurd ⟨bare, system⟩ replaced
    · have passed : ∀ answer : Option FunctionCandidate,
          (if (!Text.ciEquals last.key.schema schema) = true then
              rest.foldl (FunctionCategoryModel.pickQualified catalog schema) none
            else if catalog ≠ [] ∧ (!Text.ciEquals last.key.database catalog) = true then
              rest.foldl (FunctionCategoryModel.pickQualified catalog schema) none
            else answer) = rest.foldl (FunctionCategoryModel.pickQualified catalog schema) none := by
        intro answer
        split_ifs with schemaOther catalogOther
        · rfl
        · rfl
        · refine absurd ⟨by simpa using schemaOther, ?_⟩ fits
          by_cases bare : catalog = []
          · exact .inl bare
          · exact .inr (by simpa [bare] using catalogOther)
      rw [passed]
      rcases ih with ⟨nothing, unfit⟩ | ⟨found, member, picked, foundFits, preferred⟩
      · refine .inl ⟨nothing, ?_⟩
        intro candidate among
        rcases List.mem_append.mp among with old | new
        · exact unfit candidate old
        · obtain rfl := List.mem_singleton.mp new
          exact fits
      · refine .inr ⟨found, by simp [member], picked, foundFits, ?_⟩
        rintro bare ⟨other, among, otherFits, system⟩
        rcases List.mem_append.mp among with old | new
        · exact preferred bare ⟨other, old, otherFits, system⟩
        · obtain rfl := List.mem_singleton.mp new
          exact absurd otherFits fits

/-- The same functions have candidates. -/
def SameKeys (candidates others : List FunctionCandidate) : Prop :=
  ∀ key, key ∈ candidates.map (·.key) ↔ key ∈ others.map (·.key)

theorem OneName.nodup (one : OneName kind name candidates) : (candidates.map (·.key)).Nodup := by
  rw [List.Nodup, List.pairwise_map]
  refine one.distinct.imp fun clear equal => ?_
  rw [equal, FunctionCategoryModel.same_refl] at clear
  cases clear

theorem SameKeys.find (keys : SameKeys candidates others) {candidate : FunctionCandidate} (member : candidate ∈ others) :
    ∃ same ∈ candidates, same.key = candidate.key :=
  List.mem_map.mp ((keys candidate.key).mpr (List.mem_map_of_mem member))

theorem SameKeys.symm (keys : SameKeys candidates others) : SameKeys others candidates := fun key => (keys key).symm

theorem SameKeys.length (keys : SameKeys candidates others) (one : OneName kind name candidates)
    (other : OneName kind name others) : candidates.length = others.length := by
  have perm := (List.perm_ext_iff_of_nodup one.nodup other.nodup).mpr keys
  simpa using perm.length_eq

/-- How a bare name's candidates decide: none, several, or one key. -/
def bareOutcome (candidates : List FunctionCandidate) : Option (Option FunctionKey) :=
  (candidates.foldl FunctionCategoryModel.pickBare none).map fun picked => if picked.2.2 then none else some picked.1.key

theorem bareOutcome_same (one : OneName kind name candidates) (one' : OneName kind name others)
    (keys : SameKeys candidates others)
    (decisive : (∃ key ∈ candidates.map (·.key), schemaRank key ≤ 1) ∨ ∀ key ∈ candidates.map (·.key),
      ∀ other ∈ candidates.map (·.key), schemaRank key = 2 → schemaRank other = 2 →
        Text.ciEquals key.schema other.schema = true) : bareOutcome candidates = bareOutcome others := by
  have length := keys.length one one'
  by_cases empty : candidates = []
  · subst empty
    rw [List.length_nil] at length
    rw [List.eq_nil_of_length_eq_zero length.symm]
  have empty' : others ≠ [] := by
    rintro rfl
    exact empty (List.eq_nil_of_length_eq_zero length)
  obtain ⟨best, member, lowest, picked⟩ := foldl_pickBare empty
  obtain ⟨best', member', lowest', picked'⟩ := foldl_pickBare empty'
  obtain ⟨twin, among, twinKey⟩ := keys.find member'
  obtain ⟨twin', among', twinKey'⟩ := keys.symm.find member
  have rank : schemaRank best.key = schemaRank best'.key := by
    refine le_antisymm ?_ ?_
    · rw [← twinKey]
      exact lowest twin among
    · rw [← twinKey']
      exact lowest' twin' among'
  rw [bareOutcome, bareOutcome, picked, picked', ← rank, ← length]
  by_cases tied : schemaRank best.key = 3 ∧ 2 ≤ candidates.length
  · simp [tied]
  · suffices same : twin = best by simp [tied, ← twinKey, same]
    have twinRank : schemaRank twin.key = schemaRank best.key := by rw [twinKey, rank]
    by_cases top : schemaRank best.key = 3
    · have single : candidates.length = 1 := by
        have := List.length_pos_of_ne_nil empty
        have : ¬ 2 ≤ candidates.length := fun two => tied ⟨top, two⟩
        omega
      obtain ⟨only, rfl⟩ := List.length_eq_one_iff.mp single
      rw [List.mem_singleton.mp among, List.mem_singleton.mp member]
    · have low : schemaRank twin.key < 3 := by
        have := schemaRank_le best.key
        omega
      obtain ⟨database, schema⟩ := schemaRank_spec twinRank low
      refine one.unique among member database ?_
      by_cases first : schemaRank twin.key < 2
      · exact schema first
      · rcases decisive with ⟨key, named, early⟩ | alike
        · obtain ⟨candidate, there, rfl⟩ := List.mem_map.mp named
          have := lowest candidate there
          omega
        · exact Text.ciEquals_iff.mp (alike twin.key (List.mem_map_of_mem among) best.key (List.mem_map_of_mem member)
            (by omega) (by omega))

theorem findQualified_mem {catalog schema : Text} {found : FunctionCandidate}
    (picked : FunctionCategoryModel.findQualified catalog schema candidates = some found) : found ∈ candidates := by
  unfold FunctionCategoryModel.findQualified at picked
  rcases foldl_pickQualified catalog schema candidates with ⟨nothing, -⟩ | ⟨best, member, folded, -, -⟩
  · rw [nothing] at picked
    dsimp only at picked
    split_ifs at picked
    exact List.mem_of_find?_eq_some picked
  · rw [folded] at picked
    obtain rfl := Option.some.inj picked
    exact member

/-- The first candidate whose key passes a test that one key at most passes. -/
private theorem find_same (test : FunctionKey → Bool) (keys : SameKeys candidates others)
    (unique : ∀ candidate ∈ candidates, ∀ other ∈ candidates, test candidate.key = true → test other.key = true →
      candidate = other) :
    (candidates.find? (test ·.key)).map (·.key) = (others.find? (test ·.key)).map (·.key) := by
  cases found : candidates.find? (test ·.key) with
  | none =>
    have none : others.find? (test ·.key) = none := by
      refine List.find?_eq_none.mpr fun candidate member passes => ?_
      obtain ⟨twin, among, same⟩ := keys.find member
      exact List.find?_eq_none.mp found twin among (same ▸ passes)
    rw [none]
  | some candidate =>
    have member := List.mem_of_find?_eq_some found
    have passes : test candidate.key = true := by simpa using List.find?_some found
    cases found' : others.find? (test ·.key) with
    | none =>
      obtain ⟨twin, among, same⟩ := keys.symm.find member
      exact absurd (same ▸ passes) (List.find?_eq_none.mp found' twin among)
    | some other =>
      have passes' : test other.key = true := by simpa using List.find?_some found'
      obtain ⟨twin, among, same⟩ := keys.find (List.mem_of_find?_eq_some found')
      rw [Option.map_some, Option.map_some, ← same, unique twin among candidate member (same ▸ passes') passes]

theorem findQualified_same {catalog schema : Text} (one : OneName kind name candidates)
    (keys : SameKeys candidates others)
    (decisive : catalog = [] → (∃ key ∈ candidates.map (·.key), Text.ciEquals key.schema schema = true ∧ InSystem key) ∨
      ∀ key ∈ candidates.map (·.key), ∀ other ∈ candidates.map (·.key), Text.ciEquals key.schema schema = true →
        Text.ciEquals other.schema schema = true → Text.ciEquals key.database other.database = true) :
    (FunctionCategoryModel.findQualified catalog schema candidates).map (·.key) =
      (FunctionCategoryModel.findQualified catalog schema others).map (·.key) := by
  unfold FunctionCategoryModel.findQualified
  rcases foldl_pickQualified catalog schema candidates with ⟨nothing, unfit⟩ | ⟨found, member, picked, fits, preferred⟩
  · rcases foldl_pickQualified catalog schema others with ⟨nothing', unfit'⟩ | ⟨found', member', -, fits', -⟩
    · rw [nothing, nothing']
      dsimp only
      split_ifs
      · -- the default schema of the database: one candidate at most
        refine find_same (fun key => Text.ciEquals key.database schema && Text.ciEquals key.schema "main".toList) keys ?_
        intro candidate member other among passes passes'
        rw [Bool.and_eq_true] at passes passes'
        exact one.unique member among
          ((Text.ciEquals_iff.mp passes.1).trans (Text.ciEquals_iff.mp passes'.1).symm)
          ((Text.ciEquals_iff.mp passes.2).trans (Text.ciEquals_iff.mp passes'.2).symm)
      · rfl
    · obtain ⟨twin, among, twinKey⟩ := keys.find member'
      exact absurd (twinKey ▸ fits') (unfit twin among)
  · rcases foldl_pickQualified catalog schema others with ⟨-, unfit'⟩ | ⟨found', member', picked', fits', preferred'⟩
    · obtain ⟨twin, among, twinKey⟩ := keys.symm.find member
      exact absurd (twinKey ▸ fits) (unfit' twin among)
    · rw [picked, picked']
      obtain ⟨twin, among, twinKey⟩ := keys.find member'
      suffices same : twin = found by simp [← twinKey, same]
      rw [← twinKey] at fits' preferred'
      have schemas : Text.fold twin.key.schema = Text.fold found.key.schema :=
        (Text.ciEquals_iff.mp fits'.1).trans (Text.ciEquals_iff.mp fits.1).symm
      refine one.unique among member ?_ schemas
      by_cases bare : catalog = []
      · rcases decisive bare with ⟨key, named, schemaFits, system⟩ | alike
        · obtain ⟨candidate, there, rfl⟩ := List.mem_map.mp named
          obtain ⟨candidate', there', same'⟩ := keys.symm.find there
          have own := preferred bare ⟨candidate, there, ⟨schemaFits, .inl bare⟩, system⟩
          have other := preferred' bare ⟨candidate', there', same' ▸ ⟨schemaFits, .inl bare⟩, same' ▸ system⟩
          exact (Text.ciEquals_iff.mp other).trans (Text.ciEquals_iff.mp own).symm
        · exact Text.ciEquals_iff.mp (alike twin.key (List.mem_map_of_mem among) found.key (List.mem_map_of_mem member)
            fits'.1 fits.1)
      · have own := fits.2.resolve_left bare
        have other := fits'.2.resolve_left bare
        exact (Text.ciEquals_iff.mp other).trans (Text.ciEquals_iff.mp own).symm

end Choice

/-! ## A call on two models -/

namespace FunctionCategoryModel

variable {model other : FunctionCategoryModel} {roles : List Text} {written : WrittenName} {kind : FunctionKind}

/-- Some row of the roles, or of everyone's, allows the candidate. -/
def Permitted (model : FunctionCategoryModel) (roles : List Text) (candidate : FunctionCandidate) : Prop :=
  ∃ role ∈ roles ++ [[]], candidate.key.serialize ∈ (model.rulesOf role).keysAllowed ∨
    ∃ category ∈ candidate.categories, Text.fold category ∈ (model.rulesOf role).categoriesAllowed

open Classical in
theorem judge_verdict (model : FunctionCategoryModel) (roles : List Text) (candidate : FunctionCandidate) :
    (model.judge roles candidate).verdict =
      if model.Undenied roles candidate then if model.Permitted roles candidate then .admitted else .notGranted
      else .denied := by
  by_cases undenied : model.Undenied roles candidate
  · have passed : model.judgePass RoleRules.keysDenied RoleRules.categoriesDenied .denied candidate (roles ++ [[]]) = none := by
      rw [judgePass_eq_none_iff]
      simpa only [decides_eq_none_iff, Undenied] using undenied
    have second : model.judgePass RoleRules.keysAllowed RoleRules.categoriesAllowed .admitted candidate (roles ++ [[]]) = none ↔
        ¬ model.Permitted roles candidate := by
      rw [judgePass_eq_none_iff]
      simp only [decides_eq_none_iff, Permitted, not_exists, not_and, not_or]
    rw [if_pos undenied]
    unfold judge
    dsimp only
    rw [passed]
    dsimp only
    split
    · rename_i decision judged
      rw [(judgePass_spec judged).1, if_pos]
      by_contra refused
      rw [second.mpr refused] at judged
      cases judged
    · rename_i unjudged
      rw [if_neg (second.mp unjudged)]
  · rw [if_neg undenied]
    exact judge_denied_iff.mpr undenied

/-- The same verdict on the same key. -/
def SameAnswer (decision other : FunctionDecision) : Prop := decision.verdict = other.verdict ∧ decision.key = other.key

theorem SameAnswer.neverByKey {decision other : FunctionDecision} (same : SameAnswer decision other) :
    SameAnswer (neverByKey decision) (FunctionCategoryModel.neverByKey other) := by
  unfold FunctionCategoryModel.neverByKey
  rw [same.2]
  split_ifs
  · exact ⟨rfl, rfl⟩
  · exact same

/-- The keys leave one candidate to a name, or prefer one. -/
def Decisive (written : WrittenName) (keys : List FunctionKey) : Prop :=
  if written.qualified then
    written.catalog = [] → (∃ key ∈ keys, Text.ciEquals key.schema written.schema = true ∧ InSystem key) ∨
      ∀ key ∈ keys, ∀ other ∈ keys, Text.ciEquals key.schema written.schema = true →
        Text.ciEquals other.schema written.schema = true → Text.ciEquals key.database other.database = true
  else
    (∃ key ∈ keys, schemaRank key ≤ 1) ∨ ∀ key ∈ keys, ∀ other ∈ keys, schemaRank key = 2 → schemaRank other = 2 →
      Text.ciEquals key.schema other.schema = true

/-- Two models that know the same keys of a name, and judge each alike, resolve it alike. -/
theorem resolve_same (one : OneName kind (Text.fold written.name) (model.named kind (Text.fold written.name)))
    (one' : OneName kind (Text.fold written.name) (other.named kind (Text.fold written.name)))
    (keys : SameKeys (model.named kind (Text.fold written.name)) (other.named kind (Text.fold written.name)))
    (judged : ∀ candidate ∈ model.named kind (Text.fold written.name),
      ∀ candidate' ∈ other.named kind (Text.fold written.name), candidate.key = candidate'.key →
        (model.judge roles candidate).verdict = (other.judge roles candidate').verdict)
    (decisive : Decisive written ((model.named kind (Text.fold written.name)).map (·.key))) :
    SameAnswer (model.resolve roles written kind) (other.resolve roles written kind) := by
  have judgedSame : ∀ candidate ∈ model.named kind (Text.fold written.name),
      ∀ candidate' ∈ other.named kind (Text.fold written.name), candidate.key = candidate'.key →
        SameAnswer (model.judge roles candidate) (other.judge roles candidate') := by
    intro candidate member candidate' member' key
    refine ⟨judged candidate member candidate' member' key, ?_⟩
    rw [judge_key, judge_key, key]
  unfold resolve
  dsimp only
  split_ifs with never qualified
  · exact ⟨rfl, rfl⟩
  · rw [Decisive, if_pos qualified] at decisive
    have found := findQualified_same one keys decisive
    cases first : findQualified written.catalog written.schema (model.named kind (Text.fold written.name)) with
    | none =>
      rw [first, Option.map_none, eq_comm, Option.map_eq_none_iff] at found
      rw [found]
      exact ⟨rfl, rfl⟩
    | some candidate =>
      rw [first, Option.map_some, eq_comm, Option.map_eq_some_iff] at found
      obtain ⟨candidate', second, key⟩ := found
      rw [second]
      exact (judgedSame candidate (findQualified_mem first) candidate' (findQualified_mem second) key.symm).neverByKey
  · rw [Decisive, if_neg qualified] at decisive
    have outcome := bareOutcome_same one one' keys decisive
    unfold bareOutcome at outcome
    by_cases empty : model.named kind (Text.fold written.name) = []
    · have empty' : other.named kind (Text.fold written.name) = [] := by
        have length := keys.length one one'
        rw [empty, List.length_nil] at length
        exact List.eq_nil_of_length_eq_zero length.symm
      rw [empty, empty']
      exact ⟨rfl, rfl⟩
    · have empty' : other.named kind (Text.fold written.name) ≠ [] := by
        intro nil
        have length := keys.length one one'
        rw [nil, List.length_nil] at length
        exact empty (List.eq_nil_of_length_eq_zero length)
      obtain ⟨best, member, -, picked⟩ := foldl_pickBare empty
      obtain ⟨best', member', -, picked'⟩ := foldl_pickBare empty'
      rw [picked, picked'] at outcome ⊢
      generalize decide (schemaRank best.key = 3 ∧ 2 ≤ (model.named kind (Text.fold written.name)).length) = tie at outcome
      generalize decide (schemaRank best'.key = 3 ∧ 2 ≤ (other.named kind (Text.fold written.name)).length) = tie' at outcome
      cases tie with
      | true =>
        cases tie' with
        | true => exact ⟨rfl, rfl⟩
        | false => simp at outcome
      | false =>
        cases tie' with
        | true => simp at outcome
        | false =>
          have key : best.key = best'.key := by simpa using outcome
          exact (judgedSame best member best' member' key).neverByKey

end FunctionCategoryModel

/-! ## A call on the rows of a policy -/

namespace FunctionRows

open FunctionCategoryModel

variable {rows others : FunctionRows} {roles : List Text} {written : WrittenName} {kind : FunctionKind} {name : Text}

/-- The keys the rows name for a function name. -/
def keysOf (rows : FunctionRows) (kind : FunctionKind) (name : Text) : List FunctionKey :=
  rows.keys.filter fun key => key.kind = kind ∧ key.name = name

/-- What leaves a call no choice: each function is spelled in one way, the rows of a role on one target agree,
and one candidate is preferred. -/
structure Settled (rows : FunctionRows) (roles : List Text) (written : WrittenName) (kind : FunctionKind) : Prop where
  spelled : ∀ key ∈ rows.keysOf kind (Text.fold written.name), ∀ other ∈ rows.keysOf kind (Text.fold written.name),
    key.same other = true → key = other
  agreed : ∀ role ∈ roles ++ [[]], ∀ key ∈ rows.keysOf kind (Text.fold written.name), rows.Agreed role key
  decisive : Decisive written (rows.keysOf kind (Text.fold written.name))

/-- The same rows in another order. -/
def Reordered (rows others : FunctionRows) : Prop :=
  rows.categories.Perm others.categories ∧ rows.members.Perm others.members ∧ rows.grants.Perm others.grants

/-- The same member rows, the same grants of the roles up to case and of everyone, and the same keys named. -/
structure SameFor (rows others : FunctionRows) (roles : List Text) (kind : FunctionKind) (name : Text) : Prop where
  members : ∀ row, row ∈ rows.members ↔ row ∈ others.members
  grants : ∀ row : FunctionGrantRow, (∃ role ∈ roles ++ [[]], Text.ciEquals row.role role = true) →
    (row ∈ rows.grants ↔ row ∈ others.grants)
  keys : ∀ key, key ∈ rows.keysOf kind name ↔ key ∈ others.keysOf kind name

theorem Reordered.sameFor (reordered : rows.Reordered others) (roles : List Text) (kind : FunctionKind) (name : Text) :
    rows.SameFor others roles kind name where
  members := fun _ => reordered.2.1.mem_iff
  grants := fun _ _ => reordered.2.2.mem_iff
  keys := by
    intro key
    have perm : rows.keys.Perm others.keys := (reordered.2.1.filterMap _).append (reordered.2.2.filterMap _)
    exact (perm.filter _).mem_iff

theorem SameFor.bears (same : rows.SameFor others roles kind name) {row : FunctionGrantRow} {key : FunctionKey} :
    rows.Bears row key ↔ others.Bears row key := by
  unfold Bears
  simp only [same.members]

theorem SameFor.answers (same : rows.SameFor others roles kind name) {role : Text} (asked : role ∈ roles ++ [[]])
    (answer : Bool) (key : FunctionKey) : rows.Answers answer role key ↔ others.Answers answer role key := by
  unfold Answers
  constructor
  · rintro ⟨row, member, roleOf, allows, bears⟩
    exact ⟨row, (same.grants row ⟨role, asked, roleOf⟩).mp member, roleOf, allows, same.bears.mp bears⟩
  · rintro ⟨row, member, roleOf, allows, bears⟩
    exact ⟨row, (same.grants row ⟨role, asked, roleOf⟩).mpr member, roleOf, allows, same.bears.mpr bears⟩

theorem SameFor.agreed (same : rows.SameFor others roles kind name) {role : Text} (asked : role ∈ roles ++ [[]])
    {key : FunctionKey} (agreed : rows.Agreed role key) : others.Agreed role key := by
  intro row member other member' roleOf roleOf' bears rivals
  exact agreed row ((same.grants row ⟨role, asked, roleOf⟩).mpr member) other
    ((same.grants other ⟨role, asked, roleOf'⟩).mpr member') roleOf roleOf' (same.bears.mpr bears) rivals

theorem functionModel_single (rows : FunctionRows) : rows.functionModel.Single := by
  have empty : Single {} := ⟨by simp, by simp⟩
  have categories : (rows.categories.foldl addCategoryRow {}).Single :=
    List.foldlRecOn rows.categories _ empty fun model single row _ => ⟨single.lowered, single.distinct⟩
  have members : (rows.members.foldl addMemberRow (rows.categories.foldl addCategoryRow {})).Single := by
    refine List.foldlRecOn rows.members _ categories fun model single row _ => ?_
    unfold addMemberRow
    split
    · exact single
    · exact single.addMember _ _
  refine List.foldlRecOn rows.grants _ members fun model single row _ => ?_
  unfold addGrantRow
  split_ifs
  · exact ⟨single.lowered, single.distinct⟩
  · split
    · exact single
    · exact single.addNameGrant _ _ _

theorem functionModel_oneName (rows : FunctionRows) (kind : FunctionKind) (name : Text) :
    OneName kind name (rows.functionModel.named kind name) where
  named := by
    intro candidate member
    simpa using (List.mem_filter.mp member).2
  distinct := (List.pairwise_map.mp rows.functionModel_single.distinct).filter _

theorem mem_named {candidate : FunctionCandidate} (member : candidate ∈ rows.functionModel.named kind name) :
    rows.functionModel.findCandidate candidate.key = some candidate ∧ candidate.key ∈ rows.keysOf kind name := by
  have found := rows.functionModel_single.findCandidate (List.mem_of_mem_filter member)
  exact ⟨found, List.mem_filter.mpr ⟨rows.told.spelled found, (List.mem_filter.mp member).2⟩⟩

/-- The candidates of a name are the keys the rows name, where each function is spelled in one way. -/
theorem mem_named_keys
    (spelled : ∀ key ∈ rows.keysOf kind name, ∀ other ∈ rows.keysOf kind name, key.same other = true → key = other)
    (key : FunctionKey) : key ∈ (rows.functionModel.named kind name).map (·.key) ↔ key ∈ rows.keysOf kind name := by
  constructor
  · intro member
    obtain ⟨candidate, among, rfl⟩ := List.mem_map.mp member
    exact (mem_named among).2
  · intro member
    obtain ⟨named, fits⟩ := List.mem_filter.mp member
    obtain ⟨candidate, found⟩ := Option.isSome_iff_exists.mp ((rows.told.known key).mpr ⟨key, named, same_refl key⟩)
    have alike : candidate.key.same key = true := by simpa using List.find?_some found
    have known : candidate.key ∈ rows.keysOf kind name := by
      refine List.mem_filter.mpr ⟨rows.told.spelled found, ?_⟩
      obtain ⟨kinds, names, -, -⟩ := FunctionKey.same_iff.mp alike
      rw [kinds, names]
      exact fits
    have equal := spelled candidate.key known key member alike
    refine List.mem_map.mpr ⟨candidate, List.mem_filter.mpr ⟨List.mem_of_find?_eq_some found, ?_⟩, equal⟩
    rw [equal]
    exact fits

theorem undenied_iff {candidate : FunctionCandidate} (member : candidate ∈ rows.functionModel.named kind name)
    (agreed : ∀ role ∈ roles ++ [[]], rows.Agreed role candidate.key) :
    rows.functionModel.Undenied roles candidate ↔ ∀ role ∈ roles ++ [[]], ¬ rows.Answers false role candidate.key := by
  refine forall₂_congr fun role asked => ?_
  rw [← (answers_of_agreed (mem_named member).1 (agreed role asked)).2]
  simp only [not_or, not_exists, not_and]

theorem permitted_iff {candidate : FunctionCandidate} (member : candidate ∈ rows.functionModel.named kind name)
    (agreed : ∀ role ∈ roles ++ [[]], rows.Agreed role candidate.key) :
    rows.functionModel.Permitted roles candidate ↔ ∃ role ∈ roles ++ [[]], rows.Answers true role candidate.key := by
  constructor
  · rintro ⟨role, asked, holds⟩
    exact ⟨role, asked, (answers_of_agreed (mem_named member).1 (agreed role asked)).1.mp holds⟩
  · rintro ⟨role, asked, answers⟩
    exact ⟨role, asked, (answers_of_agreed (mem_named member).1 (agreed role asked)).1.mpr answers⟩

theorem resolve_sameFor (settled : rows.Settled roles written kind)
    (same : rows.SameFor others roles kind (Text.fold written.name)) :
    FunctionCategoryModel.SameAnswer (rows.functionModel.resolve roles written kind)
      (others.functionModel.resolve roles written kind) := by
  have spelled : ∀ key ∈ others.keysOf kind (Text.fold written.name), ∀ other ∈ others.keysOf kind (Text.fold written.name),
      key.same other = true → key = other := fun key member other among =>
    settled.spelled key ((same.keys key).mpr member) other ((same.keys other).mpr among)
  refine resolve_same (rows.functionModel_oneName _ _) (others.functionModel_oneName _ _) ?_ ?_ ?_
  · intro key
    rw [mem_named_keys settled.spelled, mem_named_keys spelled, same.keys]
  · intro candidate member candidate' member' key
    have agreed := fun role asked => settled.agreed role asked candidate.key (mem_named member).2
    have agreed' : ∀ role ∈ roles ++ [[]], others.Agreed role candidate'.key := fun role asked =>
      key ▸ same.agreed asked (agreed role asked)
    have denied : rows.functionModel.Undenied roles candidate ↔ others.functionModel.Undenied roles candidate' := by
      rw [undenied_iff member agreed, undenied_iff member' agreed', ← key]
      exact forall₂_congr fun role asked => not_congr (same.answers asked false candidate.key)
    have permitted : rows.functionModel.Permitted roles candidate ↔ others.functionModel.Permitted roles candidate' := by
      rw [permitted_iff member agreed, permitted_iff member' agreed', ← key]
      exact exists_congr fun role => and_congr_right fun asked => same.answers asked true candidate.key
    rw [judge_verdict, judge_verdict]
    by_cases undenied : rows.functionModel.Undenied roles candidate
    · rw [if_pos undenied, if_pos (denied.mp undenied)]
      by_cases allowed : rows.functionModel.Permitted roles candidate
      · rw [if_pos allowed, if_pos (permitted.mp allowed)]
      · rw [if_neg allowed, if_neg fun other => allowed (permitted.mpr other)]
    · rw [if_neg undenied, if_neg fun other => undenied (denied.mpr other)]
  · have decisive := settled.decisive
    unfold Decisive at decisive ⊢
    simpa only [mem_named_keys settled.spelled] using decisive

end FunctionRows

/-- The rows are distinct by the tables' primary keys. -/
def FunctionRows.Keyed (rows : FunctionRows) : Prop :=
  (rows.categories.map Prod.fst).Nodup ∧ rows.members.Nodup ∧
    (rows.grants.map fun row => { row with allowed := none }).Nodup

instance (rows : FunctionRows) : Decidable rows.Keyed := inferInstanceAs (Decidable (_ ∧ _ ∧ _))

/-- The rows without the grants of other roles. -/
def FunctionRows.own (rows : FunctionRows) (roles : List Text) : FunctionRows :=
  { rows with grants := rows.grants.filter fun row => row.role ∈ roles ++ [[]] }

/-- A bare name. -/
def bareF : WrittenName := ⟨["f".toList], by simp [NamePath.IsName], by simp⟩

/-- A grant on `f` of a schema of the system catalog. -/
def grantF (role schema : String) (allowed : Bool) : FunctionGrantRow :=
  { role := role.toList, database := "system".toList, schema := schema.toList, name := "f".toList, kind := "scalar".toList
    allowed := some allowed }

end DuckAcl
