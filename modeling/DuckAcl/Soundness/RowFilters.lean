import DuckAcl.Library.Predicates
import DuckAcl.Model.TableRead
import DuckAcl.Soundness.RoleOrder

/-! # What a composed row filter means

The predicates of a role's levels are joined by `AND`, the roles' by `OR`, and the object's own is put
before them; a lone predicate stands as it is written, and several are put in parentheses. Whatever
operators the texts hold, the one text that filters is true on a row exactly where the object's predicate
is and some role has every predicate of its levels true.
-/

namespace DuckAcl

section Filters

variable {ρ : Type} {expression : Text → Prop} {value : Text → ρ → Outcome3}

/-! ## Composing -/

theorem joinWrapped_eq (separator : Text) (parts : List Text) :
    joinWrapped separator parts = separator.intercalate (parts.map parenthesised) := rfl

/-- Several predicates composed by `AND`. -/
theorem composeAnd_means (grammar : PredicateGrammar expression value) {predicates : List Text} (some : predicates ≠ [])
    (expressions : ∀ text ∈ predicates, expression text) :
    expression (composePredicates " AND ".toList predicates) ∧
      ∀ row, value (composePredicates " AND ".toList predicates) row = .some true ↔
        ∀ text ∈ predicates, value text row = .some true := by
  match predicates with
  | [] => exact absurd rfl some
  | [only] =>
    refine ⟨expressions only List.mem_cons_self, fun row => ?_⟩
    simp [composePredicates]
  | first :: second :: rest => exact grammar.conjunction expressions

/-- Several predicates composed by `OR`. -/
theorem composeOr_means (grammar : PredicateGrammar expression value) {predicates : List Text} (some : predicates ≠ [])
    (expressions : ∀ text ∈ predicates, expression text) :
    expression (composePredicates " OR ".toList predicates) ∧
      ∀ row, value (composePredicates " OR ".toList predicates) row = .some true ↔
        ∃ text ∈ predicates, value text row = .some true := by
  match predicates with
  | [] => exact absurd rfl some
  | [only] =>
    refine ⟨expressions only List.mem_cons_self, fun row => ?_⟩
    simp [composePredicates]
  | first :: second :: rest => exact grammar.disjunction expressions

theorem composePredicates_eq_nil {separator : Text} {predicates : List Text} (given : ∀ text ∈ predicates, text ≠ []) :
    composePredicates separator predicates = [] ↔ predicates = [] := by
  match predicates with
  | [] => simp [composePredicates]
  | [only] => simpa [composePredicates] using given only
  | first :: second :: rest =>
    simp [composePredicates, joinWrapped, List.intercalate]

/-! ## One role -/

/-- A chain keeps the predicates its levels have. -/
theorem narrowAll_predicates {levels : List GrantLevel} {policy : GrantPolicy} (ran : narrowAll levels = .ok policy) :
    policy.predicates = (levels.map GrantLevel.rls).filter (· ≠ []) := by
  have columns : ∀ {policy next : GrantPolicy} {level : ColumnItems}, policy.narrowColumns level = .ok next →
      next.predicates = policy.predicates := by
    intro policy next level ran
    unfold GrantPolicy.narrowColumns at ran
    split_ifs at ran
    · cases ran
      rfl
    · cases ran
      rfl
    · cases met : intersectColumnItems policy.columns level with
      | error message =>
        rw [met] at ran
        cases ran
      | ok items =>
        rw [met] at ran
        cases ran
        rfl
    · cases ran
      rfl
  have folded : ∀ (levels : List GrantLevel) (start : GrantPolicy),
      levels.foldlM (fun policy level => policy.narrow level.rls level.columnCsv level.rlsChecked) start = .ok policy →
        policy.predicates = start.predicates ++ (levels.map GrantLevel.rls).filter (· ≠ []) := by
    intro levels
    induction levels with
    | nil =>
      intro start ran
      cases ran
      simp
    | cons level rest ih =>
      intro start ran
      rw [List.foldlM_cons] at ran
      cases narrowed : start.narrow level.rls level.columnCsv level.rlsChecked with
      | error message =>
        rw [narrowed] at ran
        cases ran
      | ok next =>
        rw [narrowed] at ran
        rw [ih next ran]
        unfold GrantPolicy.narrow at narrowed
        rw [columns narrowed]
        by_cases none : level.rls = []
        · simp [none]
        · simp [none]
  have all := folded levels {} ran
  rwa [List.nil_append] at all

/-- The row satisfies every predicate of the chain. -/
def ChainTrue (value : Text → ρ → Outcome3) (levels : List GrantLevel) (row : ρ) : Prop :=
  ∀ level ∈ levels, level.rls ≠ [] → value level.rls row = some true

/-- Every predicate of the chain that is there is one expression. -/
def ChainReads (expression : Text → Prop) (levels : List GrantLevel) : Prop :=
  ∀ level ∈ levels, level.rls ≠ [] → expression level.rls

/-- What a role's predicate says. -/
theorem role_predicate (grammar : PredicateGrammar expression value) {levels : List GrantLevel} {policy : GrantPolicy}
    (ran : narrowAll levels = .ok policy) (reads : ChainReads expression levels) :
    (policy.predicate = [] → ∀ row, ChainTrue value levels row) ∧
      (policy.predicate ≠ [] → expression policy.predicate ∧
        ∀ row, value policy.predicate row = some true ↔ ChainTrue value levels row) := by
  have kept := narrowAll_predicates ran
  have given : ∀ text ∈ policy.predicates, text ≠ [] := by
    intro text member
    rw [kept, List.mem_filter] at member
    simpa using member.2
  have expressions : ∀ text ∈ policy.predicates, expression text := by
    intro text member
    have nonempty := given text member
    rw [kept, List.mem_filter, List.mem_map] at member
    obtain ⟨⟨level, listed, rfl⟩, _⟩ := member
    exact reads level listed nonempty
  have each : ∀ row, (∀ text ∈ policy.predicates, value text row = some true) ↔ ChainTrue value levels row := by
    intro row
    rw [kept]
    simp only [List.mem_filter, List.mem_map, decide_eq_true_eq, ChainTrue]
    constructor
    · exact fun all level listed nonempty => all level.rls ⟨⟨level, listed, rfl⟩, nonempty⟩
    · rintro all _ ⟨⟨level, listed, rfl⟩, nonempty⟩
      exact all level listed nonempty
  unfold GrantPolicy.predicate
  constructor
  · intro empty row
    rw [← each, (composePredicates_eq_nil given).mp empty]
    simp
  · intro nonempty
    have some : policy.predicates ≠ [] := fun none => nonempty ((composePredicates_eq_nil given).mpr none)
    obtain ⟨whole, outcome⟩ := composeAnd_means grammar some expressions
    exact ⟨whole, fun row => (outcome row).trans (each row)⟩

/-! ## The roles together -/

/-- What the union keeps of the roles' predicates. -/
theorem union_predicates {policies : List GrantPolicy} {union : GrantUnion}
    (ran : policies.foldlM GrantUnion.add {} = .ok union) :
    union.unrestrictedRls = policies.any (fun policy => policy.predicate.isEmpty) ∧
      union.predicates = (policies.map (·.predicate)).filter (!·.isEmpty) := by
  have folded : ∀ (policies : List GrantPolicy) (start : GrantUnion), policies.foldlM GrantUnion.add start = .ok union →
      union.unrestrictedRls = (start.unrestrictedRls || policies.any fun policy => policy.predicate.isEmpty) ∧
        union.predicates = start.predicates ++ (policies.map (·.predicate)).filter (!·.isEmpty) := by
    intro policies
    induction policies with
    | nil =>
      intro start ran
      cases ran
      simp
    | cons policy rest ih =>
      intro start ran
      rw [List.foldlM_cons] at ran
      cases added : start.add policy with
      | error message =>
        rw [added] at ran
        cases ran
      | ok next =>
        rw [added] at ran
        obtain ⟨lifted, predicates⟩ := ih next ran
        rw [GrantUnion.add_eq] at added
        cases joined : (if policy.restricts then joinColumns start.columns policy.columns else .ok start.columns) with
        | error message =>
          rw [joined] at added
          cases added
        | ok columns =>
          rw [joined] at added
          cases added
          constructor
          · rw [lifted, List.any_cons, Bool.or_assoc]
          · rw [predicates, List.append_assoc, List.map_cons, ← List.filter_append, List.singleton_append]
  obtain ⟨lifted, predicates⟩ := folded policies {} ran
  exact ⟨by simpa using lifted, by simpa using predicates⟩

/-- A union without a predicate has a role without one. -/
private theorem union_unfiltered {policies : List GrantPolicy} {union : GrantUnion}
    (ran : policies.foldlM GrantUnion.add {} = .ok union) (some : policies ≠ []) (none : union.predicate = []) :
    ∃ policy ∈ policies, policy.predicate = [] := by
  obtain ⟨lifted, predicates⟩ := union_predicates ran
  by_contra all
  push Not at all
  have restricted : union.unrestrictedRls = false := by
    rw [lifted, List.any_eq_false]
    simpa using all
  have kept : union.predicates = policies.map (·.predicate) := by
    rw [predicates, List.filter_eq_self]
    simpa using all
  have given : ∀ text ∈ union.predicates, text ≠ [] := by
    rw [kept]
    simpa using all
  rw [GrantUnion.predicate, restricted] at none
  have empty := (composePredicates_eq_nil given).mp none
  rw [kept, List.map_eq_nil_iff] at empty
  exact some empty

/-- Each role's chain has its policy, and each policy its chain. -/
private theorem chains_mem {roles : List (List GrantLevel)} {policies : List GrantPolicy}
    (chains : List.Forall₂ (fun levels policy => narrowAll levels = .ok policy) roles policies) :
    (∀ levels ∈ roles, ∃ policy ∈ policies, narrowAll levels = .ok policy) ∧
      ∀ policy ∈ policies, ∃ levels ∈ roles, narrowAll levels = .ok policy := by
  induction chains with
  | nil => simp
  | cons ran _ ih =>
    obtain ⟨left, right⟩ := ih
    constructor
    · intro levels member
      rcases List.mem_cons.mp member with rfl | later
      · exact ⟨_, List.mem_cons_self, ran⟩
      · obtain ⟨policy, listed, same⟩ := left levels later
        exact ⟨policy, List.mem_cons_of_mem _ listed, same⟩
    · intro policy member
      rcases List.mem_cons.mp member with rfl | later
      · exact ⟨_, List.mem_cons_self, ran⟩
      · obtain ⟨levels, listed, same⟩ := right policy later
        exact ⟨levels, List.mem_cons_of_mem _ listed, same⟩

/-- What the roles' predicate says. -/
theorem union_predicate_means (grammar : PredicateGrammar expression value) {roles : List (List GrantLevel)}
    {policies : List GrantPolicy} {grants : GrantUnion}
    (chains : List.Forall₂ (fun levels policy => narrowAll levels = .ok policy) roles policies)
    (united : policies.foldlM GrantUnion.add {} = .ok grants) (held : roles ≠ [])
    (reads : ∀ levels ∈ roles, ChainReads expression levels) :
    (grants.predicate = [] → ∀ row, ∃ levels ∈ roles, ChainTrue value levels row) ∧
      (grants.predicate ≠ [] → expression grants.predicate ∧
        ∀ row, value grants.predicate row = some true ↔ ∃ levels ∈ roles, ChainTrue value levels row) := by
  obtain ⟨toPolicy, toLevels⟩ := chains_mem chains
  have some : policies ≠ [] := by
    rintro rfl
    cases chains
    exact held rfl
  constructor
  · intro none row
    obtain ⟨policy, listed, empty⟩ := union_unfiltered united some none
    obtain ⟨levels, role, ran⟩ := toLevels policy listed
    exact ⟨levels, role, (role_predicate grammar ran (reads levels role)).1 empty row⟩
  · intro filters
    obtain ⟨lifted, predicates⟩ := union_predicates united
    have restricted : grants.unrestrictedRls = false := by
      by_contra lifts
      rw [Bool.not_eq_false] at lifts
      exact filters (by rw [GrantUnion.predicate, lifts, if_pos rfl])
    have all : ∀ policy ∈ policies, policy.predicate ≠ [] := by
      rw [lifted, List.any_eq_false] at restricted
      simpa using restricted
    have kept : grants.predicates = policies.map (·.predicate) := by
      rw [predicates, List.filter_eq_self]
      simpa using all
    have expressions : ∀ text ∈ grants.predicates, expression text := by
      intro text member
      rw [kept] at member
      obtain ⟨policy, listed, rfl⟩ := List.mem_map.mp member
      obtain ⟨levels, role, ran⟩ := toLevels policy listed
      exact ((role_predicate grammar ran (reads levels role)).2 (all policy listed)).1
    have nonempty : grants.predicates ≠ [] := by
      rw [kept]
      simpa using some
    obtain ⟨whole, outcome⟩ := composeOr_means grammar nonempty expressions
    rw [GrantUnion.predicate, restricted]
    refine ⟨whole, fun row => (outcome row).trans ?_⟩
    rw [kept]
    constructor
    · rintro ⟨_, member, isTrue⟩
      obtain ⟨policy, listed, rfl⟩ := List.mem_map.mp member
      obtain ⟨levels, role, ran⟩ := toLevels policy listed
      exact ⟨levels, role, (((role_predicate grammar ran (reads levels role)).2 (all policy listed)).2 row).mp isTrue⟩
    · rintro ⟨levels, role, isTrue⟩
      obtain ⟨policy, listed, ran⟩ := toPolicy levels role
      exact ⟨policy.predicate, List.mem_map.mpr ⟨policy, listed, rfl⟩,
        (((role_predicate grammar ran (reads levels role)).2 (all policy listed)).2 row).mpr isTrue⟩

/-! ## The object and the grants -/

/-- The object's predicate before the grants'. -/
theorem composeRls_means (grammar : PredicateGrammar expression value) {own predicate : Text}
    (ownReads : own ≠ [] → expression own) (reads : predicate ≠ [] → expression predicate)
    (some : composeRls own predicate ≠ []) :
    expression (composeRls own predicate) ∧ ∀ row, value (composeRls own predicate) row = .some true ↔
      (own ≠ [] → value own row = .some true) ∧ (predicate ≠ [] → value predicate row = .some true) := by
  unfold composeRls at some ⊢
  split_ifs at some ⊢ with none bare
  · exact ⟨ownReads some, by simp [none, some]⟩
  · exact ⟨reads none, by simp [none, bare]⟩
  · have both : '(' :: own ++ ") AND (".toList ++ predicate ++ [')'] =
        " AND ".toList.intercalate ([own, predicate].map parenthesised) := by
      simp [parenthesised, List.intercalate]
    have expressions : ∀ text ∈ [own, predicate], expression text := by
      simp [ownReads bare, reads none]
    rw [both]
    obtain ⟨whole, outcome⟩ := grammar.conjunction expressions
    refine ⟨whole, fun row => (outcome row).trans ?_⟩
    simp [none, bare]

/-- The policy of an object before the grants: a table with its own filter, or a view, which has none. -/
def IsObject (out : TablePolicy) : Prop :=
  out.query = none ∨ (∃ sql, out.query = some (.view sql)) ∧ out.rls = []

private theorem listWrite_filter (policy : TablePolicy) (column : ListedColumn) (source : Text) :
    (policy.listWrite column source).query = policy.query ∧ (policy.listWrite column source).rls = policy.rls := by
  simp only [TablePolicy.listWrite]
  split_ifs <;> exact ⟨rfl, rfl⟩

private theorem listDeclared_filter {vname : Text} {objectColumns : List (Text × Text)} {policy next : TablePolicy}
    {column : ListedColumn} (ran : policy.listDeclared vname objectColumns column = .ok next) :
    next.query = policy.query ∧ next.rls = policy.rls := by
  unfold TablePolicy.listDeclared at ran
  cases source : renameSource vname column.name (definedSource objectColumns column.name) policy.renames with
  | error message =>
    rw [source] at ran
    cases ran
  | ok found =>
    rw [source] at ran
    cases ran
    exact listWrite_filter _ column found.name

private theorem restrictUndeclared_filters (listed : List ListedColumn) (policy : TablePolicy) :
    (policy.restrictUndeclared listed).filters = whereClause policy.rls := by
  have folded : ∀ (columns : List ListedColumn) (start : TablePolicy),
      (columns.foldl (fun policy column => policy.listWrite column column.name) start).query = start.query := by
    intro columns
    induction columns with
    | nil => exact fun _ => rfl
    | cons column rest ih => exact fun start => (ih _).trans (listWrite_filter start column column.name).1
  simp only [TablePolicy.restrictUndeclared, TablePolicy.filters, folded, PolicyQuery.filters, TablePolicy.readFrom]

private theorem restrictDeclared_filters {vname : Text} {objectColumns : List (Text × Text)} {listed : List ListedColumn}
    {policy result : TablePolicy} (bare : policy.query = none)
    (ran : policy.restrictDeclared vname objectColumns listed = .ok result) : result.filters = whereClause policy.rls := by
  have folded : ∀ (columns : List ListedColumn) (start next : TablePolicy),
      columns.foldlM (TablePolicy.listDeclared vname objectColumns) start = .ok next →
        next.query = start.query ∧ next.rls = start.rls := by
    intro columns
    induction columns with
    | nil =>
      intro start next ran
      cases ran
      exact ⟨rfl, rfl⟩
    | cons column rest ih =>
      intro start next ran
      rw [List.foldlM_cons] at ran
      cases first : start.listDeclared vname objectColumns column with
      | error message =>
        rw [first] at ran
        cases ran
      | ok middle =>
        rw [first] at ran
        obtain ⟨query, rls⟩ := ih middle next ran
        obtain ⟨query', rls'⟩ := listDeclared_filter first
        exact ⟨query.trans query', rls.trans rls'⟩
  simp only [TablePolicy.restrictDeclared, bind, Except.bind, pure, Except.pure] at ran
  split at ran
  · cases ran
  · cases done : (orderListed objectColumns listed).foldlM (TablePolicy.listDeclared vname objectColumns) policy with
    | error message =>
      rw [done] at ran
      cases ran
    | ok next =>
      rw [done] at ran
      cases ran
      obtain ⟨query, rls⟩ := folded _ policy next done
      simp only [TablePolicy.filters, query, bare, rls]

/-- The grants leave one filter, or none: the object's predicate and theirs. -/
theorem applyGrantPolicy_filters {vname : Text} {grants : GrantUnion} {objectColumns : List (Text × Text)}
    {out result : TablePolicy} (object : IsObject out) (ran : applyGrantPolicy vname grants objectColumns out = .ok result) :
    result.filters = whereClause (composeRls out.rls grants.predicate) := by
  have unfiltered : composeRls out.rls [] = out.rls := by
    simp [composeRls]
  rcases object with bare | ⟨⟨sql, view⟩, own⟩
  · simp only [applyGrantPolicy, bare, bind, Except.bind, pure, Except.pure] at ran
    cases list : listColumns grants.columns with
    | error message =>
      simp only [list] at ran
      split_ifs at ran with nothing unrestricted
      · cases ran
        simp only [TablePolicy.filters, nothing.1, unfiltered]
      · cases ran
        rfl
    | ok listed =>
      simp only [list] at ran
      split_ifs at ran with nothing unrestricted
      · cases ran
        simp only [TablePolicy.filters, nothing.1, unfiltered]
      · cases ran
        rfl
      · cases ran
        exact restrictUndeclared_filters listed _
      · exact restrictDeclared_filters rfl ran
  · have composed : whereClause (composeRls out.rls grants.predicate) = whereClause grants.predicate := by
      rw [own, composeRls]
      by_cases none : grants.predicate = []
      · rw [if_pos none, none]
      · rw [if_neg none, if_pos rfl]
    rw [composed]
    simp only [applyGrantPolicy, view, bind, Except.bind, pure, Except.pure] at ran
    cases items : viewItems grants.columns with
    | error message =>
      simp only [items] at ran
      split_ifs at ran with casts nothing
      cases ran
      simp [TablePolicy.filters, PolicyQuery.filters, whereClause, nothing.1]
    | ok listed =>
      simp only [items] at ran
      split_ifs at ran with casts restricts nothing restricts
      · cases ran
        simp [TablePolicy.filters, PolicyQuery.filters, whereClause]
      · cases ran
        simp [TablePolicy.filters, PolicyQuery.filters]
      · cases ran
        simp [TablePolicy.filters, PolicyQuery.filters, whereClause, nothing.1]
      · cases ran
        simp [TablePolicy.filters, PolicyQuery.filters]
      · cases ran
        simp [TablePolicy.filters, PolicyQuery.filters]

/-- The row qualifies: the object's predicate is true on it, and some role has all of its own true. -/
def Qualifies (value : Text → ρ → Outcome3) (own : Text) (roles : List (List GrantLevel)) (row : ρ) : Prop :=
  (own ≠ [] → value own row = some true) ∧ ∃ levels ∈ roles, ChainTrue value levels row

/-- An object is read through one filter at most. Without one every row qualifies; with one, it is an
expression, and true on a row exactly when the row qualifies. -/
theorem row_filter_true_iff (grammar : PredicateGrammar expression value) {roles : List (List GrantLevel)}
    {policies : List GrantPolicy} {grants : GrantUnion} {vname : Text} {objectColumns : List (Text × Text)}
    {out result : TablePolicy}
    (chains : List.Forall₂ (fun levels policy => narrowAll levels = .ok policy) roles policies)
    (united : policies.foldlM GrantUnion.add {} = .ok grants) (held : roles ≠ [])
    (ownReads : out.rls ≠ [] → expression out.rls) (reads : ∀ levels ∈ roles, ChainReads expression levels)
    (object : IsObject out) (ran : applyGrantPolicy vname grants objectColumns out = .ok result) :
    (result.filters = [] ∧ ∀ row, Qualifies value out.rls roles row) ∨
      ∃ filter, result.filters = [filter] ∧ filter ≠ [] ∧ expression filter ∧
        ∀ row, value filter row = some true ↔ Qualifies value out.rls roles row := by
  rw [applyGrantPolicy_filters object ran, whereClause]
  obtain ⟨unfiltered, filtered⟩ := union_predicate_means grammar chains united held reads
  by_cases none : composeRls out.rls grants.predicate = []
  · left
    obtain ⟨bare, nothing⟩ : out.rls = [] ∧ grants.predicate = [] := by
      unfold composeRls at none
      split_ifs at none with first second
      · exact ⟨none, first⟩
      · exact absurd none first
      · simp at none
    refine ⟨if_pos none, fun row => ⟨fun some => absurd bare some, unfiltered nothing row⟩⟩
  · right
    rw [if_neg none]
    obtain ⟨whole, outcome⟩ := composeRls_means grammar ownReads (fun some => (filtered some).1) none
    refine ⟨_, rfl, none, whole, fun row => (outcome row).trans (and_congr_right fun _ => ?_)⟩
    by_cases empty : grants.predicate = []
    · exact iff_of_true (fun some => absurd empty some) (unfiltered empty row)
    · simp only [ne_eq, empty, not_false_eq_true, true_implies]
      exact (filtered empty).2 row

end Filters

/-! ## A reader of predicates -/

namespace LetterPredicates

/-- The outcomes of a row's predicates, each a letter. -/
abbrev Letters := Char → Outcome3

/-- What has been read of an open parenthesis: the disjuncts that are closed, and the conjuncts of the
open one. -/
abbrev Frame := Outcome3 × Outcome3

def start : Frame := (some false, some true)

def feed (row : Letters) (stack : List Frame) (c : Char) : Option (List Frame) :=
  match c, stack with
  | '(', stack => some (start :: stack)
  | ')', (closed, conjuncts) :: (outer, factors) :: rest => some ((outer, factors.and (closed.or conjuncts)) :: rest)
  | ')', _ => none
  | 'O', (closed, conjuncts) :: rest => some ((closed.or conjuncts, some true) :: rest)
  | c, (closed, conjuncts) :: rest =>
    some ((closed, if c.isLower then conjuncts.and (row c) else conjuncts) :: rest)
  | _, [] => none

def read (row : Letters) : Text → List Frame → Option (List Frame)
  | [], stack => some stack
  | c :: rest, stack => (feed row stack c).bind (read row rest)

def outcome (text : Text) (row : Letters) : Outcome3 :=
  match read row text [start] with
  | some [(closed, conjuncts)] => closed.or conjuncts
  | _ => none

theorem read_append (row : Letters) (first second : Text) (stack : List Frame) :
    read row (first ++ second) stack = (read row first stack).bind (read row second) := by
  induction first generalizing stack with
  | nil => rfl
  | cons c rest ih =>
    simp only [List.cons_append, read, Option.bind_assoc]
    congr 1
    funext next
    exact ih next

/-- The text leaves what is below it alone. -/
def Reads (text : Text) : Prop :=
  ∃ frame : Letters → Frame, ∀ row rest, read row text (start :: rest) = some (frame row :: rest)

/-- The text is one factor of the conjunction it stands in. -/
def Factor (text : Text) : Prop :=
  ∃ factor : Letters → Outcome3, ∀ row closed conjuncts rest,
    read row text ((closed, conjuncts) :: rest) = some ((closed, conjuncts.and (factor row)) :: rest)

private theorem true_and (second : Outcome3) : Outcome3.and (some true) second = second := by
  rcases second with _ | _ | _ <;> rfl

private theorem false_or (second : Outcome3) : Outcome3.or (some false) second = second := by
  rcases second with _ | _ | _ <;> rfl

private theorem and_assoc (first second third : Outcome3) : (first.and second).and third = first.and (second.and third) := by
  rcases first with _ | _ | _ <;> rcases second with _ | _ | _ <;> rcases third with _ | _ | _ <;> rfl

private theorem outcome_of_reads {text : Text} {frame : Letters → Frame}
    (reads : ∀ row rest, read row text (start :: rest) = some (frame row :: rest)) (row : Letters) :
    outcome text row = (frame row).1.or (frame row).2 := by
  simp only [outcome, reads row []]

private theorem Factor.reads {text : Text} {factor : Letters → Outcome3}
    (factors : ∀ row closed conjuncts rest,
      read row text ((closed, conjuncts) :: rest) = some ((closed, conjuncts.and (factor row)) :: rest)) (row : Letters)
    (rest : List Frame) : read row text (start :: rest) = some ((some false, factor row) :: rest) := by
  rw [start, factors, true_and]

private theorem factor_parenthesised {text : Text} {frame : Letters → Frame}
    (reads : ∀ row rest, read row text (start :: rest) = some (frame row :: rest)) (row : Letters) (closed conjuncts : Outcome3)
    (rest : List Frame) : read row (parenthesised text) ((closed, conjuncts) :: rest) =
      some ((closed, conjuncts.and ((frame row).1.or (frame row).2)) :: rest) := by
  have opened : read row (parenthesised text) ((closed, conjuncts) :: rest) =
      read row (text ++ [')']) (start :: (closed, conjuncts) :: rest) := rfl
  rw [opened, read_append, reads]
  rfl

/-- Letters, parentheses, `AND` and `OR` are a grammar of predicates. -/
def grammar : PredicateGrammar Reads outcome where
  binds
    | .primary | .conjunction => Factor
    | .disjunction => Reads
  parentheses := fun ⟨frame, reads⟩ => ⟨_, factor_parenthesised reads⟩
  value_parentheses := by
    rintro text ⟨frame, reads⟩ row
    rw [outcome_of_reads reads, outcome_of_reads (Factor.reads (factor_parenthesised reads))]
    exact false_or _
  operand := id
  chain := fun ⟨factor, factors⟩ => ⟨_, Factor.reads factors⟩
  whole := id
  conjoin := by
    rintro first second ⟨one, firstReads⟩ ⟨two, secondReads⟩
    refine ⟨fun row => (one row).and (two row), fun row closed conjuncts rest => ?_⟩
    rw [read_append, read_append, firstReads]
    show (read row second ((closed, conjuncts.and (one row)) :: rest)) = _
    rw [secondReads, and_assoc]
  value_conjoin := by
    rintro first second ⟨one, firstReads⟩ ⟨two, secondReads⟩ row
    have both : read row (first ++ " AND ".toList ++ second) [start] = some [(some false, (one row).and (two row))] := by
      rw [read_append, read_append, start, firstReads]
      show (read row second [(some false, Outcome3.and (some true) (one row))]) = _
      rw [secondReads, true_and]
    rw [outcome, both, outcome_of_reads (Factor.reads firstReads), outcome_of_reads (Factor.reads secondReads)]
    simp only [false_or]
  disjoin := by
    rintro first second ⟨frame, firstReads⟩ ⟨two, secondReads⟩
    refine ⟨fun row => ((frame row).1.or (frame row).2, two row), fun row rest => ?_⟩
    rw [read_append, read_append, firstReads]
    show (read row second (((frame row).1.or (frame row).2, some true) :: rest)) = _
    rw [secondReads, true_and]
  value_disjoin := by
    rintro first second ⟨frame, firstReads⟩ ⟨two, secondReads⟩ row
    have both : read row (first ++ " OR ".toList ++ second) [start] =
        some [((frame row).1.or (frame row).2, two row)] := by
      rw [read_append, read_append, firstReads]
      show (read row second [((frame row).1.or (frame row).2, some true)]) = _
      rw [secondReads, true_and]
    rw [outcome, both, outcome_of_reads firstReads, outcome_of_reads (Factor.reads secondReads), false_or]

end LetterPredicates

/-- One role with a predicate on the catalog and one on the object, and one with a predicate on the object. -/
def letterRoles : List (List GrantLevel) :=
  [[⟨"x OR y".toList, [], true⟩, ⟨"z".toList, [], true⟩], [⟨[], [], true⟩, ⟨"y".toList, [], true⟩]]

theorem row_filter_true_iff_letters :
    let out : TablePolicy := { phys := "t".toList, rls := "w".toList }
    let policies : List GrantPolicy := [{ predicates := ["x OR y".toList, "z".toList] }, { predicates := ["y".toList] }]
    let grants : GrantUnion :=
      { any := true, unrestrictedColumns := true, predicates := ["(x OR y) AND (z)".toList, "y".toList] }
    let result : TablePolicy :=
      { phys := "t".toList, rls := "(w) AND (((x OR y) AND (z)) OR (y))".toList }
    List.Forall₂ (fun levels policy => narrowAll levels = .ok policy) letterRoles policies ∧
      policies.foldlM GrantUnion.add {} = .ok grants ∧ letterRoles ≠ [] ∧ IsObject out ∧
      applyGrantPolicy "v".toList grants [] out = .ok result ∧
      ((result.filters = [] ∧ ∀ row, Qualifies LetterPredicates.outcome out.rls letterRoles row) ∨
        ∃ filter, result.filters = [filter] ∧ filter ≠ [] ∧ LetterPredicates.Reads filter ∧
          ∀ row, LetterPredicates.outcome filter row = some true ↔
            Qualifies LetterPredicates.outcome out.rls letterRoles row) := by
  intro out policies grants result
  have none : parseColumnList [] = [] := by
    simp [parseColumnList, splitTopLevel, splitFrom, Text.trim]
  have chains : List.Forall₂ (fun levels policy => narrowAll levels = .ok policy) letterRoles policies := by
    refine .cons ?_ (.cons ?_ .nil)
    · simp [narrowAll, GrantPolicy.narrow, GrantPolicy.narrowColumns, none, bind, Except.bind, pure, Except.pure]
    · simp [narrowAll, GrantPolicy.narrow, GrantPolicy.narrowColumns, none, bind, Except.bind, pure, Except.pure]
  have reads : ∀ levels ∈ letterRoles, ChainReads LetterPredicates.Reads levels := by
    have one : LetterPredicates.Reads "x OR y".toList :=
      ⟨fun row => (Outcome3.or (some false) (Outcome3.and (some true) (row 'x')), Outcome3.and (some true) (row 'y')),
        fun _ _ => rfl⟩
    have two : LetterPredicates.Reads "z".toList :=
      ⟨fun row => (some false, Outcome3.and (some true) (row 'z')), fun _ _ => rfl⟩
    have three : LetterPredicates.Reads "y".toList :=
      ⟨fun row => (some false, Outcome3.and (some true) (row 'y')), fun _ _ => rfl⟩
    simp only [letterRoles, ChainReads, List.forall_mem_cons, List.not_mem_nil, false_implies, implies_true, and_true]
    exact ⟨⟨fun _ => one, fun _ => two⟩, fun given => absurd rfl given, fun _ => three⟩
  have own : LetterPredicates.Reads "w".toList :=
    ⟨fun row => (some false, Outcome3.and (some true) (row 'w')), fun _ _ => rfl⟩
  have united : policies.foldlM GrantUnion.add {} = .ok grants := rfl
  have ran : applyGrantPolicy "v".toList grants [] out = .ok result := rfl
  exact ⟨chains, united, by simp [letterRoles], .inl rfl, ran,
    row_filter_true_iff LetterPredicates.grammar chains united (by simp [letterRoles]) (fun _ => own) reads (.inl rfl) ran⟩

end DuckAcl
