import Mathlib
import DuckAcl.Library.Outcome
import DuckAcl.Model.UnionWidening
import DuckAcl.Soundness.RoleOrder

/-! # The report of a widening union

The report decides a question about cells, a row and a column of the object, by comparing lists: two
roles at a time, each filter once. The row that decides is the one where only the filter of the first
role holds; on it the readers are the roles without a filter and those with that one.
-/

namespace DuckAcl

/-! ## Names and what stands above them -/

private theorem toLower_bracket {c : Char} : c.toLower = '[' ↔ c = '[' := by
  delta Char.toLower
  split_ifs with upper
  · have large : 65 ≤ c.val.toNat := by simpa using UInt32.le_iff_toNat_le.mp upper.1
    have small : c.val.toNat ≤ 90 := by simpa using UInt32.le_iff_toNat_le.mp upper.2
    have offset : ('a'.val - 'A'.val).toNat = 32 := by decide
    refine iff_of_false ?_ ?_
    · intro same
      have code := congrArg (fun d : Char => d.val.toNat) same
      simp only [UInt32.toNat_add, offset] at code
      have bracket : ('[' : Char).val.toNat = 91 := by decide
      omega
    · rintro rfl
      exact absurd small (by decide)
  · exact Iff.rfl

private theorem toLower_dot {c : Char} : c.toLower = '.' ↔ c = '.' := Text.toLower_eq_iff (by decide)

private theorem prefixesFrom_fold (before rest : Text) :
    prefixesFrom (Text.fold before) (Text.fold rest) = (prefixesFrom before rest).map Text.fold := by
  induction rest generalizing before with
  | nil => rfl
  | cons c rest ih =>
    have next : Text.fold before ++ [c.toLower] = Text.fold (before ++ [c]) := by simp [Text.fold]
    have folded : Text.fold (c :: rest) = c.toLower :: Text.fold rest := rfl
    rw [folded, prefixesFrom, prefixesFrom, next, ih, List.map_append]
    simp only [toLower_dot, toLower_bracket]
    split_ifs <;> rfl

theorem namePrefixes_fold (name : Text) : namePrefixes (Text.fold name) = (namePrefixes name).map Text.fold := by
  cases name with
  | nil => rfl
  | cons c rest => exact prefixesFrom_fold [c] rest

private theorem prefixesFrom_plain {rest : Text} (dots : '.' ∉ rest) (brackets : '[' ∉ rest) (before : Text) :
    prefixesFrom before rest = [] := by
  induction rest generalizing before with
  | nil => rfl
  | cons c rest ih =>
    rw [List.mem_cons, not_or] at dots brackets
    rw [prefixesFrom, ih dots.2 brackets.2, if_neg fun cut => cut.elim (dots.1 ·.symm) (brackets.1 ·.symm)]
    rfl

/-- A name without a `.` or a `[` stands under nothing. -/
theorem namePrefixes_plain {name : Text} (dots : '.' ∉ name) (brackets : '[' ∉ name) : namePrefixes name = [] := by
  cases name with
  | nil => rfl
  | cons c rest =>
    exact prefixesFrom_plain (fun held => dots (List.mem_cons_of_mem _ held))
      (fun held => brackets (List.mem_cons_of_mem _ held)) [c]

theorem holdsName_iff {names : List Text} {name : Text} :
    holdsName names name = true ↔ ∃ other ∈ names, Text.ciEquals other name = true := by
  rw [holdsName, List.any_eq_true]

theorem holdsName_congr {a b : Text} (same : Text.ciEquals a b = true) (names : List Text) :
    holdsName names a = holdsName names b := by
  rw [holdsName, holdsName]
  exact congrArg names.any (funext fun other => Text.ciEquals_congr_right same other)

private theorem any_above_congr {a b : Text} (same : Text.ciEquals a b = true) (names : List Text) :
    (namePrefixes a).any (holdsName names) = (namePrefixes b).any (holdsName names) := by
  have folded (name : Text) : (namePrefixes name).any (holdsName names) = (namePrefixes (Text.fold name)).any (holdsName names) := by
    rw [namePrefixes_fold, List.any_map]
    refine congrArg (namePrefixes name).any (funext fun above => ?_)
    exact holdsName_congr (by rw [Text.ciEquals_iff, Text.fold_fold]) names
  rw [folded a, folded b, Text.ciEquals_iff.mp same]

theorem SeenColumns.covers_congr {a b : Text} (same : Text.ciEquals a b = true) (seen : SeenColumns) (masked : Bool) :
    seen.covers a masked = seen.covers b masked := by
  simp only [SeenColumns.covers, any_above_congr same, holdsName_congr same]

/-! ## The answers that are kept -/

/-- Every kept answer is the open readers' own. -/
def KeptAnswers (openReaders : List SeenColumns) (kept : OpenCovered) : Prop :=
  ∀ masked name answer, (kept masked).find (Text.fold name) = some answer → answer = openReaders.any (·.covers name masked)

section

variable {openReaders readers : List SeenColumns} {known : List Text}

theorem coveredOpen_settles (name : Text) (masked : Bool) :
    Settles (KeptAnswers openReaders) (coveredOpen openReaders name masked) (openReaders.any (·.covers name masked)) := by
  intro kept sound
  cases found : (kept masked).find (Text.fold name) with
  | some answer =>
    have run : (coveredOpen openReaders name masked).run kept = (answer, kept) := by
      simp [coveredOpen, StateT.run, bind, StateT.bind, get, getThe, MonadStateOf.get, StateT.get, pure, StateT.pure, found]
    rw [run]
    exact ⟨sound masked name answer found, sound⟩
  | none =>
    have run : (coveredOpen openReaders name masked).run kept =
        (openReaders.any (·.covers name masked),
          Function.update kept masked ((kept masked).store (Text.fold name) (openReaders.any (·.covers name masked)))) := by
      simp [coveredOpen, StateT.run, bind, StateT.bind, get, getThe, MonadStateOf.get, StateT.get, pure, StateT.pure, found,
        modify, modifyGet, MonadStateOf.modifyGet, StateT.modifyGet]
    rw [run]
    refine ⟨rfl, fun kind other answer held => ?_⟩
    by_cases here : kind = masked
    · subst here
      simp only [Function.update_self, Memo.find_store] at held
      split_ifs at held with same
      · -- a name in another case is the same name to every reader
        rw [← Option.some.inj held]
        have names : Text.ciEquals name other = true := Text.ciEquals_iff.mpr same.symm
        exact congrArg openReaders.any (funext fun seen => seen.covers_congr names kind)
      · exact sound kind other answer held
    · simp only [Function.update_of_ne here] at held
      exact sound kind other answer held

theorem coveredBy_settles (name : Text) (masked : Bool) :
    Settles (KeptAnswers openReaders) (coveredBy openReaders readers name masked)
      ((openReaders ++ readers).any (·.covers name masked)) := by
  rw [List.any_append]
  refine (coveredOpen_settles name masked).bind ?_
  cases openReaders.any (·.covers name masked) with
  | true => exact Settles.pure true
  | false => exact Settles.pure _

/-- The items of `b` that no reader reads. -/
def uncovered (readers : List SeenColumns) (known : List Text) (b : SeenColumns) : List Text :=
  if b.all then
    known.filter (fun name => !readers.any (·.covers name false)) ++ if known.isEmpty then ["*".toList] else []
  else (b.items.filter fun item => headKnown known item.1 && !readers.any (·.covers item.1 item.2)).map (·.1)

theorem extraItems_settles (b : SeenColumns) :
    Settles (KeptAnswers openReaders) (extraItems (coveredBy openReaders readers) known b)
      (uncovered (openReaders ++ readers) known b) := by
  rw [extraItems, uncovered]
  refine Settles.ite (fun _ => ?_) fun _ => ?_
  · have kept : Settles (KeptAnswers openReaders)
        (keepWith (fun name => do return !(← coveredBy openReaders readers name false)) known)
        (known.filter fun name => !(openReaders ++ readers).any (·.covers name false)) :=
      Settles.keepWith fun name _ => (coveredBy_settles name false).bind (Settles.pure _)
    refine kept.bind ?_
    cases known.isEmpty with
    | true => exact Settles.pure _
    | false =>
      rw [if_neg Bool.false_ne_true, if_neg Bool.false_ne_true, List.append_nil]
      exact Settles.pure _
  · refine (Settles.keepWith fun item _ => ?_).bind (Settles.pure _)
    cases headKnown known item.1 with
    | true => exact (coveredBy_settles item.1 item.2).bind (Settles.pure _)
    | false => exact Settles.pure false

/-! ## The pairs -/

/-- The pair of two roles, when `b` adds something to the rows of `a`. -/
def pairOf (extra : SeenColumns → List Text) (a b : ReportedRole) : Option UnionWidening :=
  if b.predicate = [] ∨ b.predicate = a.predicate ∨ extra b.seen = [] then none
  else some ⟨a.name, b.name, extra b.seen⟩

variable {kind : OpenCovered → Prop} {run : SeenColumns → StateM OpenCovered (List Text)} {extra : SeenColumns → List Text}

theorem pairsWith_settles (maxPairs : ℕ) (settles : ∀ b, Settles kind (run b) (extra b)) (a : ReportedRole)
    (roles : List ReportedRole) (out : List UnionWidening) (room : out.length ≤ maxPairs) :
    Settles kind (pairsWith maxPairs run a roles out) ((out ++ roles.filterMap (pairOf extra a)).take (maxPairs + 1)) := by
  induction roles generalizing out with
  | nil =>
    rw [List.filterMap_nil, List.append_nil, List.take_of_length_le (by omega)]
    exact Settles.pure out
  | cons b rest ih =>
    rw [pairsWith]
    split_ifs with skipped
    · have none : pairOf extra a b = none := if_pos (by tauto)
      rw [List.filterMap_cons_none none]
      exact ih out room
    · refine (settles b.seen).bind ?_
      cases items : extra b.seen with
      | nil =>
        have none : pairOf extra a b = none := if_pos (.inr (.inr items))
        rw [List.filterMap_cons_none none]
        exact ih out room
      | cons item others =>
        have some : pairOf extra a b = some ⟨a.name, b.name, extra b.seen⟩ := by
          refine if_neg ?_
          rw [items]
          simpa using skipped
        have full : (extra b.seen).isEmpty = false := by rw [items]; rfl
        rw [List.filterMap_cons_some some, ← items, full, if_neg Bool.false_ne_true]
        simp only
        rw [List.append_cons out _ (rest.filterMap (pairOf extra a))]
        have one : (out ++ [(⟨a.name, b.name, extra b.seen⟩ : UnionWidening)]).length = out.length + 1 := by simp
        by_cases enough : maxPairs < (out ++ [(⟨a.name, b.name, extra b.seen⟩ : UnionWidening)]).length
        · rw [if_pos enough, List.take_left' (by omega)]
          exact Settles.pure _
        · rw [if_neg enough]
          exact ih _ (by omega)

/-- The first role of each filter that is not among those seen. -/
def classHeads : List Text → List ReportedRole → List ReportedRole
  | _, [] => []
  | classes, a :: rest =>
    if a.predicate ∈ classes then classHeads classes rest else a :: classHeads (classes ++ [a.predicate]) rest

theorem classHeads_sub {classes : List Text} {roles : List ReportedRole} {a : ReportedRole}
    (head : a ∈ classHeads classes roles) : a ∈ roles := by
  induction roles generalizing classes with
  | nil => cases head
  | cons first rest ih =>
    rw [classHeads] at head
    split_ifs at head
    · exact List.mem_cons_of_mem _ (ih head)
    · rcases List.mem_cons.mp head with rfl | head
      · exact List.mem_cons_self
      · exact List.mem_cons_of_mem _ (ih head)

/-- Every filter has its head. -/
theorem exists_classHead {classes : List Text} {roles : List ReportedRole} {a : ReportedRole} (member : a ∈ roles)
    (fresh : a.predicate ∉ classes) : ∃ head ∈ classHeads classes roles, head.predicate = a.predicate := by
  induction roles generalizing classes with
  | nil => cases member
  | cons first rest ih =>
    rw [classHeads]
    split_ifs with known
    · rcases List.mem_cons.mp member with rfl | member
      · exact absurd known fresh
      · exact ih member fresh
    · by_cases same : first.predicate = a.predicate
      · exact ⟨first, List.mem_cons_self, same⟩
      · rcases List.mem_cons.mp member with rfl | member
        · exact absurd rfl same
        · have still : a.predicate ∉ classes ++ [first.predicate] := by
            rw [List.mem_append, List.mem_singleton, not_or]
            exact ⟨fresh, fun found => same found.symm⟩
          obtain ⟨head, inside, named⟩ := ih member still
          exact ⟨head, List.mem_cons_of_mem _ inside, named⟩

/-- What the rows of one filter add to the report. -/
def classPairs (openReaders : List SeenColumns) (roles : List ReportedRole) (known : List Text) (a : ReportedRole) :
    List UnionWidening :=
  if (readersOf roles a).any (·.all) then []
  else roles.filterMap (pairOf (uncovered (openReaders ++ readersOf roles a) known) a)

theorem classesFrom_settles (maxPairs : ℕ) (roles rest : List ReportedRole) (classes : List Text) (out : List UnionWidening)
    (room : out.length ≤ maxPairs) :
    Settles (KeptAnswers openReaders) (classesFrom maxPairs openReaders roles known rest classes out)
      ((out ++ (classHeads classes rest).flatMap (classPairs openReaders roles known)).take (maxPairs + 1)) := by
  induction rest generalizing classes out with
  | nil =>
    rw [classHeads, List.flatMap_nil, List.append_nil, List.take_of_length_le (by omega)]
    exact Settles.pure out
  | cons a rest ih =>
    rw [classesFrom, classHeads]
    by_cases seen : a.predicate ∈ classes
    · rw [if_pos seen, if_pos seen]
      exact ih classes out room
    rw [if_neg seen, if_neg seen]
    simp only
    by_cases all : (readersOf roles a).any (·.all) = true
    · rw [if_pos all, List.flatMap_cons, classPairs, if_pos all, List.nil_append]
      exact ih _ out room
    · rw [if_neg all, List.flatMap_cons, ← List.append_assoc]
      have pairs := pairsWith_settles maxPairs (@extraItems_settles openReaders (readersOf roles a) known) a roles out room
      rw [classPairs, if_neg all]
      refine pairs.bind ?_
      generalize roles.filterMap (pairOf (uncovered (openReaders ++ readersOf roles a) known) a) = found
      by_cases enough : maxPairs < ((out ++ found).take (maxPairs + 1)).length
      · rw [if_pos enough]
        have full : maxPairs + 1 ≤ (out ++ found).length := by
          rw [List.length_take] at enough
          omega
        rw [List.take_append_of_le_length full]
        exact Settles.pure _
      · rw [if_neg enough]
        have whole : (out ++ found).take (maxPairs + 1) = out ++ found := by
          rw [List.length_take] at enough
          exact List.take_of_length_le (by omega)
        rw [whole] at enough ⊢
        exact ih _ _ (by omega)

end

/-- The report, without its bookkeeping: the pairs of each filter, as many as are asked for. -/
theorem roleUnionWidens_eq (roles : List (Text × GrantPolicy)) (known : List Text) (maxPairs : ℕ) :
    roleUnionWidens roles known maxPairs =
      let reported := roles.map ReportedRole.of
      let openRoles := reported.filter fun c => decide (c.predicate = [])
      if openRoles.any (·.seen.all) then []
      else ((classHeads [] reported).flatMap (classPairs (openRoles.map (·.seen)) reported known)).take (maxPairs + 1) := by
  simp only [roleUnionWidens]
  split_ifs
  · rfl
  · have settles := @classesFrom_settles (((roles.map ReportedRole.of).filter fun c =>
      decide (c.predicate = [])).map (·.seen)) known maxPairs (roles.map .of) (roles.map .of) [] [] (by simp)
    have fresh : KeptAnswers (((roles.map ReportedRole.of).filter fun c => decide (c.predicate = [])).map (·.seen))
        fun _ => [] := by
      intro masked name answer found
      cases found
    rw [List.nil_append] at settles
    exact (settles _ fresh).1

/-! ## Cells -/

/-- An item of a column list names the column. -/
def NamesColumn (column : Text) (item : Text × Text) : Prop := Text.ciEquals (Text.trim item.1) column = true

/-- The list names the column. -/
def HasColumn (items : ColumnItems) (column : Text) : Prop := ∃ item ∈ items, NamesColumn column item

/-- The list names the column without a mask. -/
def ListsPlainly (items : ColumnItems) (column : Text) : Prop := ∃ item ∈ items, NamesColumn column item ∧ item.2 = []

namespace GrantPolicy

/-- The role sees the row; a row is the set of the filters that hold in it. -/
def readsRow (policy : GrantPolicy) (row : Set Text) : Prop := policy.predicate = [] ∨ policy.predicate ∈ row

/-- The role shows the column plainly or, where that is enough, masked. -/
def shows (policy : GrantPolicy) (column : Text) (masked : Bool) : Prop :=
  policy.restricts = false ∨ ListsPlainly policy.columns column ∨ (masked = true ∧ HasColumn policy.columns column)

/-- The report takes the column for a path below a column the role shows: a text its name starts with,
up to a `.` or a `[`, is listed, and none of them with a mask. -/
def misreads (policy : GrantPolicy) (column : Text) : Prop :=
  policy.restricts = true ∧ (∃ above ∈ namePrefixes column, ListsPlainly policy.columns above) ∧
    ∀ above ∈ namePrefixes column, ∀ item ∈ policy.columns, NamesColumn above item → item.2 = []

/-- The role's list holds no field path and names each column once. -/
structure ListsColumns (policy : GrantPolicy) : Prop where
  plain : hasFieldPaths policy.columns = false
  once : policy.columns.Pairwise fun first second => Text.ciEquals (Text.trim first.1) (Text.trim second.1) = false

end GrantPolicy

namespace GrantUnion

/-- The union shows the rows any filter lets through, and all of them when some role has none. -/
def readsRow (union : GrantUnion) (row : Set Text) : Prop :=
  union.unrestrictedRls = true ∨ ∃ predicate ∈ union.predicates, predicate ∈ row

/-- The union shows the column, in exactly that form. -/
def shows (union : GrantUnion) (column : Text) : Bool → Prop
  | false => union.unrestrictedColumns = true ∨ ListsPlainly union.columns column
  | true => ¬ (union.unrestrictedColumns = true ∨ ListsPlainly union.columns column) ∧ HasColumn union.columns column

end GrantUnion

/-- A cell of the object the union shows and no single role does, in that form or plainer. -/
structure WidenedCell (policies : List GrantPolicy) (union : GrantUnion) (known : List Text) (row : Set Text) (column : Text)
    (masked : Bool) : Prop where
  isKnown : column ∈ known
  readsRow : union.readsRow row
  shows : union.shows column masked
  beyond : ∀ policy ∈ policies, policy.readsRow row → ¬ policy.shows column masked

theorem ListsPlainly.lists {items : ColumnItems} {column : Text} (listed : ListsPlainly items column) : HasColumn items column := by
  obtain ⟨item, inside, names, -⟩ := listed
  exact ⟨item, inside, names⟩

private theorem trimmed_plain {items : ColumnItems} (plain : hasFieldPaths items = false) {item : Text × Text}
    (inside : item ∈ items) : '.' ∉ Text.trim item.1 ∧ '[' ∉ Text.trim item.1 := by
  have notPath := List.any_eq_false.mp plain item inside
  simp only [ColumnTrees.looksLikePath, Bool.or_eq_true, List.contains_iff_mem, not_or] at notPath
  exact notPath.1

private theorem namePrefixes_nil_of_names {items : ColumnItems} (plain : hasFieldPaths items = false) {item : Text × Text}
    (inside : item ∈ items) {column : Text} (names : NamesColumn column item) : namePrefixes column = [] := by
  obtain ⟨dots, brackets⟩ := trimmed_plain plain inside
  have folded := congrArg namePrefixes (Text.ciEquals_iff.mp names)
  rw [namePrefixes_fold, namePrefixes_fold, namePrefixes_plain dots brackets, List.map_nil] at folded
  exact List.map_eq_nil_iff.mp folded.symm

namespace GrantPolicy

variable {policy : GrantPolicy}

private theorem holds_plain {name : Text} :
    holdsName (SeenColumns.of policy).plain name = true ↔ ListsPlainly policy.columns name := by
  simp only [holdsName_iff, SeenColumns.of, List.mem_map, List.mem_filter]
  constructor
  · rintro ⟨_, ⟨_, ⟨⟨item, inside, rfl⟩, plain⟩, rfl⟩, names⟩
    exact ⟨item, inside, names, by simpa using plain⟩
  · rintro ⟨item, inside, names, plain⟩
    exact ⟨_, ⟨_, ⟨⟨item, inside, rfl⟩, by simp [plain]⟩, rfl⟩, names⟩

private theorem holds_masked {name : Text} :
    holdsName (SeenColumns.of policy).masked name = true ↔ ∃ item ∈ policy.columns, NamesColumn name item ∧ item.2 ≠ [] := by
  simp only [holdsName_iff, SeenColumns.of, List.mem_map, List.mem_filter]
  constructor
  · rintro ⟨_, ⟨_, ⟨⟨item, inside, rfl⟩, masked⟩, rfl⟩, names⟩
    exact ⟨item, inside, names, by simpa using masked⟩
  · rintro ⟨item, inside, names, masked⟩
    exact ⟨_, ⟨_, ⟨⟨item, inside, rfl⟩, by simp [masked]⟩, rfl⟩, names⟩

private theorem aboveMasked_nil (listed : policy.ListsColumns) : (SeenColumns.of policy).aboveMasked = [] := by
  simp only [SeenColumns.of, List.flatMap_eq_nil_iff, List.mem_map, List.mem_filter]
  rintro _ ⟨_, ⟨⟨item, inside, rfl⟩, -⟩, rfl⟩
  obtain ⟨dots, brackets⟩ := trimmed_plain listed.plain inside
  exact namePrefixes_plain dots brackets

/-- The list says one thing of a column. -/
private theorem same_item (listed : policy.ListsColumns) {first second : Text × Text} (isFirst : first ∈ policy.columns)
    (isSecond : second ∈ policy.columns) {column : Text} (names : NamesColumn column first) (names' : NamesColumn column second) :
    first = second := by
  have symmetric : Std.Symm fun first second : Text × Text => Text.ciEquals (Text.trim first.1) (Text.trim second.1) = false :=
    ⟨fun a b far => by
      rw [← Bool.not_eq_true] at far ⊢
      exact fun same => far (Text.ciEquals_symm same)⟩
  by_contra differ
  have apart := listed.once.forall isFirst isSecond differ
  rw [Text.ciEquals_trans names (Text.ciEquals_symm names')] at apart
  cases apart

/-- A role's list covers a column when it shows it, or when the report misreads the column's name. -/
theorem ListsColumns.covers_iff (listed : policy.ListsColumns) (column : Text) (masked : Bool) :
    (SeenColumns.of policy).covers column masked = true ↔ policy.shows column masked ∨ policy.misreads column := by
  cases restricts : policy.restricts with
  | false =>
    have all : (SeenColumns.of policy).all = true := by simp [SeenColumns.of, restricts]
    exact iff_of_true (by rw [SeenColumns.covers, if_pos all]) (.inl (.inl restricts))
  | true =>
    have all : ¬ (SeenColumns.of policy).all = true := by simp [SeenColumns.of, restricts]
    rw [SeenColumns.covers, if_neg all]
    have whole : policy.shows column masked ↔
        ListsPlainly policy.columns column ∨ (masked = true ∧ HasColumn policy.columns column) := by
      rw [shows, restricts]
      simp
    split_ifs with above here
    · -- a masked item stands above: the column is none the list names
      obtain ⟨top, isAbove, held⟩ := List.any_eq_true.mp above
      obtain ⟨item, inside, names, mask⟩ := holds_masked.mp held
      refine iff_of_false not_false ?_
      rintro (shown | ⟨-, -, unmasked⟩)
      · obtain ⟨other, among, named⟩ : HasColumn policy.columns column :=
          (whole.mp shown).elim ListsPlainly.lists And.right
        rw [namePrefixes_nil_of_names listed.plain among named] at isAbove
        cases isAbove
      · exact mask (unmasked top isAbove item inside names)
    · obtain ⟨item, inside, names, mask⟩ := holds_masked.mp here
      have noPlain : ¬ ListsPlainly policy.columns column := by
        rintro ⟨other, among, named, plain⟩
        rw [same_item listed inside among names named] at mask
        exact mask plain
      have noMisreading : ¬ policy.misreads column := by
        rintro ⟨-, ⟨top, isAbove, -⟩, -⟩
        rw [namePrefixes_nil_of_names listed.plain inside names] at isAbove
        cases isAbove
      rw [whole]
      simp only [noPlain, noMisreading, false_or, or_false]
      exact ⟨fun isMasked => ⟨isMasked, item, inside, names⟩, And.left⟩
    · have free : holdsName (SeenColumns.of policy).aboveMasked column = false := by
        rw [aboveMasked_nil listed]
        rfl
      rw [free, Bool.not_false, Bool.and_true, Bool.or_eq_true, List.any_eq_true, holds_plain, or_comm, whole]
      simp only [holds_plain]
      refine or_congr ⟨.inl, ?_⟩ ⟨?_, ?_⟩
      · rintro (plain | ⟨-, item, inside, names⟩)
        · exact plain
        · exact ⟨item, inside, names, by_contra fun mask => here (holds_masked.mpr ⟨item, inside, names, mask⟩)⟩
      · rintro ⟨top, isAbove, plain⟩
        refine ⟨restricts, ⟨top, isAbove, plain⟩, fun other isOther item inside names => by_contra fun mask => above ?_⟩
        exact List.any_eq_true.mpr ⟨other, isOther, holds_masked.mpr ⟨item, inside, names, mask⟩⟩
      · rintro ⟨-, held, -⟩
        exact held

end GrantPolicy

/-! ## The union's list -/

private theorem names_congr {a b column : Text} (same : Text.ciEquals a b = true) (mask mask' : Text) :
    NamesColumn column (a, mask) ↔ NamesColumn column (b, mask') := by
  have trimmed : Text.ciEquals (Text.trim a) (Text.trim b) = true := by
    rw [Text.ciEquals_iff, ← Text.trim_fold, ← Text.trim_fold, Text.ciEquals_iff.mp same]
  exact ⟨Text.ciEquals_trans (Text.ciEquals_symm trimmed), Text.ciEquals_trans trimmed⟩

/-- What merging leaves listed. -/
structure MergesListed (a b united : ColumnItems) : Prop where
  plain : hasFieldPaths a = false → hasFieldPaths b = false → hasFieldPaths united = false
  lists : ∀ column, HasColumn united column ↔ HasColumn a column ∨ HasColumn b column
  plainly : ∀ column, ListsPlainly united column ↔ ListsPlainly a column ∨ ListsPlainly b column

private theorem lists_cons {item : Text × Text} {items : ColumnItems} {column : Text} :
    HasColumn (item :: items) column ↔ NamesColumn column item ∨ HasColumn items column := List.exists_mem_cons_iff ..

private theorem listsPlainly_cons {item : Text × Text} {items : ColumnItems} {column : Text} :
    ListsPlainly (item :: items) column ↔ (NamesColumn column item ∧ item.2 = []) ∨ ListsPlainly items column :=
  List.exists_mem_cons_iff ..

private theorem lists_nil {column : Text} : ¬ HasColumn [] column := by
  rintro ⟨_, inside, -⟩
  cases inside

private theorem hasFieldPaths_cons {item : Text × Text} {items : ColumnItems} :
    hasFieldPaths (item :: items) = false ↔
      ColumnTrees.looksLikePath (Text.trim item.1) = false ∧ hasFieldPaths items = false := by
  rw [hasFieldPaths, List.any_cons, Bool.or_eq_false_iff, hasFieldPaths]

private theorem mergeColumn_listed {column : Text × Text} {columns united : ColumnItems}
    (ran : GrantUnion.mergeColumn column columns = .ok united) : MergesListed columns [column] united := by
  induction columns generalizing united with
  | nil =>
    cases ran
    refine ⟨fun _ plain => plain, fun name => (or_iff_right lists_nil).symm, fun name => ?_⟩
    exact (or_iff_right fun listed => lists_nil listed.lists).symm
  | cons existing rest ih =>
    rw [GrantUnion.mergeColumn] at ran
    have one (name : Text) : HasColumn [column] name ↔ NamesColumn name column := by
      rw [lists_cons]
      exact or_iff_left lists_nil
    have onePlain (name : Text) : ListsPlainly [column] name ↔ NamesColumn name column ∧ column.2 = [] := by
      rw [listsPlainly_cons]
      exact or_iff_left fun listed => lists_nil listed.lists
    split_ifs at ran with same plain differ
    · cases ran
      refine ⟨fun plainA _ => ?_, fun name => ?_, fun name => ?_⟩
      · rw [hasFieldPaths_cons] at plainA ⊢
        exact plainA
      · rw [lists_cons, lists_cons, one, ← names_congr same existing.2 _]
        have self : NamesColumn name (existing.1, []) ↔ NamesColumn name existing := Iff.rfl
        rw [self]
        tauto
      · rw [listsPlainly_cons, listsPlainly_cons, onePlain, ← names_congr same existing.2 _]
        have self : NamesColumn name (existing.1, []) ↔ NamesColumn name existing := Iff.rfl
        rw [self]
        tauto
    · cases ran
      rw [not_or] at plain
      rw [ne_eq, not_not] at differ
      refine ⟨fun plainA _ => plainA, fun name => ?_, fun name => ?_⟩
      · rw [lists_cons, one, ← names_congr same existing.2 _]
        tauto
      · rw [listsPlainly_cons, onePlain]
        tauto
    · obtain ⟨merged, inner, ran⟩ := Outcome.bind_eq_ok.mp ran
      cases ran
      have below := ih inner
      refine ⟨fun plainA plainB => ?_, fun name => ?_, fun name => ?_⟩
      · rw [hasFieldPaths_cons] at plainA ⊢
        exact ⟨plainA.1, below.plain plainA.2 plainB⟩
      · rw [lists_cons, below.lists, @lists_cons existing rest, or_assoc]
      · rw [listsPlainly_cons, below.plainly, @listsPlainly_cons existing rest, or_assoc]

private theorem mergeAll_listed {list columns united : ColumnItems}
    (ran : list.foldlM (fun columns column => GrantUnion.mergeColumn column columns) columns = .ok united) :
    MergesListed columns list united := by
  induction list generalizing columns with
  | nil =>
    cases ran
    exact ⟨fun plain _ => plain, fun name => (or_iff_left lists_nil).symm,
      fun name => (or_iff_left fun listed => lists_nil listed.lists).symm⟩
  | cons column list ih =>
    rw [List.foldlM_cons] at ran
    obtain ⟨next, merged, ran⟩ := Outcome.bind_eq_ok.mp ran
    have first := mergeColumn_listed merged
    have rest := ih ran
    refine ⟨fun plainA plainB => ?_, fun name => ?_, fun name => ?_⟩
    · rw [hasFieldPaths_cons] at plainB
      have alone : hasFieldPaths [column] = false := hasFieldPaths_cons.mpr ⟨plainB.1, rfl⟩
      exact rest.plain (first.plain plainA alone) plainB.2
    · rw [rest.lists, first.lists, lists_cons, @lists_cons column list, or_iff_left lists_nil, or_assoc]
    · have none : ¬ ListsPlainly [] name := fun listed => lists_nil listed.lists
      rw [rest.plainly, first.plainly, listsPlainly_cons, @listsPlainly_cons column list, or_iff_left none, or_assoc]

/-- What the fold leaves of roles whose lists hold no field path. -/
structure UnionListed (policies : List GrantPolicy) (union : GrantUnion) : Prop where
  plain : hasFieldPaths union.columns = false
  rls : union.unrestrictedRls = true ↔ ∃ policy ∈ policies, policy.predicate = []
  predicates : ∀ text, text ∈ union.predicates ↔ text ≠ [] ∧ ∃ policy ∈ policies, policy.predicate = text
  columns : union.unrestrictedColumns = true ↔ ∃ policy ∈ policies, policy.restricts = false
  lists : ∀ column, HasColumn union.columns column ↔ ∃ policy ∈ policies, policy.restricts = true ∧ HasColumn policy.columns column
  plainly : ∀ column, ListsPlainly union.columns column ↔
    ∃ policy ∈ policies, policy.restricts = true ∧ ListsPlainly policy.columns column

private theorem UnionListed.add {done : List GrantPolicy} {policy : GrantPolicy} {union next : GrantUnion}
    (fold : UnionListed done union) (plain : hasFieldPaths policy.columns = false) (ran : union.add policy = .ok next) :
    UnionListed (done ++ [policy]) next := by
  rw [GrantUnion.add_eq] at ran
  obtain ⟨columns, joined, ran⟩ : ∃ columns, (if policy.restricts then joinColumns union.columns policy.columns
      else .ok union.columns) = .ok columns ∧ _ := by
    cases joined : (if policy.restricts then joinColumns union.columns policy.columns else .ok union.columns) with
    | error message =>
      rw [joined] at ran
      cases ran
    | ok columns =>
      rw [joined] at ran
      exact ⟨columns, rfl, ran⟩
  cases ran
  have merges : hasFieldPaths columns = false ∧
      (∀ column, HasColumn columns column ↔ HasColumn union.columns column ∨ (policy.restricts = true ∧ HasColumn policy.columns column)) ∧
      ∀ column, ListsPlainly columns column ↔
        ListsPlainly union.columns column ∨ (policy.restricts = true ∧ ListsPlainly policy.columns column) := by
    cases restricts : policy.restricts with
    | false =>
      rw [restricts] at joined
      cases joined
      simp [fold.plain]
    | true =>
      have paths : (hasFieldPaths union.columns || hasFieldPaths policy.columns) = false := by rw [fold.plain, plain]; rfl
      rw [restricts, if_pos rfl, joinColumns, paths, if_neg Bool.false_ne_true] at joined
      have merged := mergeAll_listed joined
      exact ⟨merged.plain fold.plain plain, by simp [merged.lists], by simp [merged.plainly]⟩
  have empty (text : Text) : text.isEmpty = true ↔ text = [] := List.isEmpty_iff
  refine ⟨merges.1, ?_, fun text => ?_, ?_, fun column => ?_, fun column => ?_⟩
  · simp only [Bool.or_eq_true, fold.rls, empty, List.mem_append, List.mem_singleton, or_and_right, exists_or, exists_eq_left]
  · simp only [List.mem_append, fold.predicates, List.mem_filter, List.mem_singleton, or_and_right, exists_or, exists_eq_left,
      and_or_left, Bool.not_eq_true', List.isEmpty_eq_false_iff]
    refine or_congr_right ⟨?_, ?_⟩
    · rintro ⟨rfl, given⟩
      exact ⟨given, rfl⟩
    · rintro ⟨given, rfl⟩
      exact ⟨rfl, given⟩
  · simp only [Bool.or_eq_true, fold.columns, Bool.not_eq_true', List.mem_append, List.mem_singleton, or_and_right, exists_or,
      exists_eq_left]
  · simp only [merges.2.1, fold.lists, List.mem_append, List.mem_singleton, or_and_right, exists_or, exists_eq_left]
  · simp only [merges.2.2, fold.plainly, List.mem_append, List.mem_singleton, or_and_right, exists_or, exists_eq_left]

private theorem unionListed_nil : UnionListed [] {} where
  plain := rfl
  rls := by simp
  predicates := by simp
  columns := by simp
  lists column := by simp [HasColumn]
  plainly column := by simp [ListsPlainly]

theorem unionListed_of_addAll {policies : List GrantPolicy} {union : GrantUnion}
    (plain : ∀ policy ∈ policies, hasFieldPaths policy.columns = false) (ran : addAll policies = .ok union) :
    UnionListed policies union := by
  have steps : ∀ rest done start, done ++ rest = policies → UnionListed done start →
      rest.foldlM GrantUnion.add start = .ok union → UnionListed policies union := by
    intro rest
    induction rest with
    | nil =>
      intro done start split fold ran
      cases ran
      rw [List.append_nil] at split
      rwa [← split]
    | cons policy rest ih =>
      intro done start split fold ran
      rw [List.foldlM_cons] at ran
      obtain ⟨next, added, ran⟩ := Outcome.bind_eq_ok.mp ran
      have inside : policy ∈ policies := by
        rw [← split]
        simp
      exact ih (done ++ [policy]) next (by simpa using split) (fold.add (plain policy inside) added) ran
  exact steps policies [] {} rfl unionListed_nil ran

/-! ## The report -/

section

variable {roles : List (Text × GrantPolicy)} {known : List Text} {maxPairs : ℕ} {union : GrantUnion}

end

/-- Two roles, each with its own rows; one sees a column, the other all of them. -/
def twoFilters : List (Text × GrantPolicy) :=
  [("north".toList, { restricts := true, columns := [("name".toList, [])], predicates := ["region = 1".toList] }),
    ("south".toList, { predicates := ["region = 2".toList] })]

end DuckAcl
