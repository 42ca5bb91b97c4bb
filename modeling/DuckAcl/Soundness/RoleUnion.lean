import DuckAcl.Soundness.TreeUnion

/-! # Holding two roles

`UniteColumnItems` unites the trees of two lists column by column, writes the result as a list, and
a read parses that list again. The list reads what either role reads, exactly when the roles do
not clash: where one role shows a struct except for a masked field and the other shows only parts
of that field, the written list holds the struct and the parts, and reading it back lets the wider
item win.
-/

namespace DuckAcl

/-! ## United trees are well-formed -/

theorem Unites.formed {left right united : Option FieldNode} (unites : Unites left right united)
    (formedLeft : Formed left) (formedRight : Formed right) : Formed united := by
  induction size : heightSide left + heightSide right using Nat.strong_induction_on
    generalizing left right united with
  | _ size ih =>
    rcases unites.shape with ⟨rfl, rfl⟩ | ⟨rfl, rfl⟩ | ⟨a, b, rfl, rfl, ⟨_, _, rfl⟩ | ⟨_, _, rfl⟩ | ⟨_, _, rfl⟩ |
      ⟨plainA, plainB, display, ran⟩⟩
    · exact formedRight
    · exact formedLeft
    · exact formedLeft
    · exact formedRight
    · exact formedLeft
    · obtain ⟨merged, element, fields, elements, noElement, rfl⟩ := uniteNodes_both plainA plainB ran
      obtain ⟨wfA, namedA⟩ := formedLeft a rfl
      obtain ⟨wfB, namedB⟩ := formedRight b rfl
      apply formed_merge ⟨wfA, namedA⟩ ⟨wfB, namedB⟩
      · intro name member node kept
        exact (fields name member).named (childOrWhole_named a name) (childOrWhole_named b name) node
          (Option.filter_eq_some_iff.mp kept).1
      · intro name member node kept
        exact ih _ (size ▸ heightSide_children member) (fields name member)
          (formed_childOrWhole wfA namedA name) (formed_childOrWhole wfB namedB name) rfl node
          (Option.filter_eq_some_iff.mp kept).1
      · intro node kept
        have present := (Option.filter_eq_some_iff.mp kept).1
        by_cases given : a.element.isSome ∨ b.element.isSome
        · exact ih _ (size ▸ heightSide_elements given) (elements given) (formed_elementOrWhole wfA namedA)
            (formed_elementOrWhole wfB namedB) rfl node present
        · simp only [not_or, Option.not_isSome_iff_eq_none] at given
          rw [noElement given.1 given.2] at present
          cases present

/-! ## Uniting two lists -/

theorem Unites.of_left_none (side : Option FieldNode) : Unites none side side := ⟨[], by rw [uniteNodes]⟩

/-- The columns of a united list are its merged names, each united on its own. -/
theorem uniteColumnItems_ok {a b united : ColumnItems} (ran : uniteColumnItems a b = .ok united) :
    ∃ first second : ColumnTrees, ∃ build : Text → Option FieldNode,
      ColumnTrees.fromItems a = .ok first ∧ ColumnTrees.fromItems b = .ok second ∧
      (∀ name ∈ mergedNames first.root second.root,
        Unites (first.root.find name) (second.root.find name) (build name)) ∧
      united = ColumnTrees.items ⟨(mergedNames first.root second.root).filterMap build⟩ := by
  simp only [uniteColumnItems, bind, Except.bind, pure, Except.pure] at ran
  split at ran
  · cases ran
  · rename_i first readA
    split at ran
    · cases ran
    · rename_i second readB
      split at ran
      · cases ran
      · rename_i shared mapped
        cases ran
        let merged (column : FieldNode) : Option FieldNode :=
          (uniteNodes column.name (some column) (second.find column.name)).toOption.join
        obtain ⟨rfl, all⟩ := mapM_ok merged (fun column side done => by
          simp only [merged, done]
          rfl) mapped
        let build (name : Text) : Option FieldNode := (first.find name).elim (second.find name) merged
        obtain ⟨distinctA, _, _, _, _⟩ := (fromItems_sound readA).wf
        obtain ⟨distinctB, _, _, _, _⟩ := (fromItems_sound readB).wf
        have ofFirst : ∀ column ∈ first.columns, build column.name = merged column := by
          intro column member
          have found : first.find column.name = some column :=
            (find?_of_distinct distinctA).mpr ⟨member, Text.ciEquals_refl _⟩
          simp only [build, found, Option.elim_some]
        have ofSecond : ∀ column ∈ second.columns.filter fun column => (first.find column.name).isNone,
            build column.name = some column := by
          intro column member
          obtain ⟨inside, missing⟩ := List.mem_filter.mp member
          simp only [build, Option.isNone_iff_eq_none.mp missing, Option.elim_none]
          exact (find?_of_distinct distinctB).mpr ⟨inside, Text.ciEquals_refl _⟩
        refine ⟨first, second, build, readA, readB, ?_, ?_⟩
        · intro name member
          rcases List.mem_append.mp member with inside | inside
          · obtain ⟨column, isColumn, rfl⟩ := List.mem_map.mp inside
            have found : first.root.find column.name = some column :=
              (find?_of_distinct distinctA).mpr ⟨isColumn, Text.ciEquals_refl _⟩
            rw [found, ofFirst column isColumn]
            exact ⟨_, all column isColumn⟩
          · obtain ⟨column, isColumn, rfl⟩ := List.mem_map.mp inside
            obtain ⟨isSecond, missing⟩ := List.mem_filter.mp isColumn
            have found : second.root.find column.name = some column :=
              (find?_of_distinct distinctB).mpr ⟨isSecond, Text.ciEquals_refl _⟩
            rw [found, Option.isNone_iff_eq_none.mp missing, ofSecond column isColumn]
            exact .of_left_none _
        · congr 2
          rw [mergedNames, List.filterMap_append, List.filterMap_map, List.filterMap_map, List.filterMap_map]
          congr 1
          · exact List.filterMap_congr fun column member => (ofFirst column member).symm
          · exact (List.filterMap_some (l := _)).symm.trans
              (List.filterMap_congr fun column member => (ofSecond column member).symm)

/-- Two bare columns unite to a bare one. -/
private theorem Unites.childless {left right united : Option FieldNode} (unites : Unites left right united)
    (bareLeft : ∀ node ∈ left, node.fields = [] ∧ node.element = none)
    (bareRight : ∀ node ∈ right, node.fields = [] ∧ node.element = none) :
    ∀ node ∈ united, node.fields = [] ∧ node.element = none := by
  rcases unites.shape with ⟨rfl, rfl⟩ | ⟨rfl, rfl⟩ | ⟨a, b, rfl, rfl, ⟨_, _, rfl⟩ | ⟨_, _, rfl⟩ | ⟨_, _, rfl⟩ |
    ⟨plainA, plainB, display, ran⟩⟩
  · exact bareRight
  · exact bareLeft
  · exact bareLeft
  · exact bareRight
  · exact bareLeft
  · obtain ⟨_, _, _, _, noElement, rfl⟩ := uniteNodes_both plainA plainB ran
    obtain ⟨fieldsA, elementA⟩ := bareLeft a rfl
    obtain ⟨fieldsB, elementB⟩ := bareRight b rfl
    rintro node ⟨⟩
    simp [mergedNames, fieldsA, fieldsB, noElement elementA elementB]

/-- A union is whole or masked only where a side is. -/
private theorem Unites.marked {left right : Option FieldNode} {united : FieldNode}
    (unites : Unites left right (some united)) (marked : united.whole = true ∨ united.masked = true) :
    (∃ node ∈ left, node.whole = true ∨ node.masked = true) ∨ ∃ node ∈ right, node.whole = true ∨ node.masked = true := by
  rcases unites.shape with ⟨rfl, rfl⟩ | ⟨rfl, rfl⟩ | ⟨a, b, rfl, rfl, ⟨_, _, same⟩ | ⟨_, _, same⟩ | ⟨_, _, same⟩ |
    ⟨plainA, plainB, display, ran⟩⟩
  · exact .inr ⟨united, rfl, marked⟩
  · exact .inl ⟨united, rfl, marked⟩
  · exact .inl ⟨united, same.symm, marked⟩
  · exact .inr ⟨united, same.symm, marked⟩
  · exact .inl ⟨united, same.symm, marked⟩
  · obtain ⟨_, _, _, _, _, equal⟩ := uniteNodes_both plainA plainB ran
    obtain rfl := Option.some.inj equal
    simp only [Bool.or_eq_true, Bool.false_eq_true, or_false] at marked
    exact marked.imp (fun whole => ⟨a, rfl, .inl whole⟩) (fun whole => ⟨b, rfl, .inl whole⟩)

section

variable {first second : ColumnTrees} {build : Text → Option FieldNode}
  (soundA : first.Sound) (soundB : second.Sound)
  (sides : ∀ name ∈ mergedNames first.root second.root,
    Unites (first.root.find name) (second.root.find name) (build name))

include sides

private theorem build_named : ∀ name ∈ mergedNames first.root second.root, SideNamed (build name) name := by
  intro name member
  refine (sides name member).named ?_ ?_
  · rw [← childOrWhole_root]
    exact childOrWhole_named _ name
  · rw [← childOrWhole_root]
    exact childOrWhole_named _ name

include soundA soundB

/-- The united columns are a merged position of the two lists' roots. -/
theorem united_merged : Merged first.root second.root
    (ColumnTrees.root ⟨(mergedNames first.root second.root).filterMap build⟩) := by
  have fields : ∀ name ∈ mergedNames first.root second.root,
      Unites (childOrWhole first.root name) (childOrWhole second.root name) (build name) := by
    intro name member
    rw [childOrWhole_root, childOrWhole_root]
    exact sides name member
  refine merged_of_sides soundA.wf soundB.wf fields nofun (fun _ _ => rfl) rfl rfl ?_ rfl
  exact List.filterMap_congr fun name _ => (filter_keepMerged_false (build name)).symm

theorem united_sound : ColumnTrees.Sound ⟨(mergedNames first.root second.root).filterMap build⟩ := by
  have named := build_named sides
  have formed : ∀ name ∈ mergedNames first.root second.root, Formed (build name) := by
    intro name member
    exact (sides name member).formed (soundA.formed_find name) (soundB.formed_find name)
  refine ⟨.mk ?_ nofun nofun ?_ nofun, ?_, ?_⟩
  · exact pairwise_filterMap_named (mergedNames_distinct soundA.wf soundB.wf) named
  · intro column member
    obtain ⟨name, inside, built⟩ := List.mem_filterMap.mp member
    exact (formed name inside column built).1
  · intro column member
    obtain ⟨name, inside, built⟩ := List.mem_filterMap.mp member
    exact (formed name inside column built).2
  · intro column member nameless
    obtain ⟨name, inside, built⟩ := List.mem_filterMap.mp member
    have noName : name = [] := by
      have same := Text.ciEquals_iff.mp (named name inside column built)
      rw [nameless] at same
      exact Text.fold_eq_nil.mp same.symm
    subst noName
    exact (sides [] inside).childless soundA.childless_find soundB.childless_find column built

omit soundA soundB in
theorem united_trimmed (trimmedA : first.Trimmed) (trimmedB : second.Trimmed) :
    ColumnTrees.Trimmed ⟨(mergedNames first.root second.root).filterMap build⟩ := by
  intro column member marked
  obtain ⟨name, inside, built⟩ := List.mem_filterMap.mp member
  have here := Text.ciEquals_symm (build_named sides name inside column built)
  have unites := sides name inside
  rw [built] at unites
  rcases unites.marked marked with ⟨old, found, wasMarked⟩ | ⟨old, found, wasMarked⟩
  · have trimmed := trimmedA old (List.mem_of_find?_eq_some found) wasMarked
    exact Text.trim_eq_self_of_ciEquals (Text.ciEquals_trans (FieldNode.find_name found) here) trimmed
  · have trimmed := trimmedB old (List.mem_of_find?_eq_some found) wasMarked
    exact Text.trim_eq_self_of_ciEquals (Text.ciEquals_trans (FieldNode.find_name found) here) trimmed

end

/-- One list shows a position but masks a child of it that the other list shows only in part. -/
def Clash (a b : ColumnItems) : Prop :=
  ∃ path step, readable a path = true ∧ (maskOf a (path ++ [step])).isSome ∧
    reached b (path ++ [step]) = true ∧ readable b (path ++ [step]) = false

end DuckAcl
