import DuckAcl.Library.Spellings
import DuckAcl.Model.Spelling
import DuckAcl.Soundness.NameKeys

/-! # Names keep one spelling

What `Spell` answers is the name respelled: as deep as the stored names know it, as they spell it. So it can be stored,
and whatever statements store its answers, no two names of a catalog differ by case alone in a part that they share.
-/

namespace DuckAcl

open NamePath Spellings

/-! ## The loop -/

/-- The names, as lists of parts. -/
def paths (names : List Text) : Set (List Text) := {path | ∃ name ∈ names, fromKey name = some path}

section Loop

variable {stored : List (List Text)} {before left : List Text} {part spelled : Text}

theorem mem_spellings :
    spelled ∈ spellings stored before part ↔ ∃ name ∈ stored,
      (name.take (before.length + 1)).map Text.fold = (before ++ [part]).map Text.fold ∧ name[before.length]? = some spelled := by
  rw [spellings, (List.mergeSort_perm _ _).mem_iff, List.mem_dedup, List.mem_filterMap]
  simp only [List.mem_filter, decide_eq_true_iff, and_assoc]

theorem nodup_spellings : (spellings stored before part).Nodup :=
  (List.mergeSort_perm _ _).nodup_iff.mpr (List.nodup_dedup _)

/-- The spellings of a part are those of the known paths with it. -/
theorem mem_spellings_iff (one : OneSpelling Text.fold {name | name ∈ stored})
    (known : before = [] ∨ Known {name | name ∈ stored} before) :
    spelled ∈ spellings stored before part ↔
      Known {name | name ∈ stored} (before ++ [spelled]) ∧ Text.fold spelled = Text.fold part := by
  rw [mem_spellings]
  constructor
  · rintro ⟨name, member, same, here⟩
    have cut : name.take (before.length + 1) = name.take before.length ++ [spelled] := by
      rw [List.take_add_one, here]
      rfl
    rw [cut, List.map_append, List.map_append] at same
    obtain ⟨start, last⟩ := List.append_inj' same rfl
    have isStart : name.take before.length = before := by
      rcases known with rfl | known
      · rfl
      · exact one ⟨name, member, List.take_prefix _ _⟩ known start
    rw [isStart] at cut
    exact ⟨⟨name, member, cut ▸ List.take_prefix _ _⟩, List.singleton_injective last⟩
  · rintro ⟨⟨name, member, starts⟩, same⟩
    have cut := List.prefix_iff_eq_take.mp starts
    rw [List.length_append, List.length_singleton] at cut
    refine ⟨name, member, ?_, ?_⟩
    · rw [← cut, List.map_append, List.map_append, List.map_singleton, List.map_singleton, same]
    · obtain ⟨rest, rfl⟩ := starts
      simp

/-- The names spell a part of a known path in one way. -/
theorem spellings_unique (one : OneSpelling Text.fold {name | name ∈ stored})
    (known : before = [] ∨ Known {name | name ∈ stored} before) {other : Text} (first : spelled ∈ spellings stored before part)
    (second : other ∈ spellings stored before part) : spelled = other := by
  obtain ⟨known', same⟩ := (mem_spellings_iff one known).mp first
  obtain ⟨known'', same'⟩ := (mem_spellings_iff one known).mp second
  have paths := one known' known'' (by simp [same, same'])
  exact List.singleton_injective (List.append_cancel_left paths)

/-- The names know the path, with another last part. -/
def Otherwise (names : Set (List Text)) (path : List Text) : Prop :=
  ∃ other, Known names other ∧ other.map Text.fold = path.map Text.fold ∧ other.getLast? ≠ path.getLast?

/-- A known path that folds like the parts and more spells the next part. -/
private theorem spellings_of_known {names : Set (List Text)} (isNames : names = {name | name ∈ stored}) {other : List Text}
    (known : Known names other) (starts : other.map Text.fold <+: (before ++ part :: left).map Text.fold)
    (deep : before.length < other.length) : spellings stored before part ≠ [] := by
  subst isNames
  obtain ⟨name, member, inside⟩ := known
  have long : before.length < name.length := Nat.lt_of_lt_of_le deep inside.length_le
  refine List.ne_nil_of_mem (mem_spellings.mpr ⟨name, member, ?_, List.getElem?_eq_getElem long⟩)
  have cut : name.take (before.length + 1) = other.take (before.length + 1) := by
    obtain ⟨rest, rfl⟩ := inside
    rw [List.take_append_of_le_length deep]
  have start : (other.take (before.length + 1)).map Text.fold = ((before ++ part :: left).map Text.fold).take (before.length + 1) := by
    obtain ⟨rest, whole⟩ := starts
    rw [List.map_take, ← whole, List.take_append_of_le_length (by rw [List.length_map]; exact deep)]
  have whole : (before ++ part :: left).take (before.length + 1) = before ++ [part] := by
    rw [List.take_append, List.take_of_length_le (Nat.le_succ _), Nat.add_sub_cancel_left, List.take_one, List.head?_cons]
    rfl
  rw [cut, start, ← List.map_take, whole]

/-- A respelled path with its known start as written is respelled. -/
private theorem respelled_of_start {names : Set (List Text)} {path' : List Text} (known : Known names (before ++ [spelled]))
    (same : Text.fold spelled = Text.fold part) (respelled : Respelled Text.fold names (before ++ [spelled] ++ left) path') :
    Respelled Text.fold names (before ++ part :: left) path' := by
  have folds : (before ++ [spelled] ++ left).map Text.fold = (before ++ part :: left).map Text.fold := by simp [same]
  refine ⟨respelled.same.trans folds, ?_⟩
  obtain ⟨depth, inside, known', rest, most⟩ := respelled.spelled
  have deep : before.length + 1 ≤ depth := by
    have short := most _ known ((List.prefix_append _ _).map Text.fold)
    rwa [List.length_append] at short
  refine ⟨depth, by simpa using inside, known', ?_, fun other known'' starts => most other known'' (folds ▸ starts)⟩
  obtain ⟨more, rfl⟩ := Nat.exists_eq_add_of_le deep
  have behind (c : Text) : (before ++ c :: left).drop (before.length + 1 + more) = left.drop more := by
    rw [Nat.add_assoc, List.drop_append, List.drop_of_length_le (Nat.le_add_right _ _), Nat.add_sub_cancel_left, List.nil_append,
      Nat.add_comm 1 more, List.drop_succ_cons]
  rw [rest, List.append_assoc, List.singleton_append, behind, behind]

/-- The loop respells, or refuses: where it creates and the last part is known in another spelling. -/
theorem spellFrom_cases {names : Set (List Text)} (isNames : names = {name | name ∈ stored}) (one : OneSpelling Text.fold names)
    (known : before = [] ∨ Known names before) (creating : Bool) (what key : Text) :
    (∃ path', spellFrom stored creating what key before left = .ok path' ∧
        Respelled Text.fold names (before ++ left) path' ∧ (creating = true → left ≠ [] → ¬ Otherwise names (before ++ left))) ∨
      ((∃ refusal, spellFrom stored creating what key before left = .error refusal) ∧ creating = true ∧ left ≠ [] ∧
        Otherwise names (before ++ left)) := by
  induction left generalizing before with
  | nil =>
    refine .inl ⟨before, rfl, ⟨?_, ?_⟩, fun _ none => absurd rfl none⟩
    · rw [List.append_nil]
    · rw [List.append_nil]
      refine ⟨before.length, le_rfl, ?_, rfl, fun other _ starts => ?_⟩
      · rw [List.take_length]
        exact known.imp_left List.length_eq_zero_iff.mpr
      · have short := starts.length_le
        rwa [List.length_map, List.length_map] at short
  | cons part left ih =>
    have known' := known
    rw [isNames] at one known'
    rw [spellFrom]
    cases listed : spellings stored before part with
    | nil =>
      refine .inl ⟨_, rfl, ⟨rfl, before.length, ?_, ?_, rfl, fun other known'' starts => ?_⟩, fun _ _ otherwise => ?_⟩
      · rw [List.length_append]
        omega
      · rw [List.take_left]
        exact known.imp_left List.length_eq_zero_iff.mpr
      · by_contra deeper
        exact spellings_of_known isNames known'' starts (Nat.lt_of_not_le deeper) listed
      · obtain ⟨other, known'', same, -⟩ := otherwise
        have long := congrArg List.length same
        rw [List.length_map, List.length_map, List.length_append, List.length_cons] at long
        exact spellings_of_known isNames known'' ⟨[], by rw [List.append_nil, same]⟩ (by omega) listed
    | cons spelled more =>
      have among : spelled ∈ spellings stored before part := listed ▸ List.mem_cons_self
      obtain rfl : more = [] := by
        have nodup := @nodup_spellings stored before part
        rw [listed] at nodup
        refine List.eq_nil_iff_forall_not_mem.mpr fun other member => ?_
        have same := spellings_unique one known' among (listed ▸ List.mem_cons_of_mem _ member)
        exact (List.nodup_cons.mp nodup).1 (same ▸ member)
      obtain ⟨known'', same⟩ := (mem_spellings_iff one known').mp among
      rw [← isNames] at one known''
      dsimp only
      by_cases refused : creating = true ∧ left = [] ∧ spelled ≠ part
      · refine .inr ⟨⟨_, if_pos refused⟩, refused.1, List.cons_ne_nil _ _, before ++ [spelled], known'', ?_, ?_⟩
        · simp [same, refused.2.1]
        · simp [refused.2.1, refused.2.2]
      · rw [if_neg refused]
        have folds : (before ++ [spelled] ++ left).map Text.fold = (before ++ part :: left).map Text.fold := by simp [same]
        have lasts (given : left ≠ []) : (before ++ [spelled] ++ left).getLast? = (before ++ part :: left).getLast? := by
          obtain ⟨next, rest, rfl⟩ := List.exists_cons_of_ne_nil given
          simp
        rcases ih (.inr known'') with ⟨path', made, respelled, fresh⟩ | ⟨failed, creates, given, other, known₃, same', differs⟩
        · refine .inl ⟨path', made, respelled_of_start known'' same respelled, ?_⟩
          rintro creates - ⟨other, known₃, same', differs⟩
          by_cases given : left = []
          · subst given
            have written : spelled = part := by
              by_contra other
              exact refused ⟨creates, rfl, other⟩
            have is := one known₃ known'' (same'.trans (by rw [written]))
            rw [is, written] at differs
            exact differs rfl
          · exact fresh creates given ⟨other, known₃, same'.trans folds.symm, (lasts given).symm ▸ differs⟩
        · exact .inr ⟨failed, creates, List.cons_ne_nil _ _, other, known₃, same'.trans folds, lasts given ▸ differs⟩

end Loop

/-! ## What is answered -/

/-- Any two names that agree on some first parts up to case spell the last of those parts alike. -/
def SpelledAlike (names : List Text) : Prop :=
  ∀ first ∈ names, ∀ second ∈ names, ∀ one two, fromKey first = some one → fromKey second = some two →
    ∀ i, i < one.length → i < two.length → (one.take (i + 1)).map Text.fold = (two.take (i + 1)).map Text.fold → one[i]? = two[i]?

/-- The names are stored as the keys of their parts. -/
def StoredKeys (names : List Text) : Prop := ∀ name ∈ names, ∀ path, fromKey name = some path → name = toKey path

/-- The same name, part by part up to case. -/
def SameName (a b : Text) : Prop := (fromKey a).map (List.map Text.fold) = (fromKey b).map (List.map Text.fold)

/-- The key names an existing path whose last part is spelled in another way. -/
def NamesOtherwise (key : Text) (names : List Text) : Prop :=
  ∃ path, fromKey key = some path ∧ ∃ name ∈ names, ∃ stored, fromKey name = some stored ∧ path.length ≤ stored.length ∧
    (stored.take path.length).map Text.fold = path.map Text.fold ∧ stored[path.length - 1]? ≠ path.getLast?

theorem spelledAlike_iff {names : List Text} : SpelledAlike names ↔ OneSpelling Text.fold (paths names) := by
  constructor
  · intro consistent first known second known' same
    obtain ⟨one, ⟨name, member, read⟩, starts⟩ := known
    obtain ⟨two, ⟨name', member', read'⟩, starts'⟩ := known'
    have long : first.length = second.length := by
      have long := congrArg List.length same
      rwa [List.length_map, List.length_map] at long
    have isFirst := List.prefix_iff_eq_take.mp starts
    have isSecond := List.prefix_iff_eq_take.mp starts'
    rw [← long] at isSecond
    rw [isFirst, isSecond] at same
    have reach := starts.length_le
    have reach' := starts'.length_le
    -- the starts agree at every depth
    have each (depth : ℕ) (within : depth ≤ first.length) : one.take depth = two.take depth := by
      induction depth with
      | zero => rfl
      | succ depth ih =>
        have folds : (one.take (depth + 1)).map Text.fold = (two.take (depth + 1)).map Text.fold := by
          have cut := congrArg (List.take (depth + 1)) same
          rwa [← List.map_take, ← List.map_take, List.take_take, List.take_take, Nat.min_eq_left within] at cut
        have part := consistent name member name' member' one two read read' depth (by omega) (by omega) folds
        rw [List.take_add_one, List.take_add_one, ih (Nat.le_of_succ_le within), part]
    rw [isFirst, isSecond]
    exact each _ le_rfl
  · intro one first member second member' path path' read read' i _ _ same
    have starts := one ⟨path, ⟨first, member, read⟩, List.take_prefix _ _⟩ ⟨path', ⟨second, member', read'⟩, List.take_prefix _ _⟩ same
    have part := congrArg (·[i]?) starts
    simpa [List.getElem?_take] using part

theorem paths_eq (names : List Text) : paths names = {path | path ∈ names.filterMap fromKey} := by
  ext path
  exact List.mem_filterMap.symm

theorem respelled_isName {names : Set (List Text)} {path path' : List Text} (name : IsName path)
    (respelled : Respelled Text.fold names path path') : IsName path' := by
  constructor
  · rintro rfl
    exact name.1 (List.map_eq_nil_iff.mp respelled.same.symm)
  · intro part member empty
    have among : Text.fold part ∈ path.map Text.fold := respelled.same ▸ List.mem_map_of_mem member
    obtain ⟨raw, inside, same⟩ := List.mem_map.mp among
    rw [empty] at same
    exact name.2 raw inside (Text.fold_eq_nil.mp same)

/-- `Spell` answers the key of the respelled parts, or refuses. -/
theorem spell_cases {names : List Text} (one : OneSpelling Text.fold (paths names)) {key : Text} {path : List Text}
    (read : fromKey key = some path) (creating : Bool) (what : Text) :
    (∃ path', spell key names creating what = .ok (toKey path') ∧ Respelled Text.fold (paths names) path path' ∧
        (creating = true → ¬ Otherwise (paths names) path)) ∨
      ((∃ refusal, spell key names creating what = .error refusal) ∧ creating = true ∧ Otherwise (paths names) path) := by
  have given := (fromKey_isName read).1
  rcases @spellFrom_cases _ [] path _ (paths_eq names) one (.inl rfl) creating what key with
    ⟨path', made, respelled, fresh⟩ | ⟨⟨refusal, failed⟩, creates, -, otherwise⟩
  · refine .inl ⟨path', ?_, respelled, fun creates => fresh creates given⟩
    rw [spell, read]
    exact congrArg (Except.map toKey) made
  · refine .inr ⟨⟨refusal, ?_⟩, creates, otherwise⟩
    rw [spell, read]
    exact congrArg (Except.map toKey) failed

theorem namesOtherwise_iff {names : List Text} {key : Text} {path : List Text} (read : fromKey key = some path) :
    NamesOtherwise key names ↔ Otherwise (paths names) path := by
  have given := List.length_pos_of_ne_nil (fromKey_isName read).1
  have last {stored : List Text} (reach : path.length ≤ stored.length) :
      stored[path.length - 1]? = (stored.take path.length).getLast? := by
    rw [List.getLast?_eq_getElem?, List.length_take, Nat.min_eq_left reach, List.getElem?_take, if_pos (by omega)]
  constructor
  · rintro ⟨other, read', name, member, stored, isStored, reach, same, differs⟩
    obtain rfl := Option.some.inj (read.symm.trans read')
    exact ⟨stored.take path.length, ⟨stored, ⟨name, member, isStored⟩, List.take_prefix _ _⟩, same, last reach ▸ differs⟩
  · rintro ⟨other, ⟨stored, ⟨name, member, isStored⟩, starts⟩, same, differs⟩
    have long : other.length = path.length := by
      have long := congrArg List.length same
      rwa [List.length_map, List.length_map] at long
    have reach : path.length ≤ stored.length := long ▸ starts.length_le
    have is : other = stored.take path.length := long ▸ List.prefix_iff_eq_take.mp starts
    rw [is] at same differs
    exact ⟨path, read, name, member, stored, isStored, reach, same, (last reach).symm ▸ differs⟩

/-- A text that is no key is answered as it is, and is no name among the stored ones. -/
theorem spell_unread {names : List Text} {key what : Text} (unread : fromKey key = none) (consistent : SpelledAlike names) :
    (∃ answer, spell key names false what = .ok answer ∧ SameName answer key ∧ spell answer names false what = .ok answer ∧
        ∀ name ∈ names, ∀ path, fromKey name = some path → SameName name key → answer = name) ∧
      (∀ answer, spell key names true what = .ok answer → SpelledAlike (answer :: names)) ∧
      ((∃ refusal, spell key names true what = .error refusal) ↔ NamesOtherwise key names) := by
  have answered (creating : Bool) : spell key names creating what = .ok key := by rw [spell, unread]
  refine ⟨⟨key, answered false, rfl, answered false, fun name member path read same => ?_⟩, fun answer made => ?_, ?_⟩
  · rw [SameName, read, unread] at same
    cases same
  · obtain rfl := Except.ok.inj ((answered true).symm.trans made)
    intro first member second member' one two read read'
    rcases List.mem_cons.mp member with rfl | member
    · cases unread.symm.trans read
    rcases List.mem_cons.mp member' with rfl | member'
    · cases unread.symm.trans read'
    exact consistent first member second member' one two read read'
  · refine iff_of_false ?_ ?_
    · rintro ⟨refusal, failed⟩
      cases (answered true).symm.trans failed
    · rintro ⟨path, read, -⟩
      cases unread.symm.trans read

/-- A name added to a store, respelled. -/
theorem oneSpelling_cons {names : List Text} (one : OneSpelling Text.fold (paths names)) {path path' : List Text} (name : IsName path)
    (respelled : Respelled Text.fold (paths names) path path') : OneSpelling Text.fold (paths (toKey path' :: names)) := by
  refine oneSpelling_mono ?_ (respelled.insert one)
  rintro other ⟨key, member, read⟩
  rcases List.mem_cons.mp member with rfl | member
  · rw [fromKey_toKey (respelled_isName name respelled)] at read
    exact .inl (Option.some.inj read).symm
  · exact .inr ⟨key, member, read⟩

/-! ## The names under a first part -/

theorem quotePart_ciEquals {first second : Text} (same : Text.fold first = Text.fold second) :
    Text.fold (quotePart first) = Text.fold (quotePart second) := by
  rw [← quotePart_fold, ← quotePart_fold, same]

/-- `NamesUnder` has every name with the first part. -/
theorem mem_namesUnder {names : List Text} {name : Text} {path : List Text} (member : name ∈ names) (is : name = toKey path)
    (isName : IsName path) {first : Text} (same : (path.head?).map Text.fold = some (Text.fold first)) :
    name ∈ namesUnder names (quotePart first) := by
  refine List.mem_filter.mpr ⟨member, ?_⟩
  obtain ⟨head, rest, rfl⟩ := List.exists_cons_of_ne_nil isName.1
  have quoted := quotePart_ciEquals (Option.some.inj same)
  rw [Bool.or_eq_true, Text.ciEquals_iff, is]
  cases rest with
  | nil => exact .inl ((congrArg Text.fold (toKey_one head)).trans quoted)
  | cons second rest =>
    have long : (quotePart first).length = (quotePart head).length := by
      rw [← Text.length_fold, ← quoted, Text.length_fold]
    have key : toKey (head :: second :: rest) = quotePart head ++ '.' :: toKey (second :: rest) := by
      rw [← List.singleton_append, toKey_append (List.cons_ne_nil _ _) (List.cons_ne_nil _ _), toKey_one]
    have cut : (toKey (head :: second :: rest)).take ((quotePart first).length + 1) = quotePart head ++ ['.'] := by
      rw [key, long, List.take_length_add_append]
      rfl
    refine .inr ?_
    rw [Text.isUnder, Text.ciEquals_iff, cut, Text.fold, Text.fold, List.map_append, List.map_append]
    exact congrArg (· ++ ['.'].map Char.toLower) quoted

/-- Respelling by some of the names is respelling by all, when they are all the names with the path's first part. -/
theorem respelled_of_under {fewer names : Set (List Text)} (within : fewer ⊆ names) {path path' : List Text}
    (all : ∀ name ∈ names, (name.head?).map Text.fold = (path.head?).map Text.fold → name ∈ fewer)
    (respelled : Respelled Text.fold fewer path path') : Respelled Text.fold names path path' := by
  refine ⟨respelled.same, ?_⟩
  obtain ⟨depth, inside, known, rest, most⟩ := respelled.spelled
  refine ⟨depth, inside, known.imp_right fun known => known.imp fun _ found => ⟨within found.1, found.2⟩, rest,
    fun other known starts => ?_⟩
  obtain ⟨name, member, inside'⟩ := known
  cases other with
  | nil => exact Nat.zero_le _
  | cons part other =>
    refine most _ ⟨name, all name member ?_, inside'⟩ starts
    obtain ⟨more, rfl⟩ := inside'
    obtain ⟨more', whole⟩ := starts
    cases path with
    | nil => cases whole
    | cons first path => exact congrArg some (List.cons.inj whole).1

/-- The names of a catalog, in one spelling. -/
def Kept (names : List Text) : Prop := StoredKeys names ∧ OneSpelling Text.fold (paths names)

theorem Kept.mono {names fewer : List Text} (kept : Kept names) (within : ∀ name ∈ fewer, name ∈ names) : Kept fewer :=
  ⟨fun name member => kept.1 name (within name member),
    oneSpelling_mono (fun _ found => found.imp fun name held => ⟨within name held.1, held.2⟩) kept.2⟩

theorem Kept.cons {names : List Text} (kept : Kept names) {path path' : List Text} (isName : IsName path)
    (respelled : Respelled Text.fold (paths names) path path') : Kept (toKey path' :: names) := by
  refine ⟨fun name member other read => ?_, oneSpelling_cons kept.2 isName respelled⟩
  rcases List.mem_cons.mp member with rfl | member
  · rw [fromKey_toKey (respelled_isName isName respelled)] at read
    rw [Option.some.inj read]
  · exact kept.1 name member other read

/-- What `StoredName` answers can be stored. -/
theorem storedName_kept {names : List Text} (kept : Kept names) {path : List Text} (isName : IsName path) {creating : Bool}
    {answer : Text} (answered : storedName names (toKey path) creating = .ok answer) :
    ∃ path', IsName path' ∧ answer = toKey path' ∧ Kept (answer :: names) := by
  rw [storedName, if_neg (toKey_ne_nil isName), fromKey_toKey isName] at answered
  have under : Kept (namesUnder names (quotePart (path.headD []))) := kept.mono fun name member => (List.mem_filter.mp member).1
  rcases spell_cases under.2 (fromKey_toKey isName) creating "name".toList with ⟨path', made, respelled, -⟩ | ⟨⟨refusal, failed⟩, -⟩
  · obtain rfl := Except.ok.inj (made.symm.trans answered)
    have whole : Respelled Text.fold (paths names) path path' := by
      refine respelled_of_under (fun other found => ?_) (fun other found same => ?_) respelled
      · exact found.imp fun name held => ⟨(List.mem_filter.mp held.1).1, held.2⟩
      · obtain ⟨name, member, read⟩ := found
        refine ⟨name, mem_namesUnder member (kept.1 name member other read) (fromKey_isName read) ?_, read⟩
        obtain ⟨first, rest, rfl⟩ := List.exists_cons_of_ne_nil isName.1
        exact same
    exact ⟨path', respelled_isName isName respelled, rfl, kept.cons isName whole⟩
  · cases failed.symm.trans answered

/-! ## Recorded objects -/

/-- What an expansion reads of the names: those with the schema's first part, and no others than there are. -/
structure Reads (names stored : List Text) (parts : List Text) : Prop where
  within : ∀ name ∈ stored, name ∈ names
  all : ∀ name ∈ names, ∀ other, fromKey name = some other → (other.head?).map Text.fold = (parts.head?).map Text.fold → name ∈ stored

theorem reads_namesUnder {names : List Text} (kept : Kept names) {parts : List Text} (isName : IsName parts) :
    Reads names (namesUnder names (quotePart (parts.headD []))) parts := by
  refine ⟨fun name member => (List.mem_filter.mp member).1, fun name member other read same => ?_⟩
  refine mem_namesUnder member (kept.1 name member other read) (fromKey_isName read) ?_
  obtain ⟨first, rest, rfl⟩ := List.exists_cons_of_ne_nil isName.1
  exact same

/-- An object of a stored schema that is no sibling of a stored name can be stored as it is called. -/
theorem child_kept {names stored : List Text} (kept : Kept names) {parts : List Text} (isName : IsName parts)
    (schema : toKey parts ∈ names) (reads : Reads names stored parts) {name : Text}
    (alone : caseSibling (childKey (toKey parts) name) stored = false) : Kept (childKey (toKey parts) name :: names) := by
  by_cases empty : name = []
  · -- no key, so no name
    have none : fromKey (childKey (toKey parts) name) = none := by
      rw [empty, childKey, if_neg (toKey_ne_nil isName)]
      exact fromKey_trailing isName
    constructor
    · intro other member path read
      rcases List.mem_cons.mp member with rfl | member
      · cases none.symm.trans read
      · exact kept.1 other member path read
    · refine oneSpelling_mono (fun path found => ?_) kept.2
      obtain ⟨other, member, read⟩ := found
      rcases List.mem_cons.mp member with rfl | member
      · cases none.symm.trans read
      · exact ⟨other, member, read⟩
  · have isChild : IsName (parts ++ [name]) := by
      refine ⟨by simp, fun part member => ?_⟩
      rcases List.mem_append.mp member with member | member
      · exact isName.2 part member
      · rwa [List.mem_singleton.mp member]
    have key : childKey (toKey parts) name = toKey (parts ++ [name]) := by
      rw [childKey, if_neg (toKey_ne_nil isName), toKey_append isName.1 (List.cons_ne_nil _ _), toKey_one]
    have under : Kept stored := kept.mono reads.within
    have known : Known (paths stored) parts := by
      have read := fromKey_toKey isName
      exact ⟨parts, ⟨_, reads.all _ schema parts read rfl, read⟩, List.prefix_rfl⟩
    rw [key] at alone ⊢
    rcases spell_cases under.2 (fromKey_toKey isChild) true "name".toList with ⟨path', made, respelled, fresh⟩ | ⟨⟨refusal, failed⟩, -⟩
    · -- it is called as it would be spelled
      have is : path' = parts ++ [name] := by
        obtain ⟨depth, inside, known', rest, most⟩ := respelled.spelled
        have deep := most parts known (by
          rw [List.map_append]
          exact List.prefix_append _ _)
        have known' : Known (paths stored) (path'.take depth) := known'.resolve_left fun zero =>
          isName.1 (List.length_eq_zero_iff.mp (Nat.le_zero.mp (zero ▸ deep)))
        rw [List.length_append, List.length_singleton] at inside
        rcases Nat.eq_or_lt_of_le deep with here | deeper
        · have start : path'.take depth = parts := under.2 known' known (by
            rw [List.map_take, respelled.same, ← List.map_take, ← here, List.take_left])
          rw [← List.take_append_drop depth path', start, rest, ← here, List.drop_left]
        · have whole : path'.take depth = path' := List.take_of_length_le (by
            rw [respelled.length_eq, List.length_append, List.length_singleton]
            omega)
          rw [whole] at known'
          have last : path'.getLast? = (parts ++ [name]).getLast? := by
            by_contra differs
            exact fresh rfl ⟨path', known', respelled.same, differs⟩
          have start : path'.take parts.length = parts := under.2 (known'.take _) known (by
            rw [List.map_take, respelled.same, ← List.map_take, List.take_left])
          have long := respelled.length_eq
          rw [List.length_append, List.length_singleton] at long
          obtain ⟨final, tail⟩ : ∃ final, path'.drop parts.length = [final] :=
            List.length_eq_one_iff.mp (by rw [List.length_drop, long]; omega)
          rw [← List.take_append_drop parts.length path', start, tail] at last ⊢
          simp only [List.getLast?_append, List.getLast?_singleton, Option.some_or, Option.some.injEq] at last
          rw [last]
      rw [is] at respelled
      refine kept.cons isChild (respelled_of_under (fun other found => ?_) (fun other found same => ?_) respelled)
      · exact found.imp fun name held => ⟨reads.within _ held.1, held.2⟩
      · obtain ⟨other', member, read⟩ := found
        refine ⟨other', reads.all _ member other read ?_, read⟩
        obtain ⟨first, rest, rfl⟩ := List.exists_cons_of_ne_nil isName.1
        exact same
    · rw [caseSibling, failed] at alone
      cases alone

namespace CatalogNames

/-- The names besides the relations'. -/
private def otherNames (catalog : CatalogNames) : List Text :=
  catalog.functions ++ catalog.schemas.map Prod.fst ++ catalog.objectCaps ++ catalog.schemaCaps

private theorem names_eq (catalog : CatalogNames) : catalog.names = catalog.relations.map Prod.fst ++ catalog.otherNames := by
  simp [names, otherNames]

private theorem mem_putRelation {relations : List (Text × Option Text)} {vname : Text} {origin : Option Text} {name : Text} :
    name ∈ (putRelation relations vname origin).map Prod.fst ↔ name = vname ∨ name ∈ relations.map Prod.fst := by
  rw [putRelation, List.map_append, List.mem_append, List.map_singleton, List.mem_singleton]
  constructor
  · rintro (member | rfl)
    · obtain ⟨relation, held, rfl⟩ := List.mem_map.mp member
      exact .inr (List.mem_map_of_mem (List.mem_filter.mp held).1)
    · exact .inl rfl
  · rintro (rfl | member)
    · exact .inr rfl
    · by_cases same : name = vname
      · exact .inr same
      · obtain ⟨relation, held, rfl⟩ := List.mem_map.mp member
        exact .inl (List.mem_map_of_mem (List.mem_filter.mpr ⟨held, decide_eq_true same⟩))

private theorem mem_of_filtered {relations : List (Text × Option Text)} {test : Text × Option Text → Bool} {name : Text}
    (member : name ∈ (relations.filter test).map Prod.fst) : name ∈ relations.map Prod.fst := by
  obtain ⟨relation, held, rfl⟩ := List.mem_map.mp member
  exact List.mem_map_of_mem (List.mem_filter.mp held).1

/-- Recorded objects keep one spelling. -/
private theorem recordObjects_kept {parts : List Text} (isName : IsName parts) {origin : Text} {known : Text → Bool}
    {others : List Text} (schema : toKey parts ∈ others) {objects stored : List Text} {relations : List (Text × Option Text)}
    (kept : Kept (relations.map Prod.fst ++ others)) (reads : Reads (relations.map Prod.fst ++ others) stored parts) :
    Kept ((recordObjects (toKey parts) origin known objects stored relations).map Prod.fst ++ others) := by
  induction objects generalizing stored relations with
  | nil => exact kept
  | cons name objects ih =>
    rw [recordObjects]
    split_ifs with skipped
    · exact ih kept reads
    · rw [not_or] at skipped
      have added := child_kept kept isName (List.mem_append_right _ schema) reads (Bool.not_eq_true _ ▸ skipped.1)
      have same {other : Text} : other ∈ (putRelation relations (childKey (toKey parts) name) (some origin)).map Prod.fst ++ others ↔
          other = childKey (toKey parts) name ∨ other ∈ relations.map Prod.fst ++ others := by
        rw [List.mem_append, mem_putRelation, List.mem_append, or_assoc]
      refine ih (added.mono fun other member => List.mem_cons.mpr (same.mp member)) ⟨fun other member => ?_, fun other member path read folds => ?_⟩
      · rcases List.mem_append.mp member with member | member
        · exact same.mpr (.inr (reads.within other member))
        · exact same.mpr (.inl (List.mem_singleton.mp member))
      · rcases same.mp member with is | member
        · exact List.mem_append_right _ (List.mem_singleton.mpr is)
        · exact List.mem_append_left _ (reads.all other member path read folds)

private theorem mem_addSchemaAlias {catalog : CatalogNames} {path : Text} {origin : Option Text} {name : Text}
    (member : name ∈ (catalog.addSchemaAlias path origin).names) : name = path ∨ name ∈ catalog.names := by
  simp only [names, addSchemaAlias, List.map_append, List.mem_append, List.map_singleton, List.mem_singleton] at member ⊢
  have kept := @mem_of_filtered catalog.schemas (fun schema => decide (schema.1 ≠ path)) name
  tauto

private theorem reads_names {catalog : CatalogNames} (kept : Kept catalog.names) {parts : List Text} (isName : IsName parts) :
    Reads (catalog.relations.map Prod.fst ++ catalog.otherNames) (namesUnder catalog.names (quotePart (parts.headD []))) parts := by
  rw [← names_eq]
  exact reads_namesUnder kept isName

private theorem expandSchema_kept {catalog next : CatalogNames} {parts : List Text} (isName : IsName parts)
    (kept : Kept (toKey parts :: catalog.names)) {phys : Text} {objects : List Text}
    (done : catalog.expandSchema (toKey parts) phys objects = .ok next) : Kept next.names := by
  have added : Kept (catalog.addSchemaAlias (toKey parts) (some phys)).names :=
    kept.mono fun name member => List.mem_cons.mpr (mem_addSchemaAlias member)
  have schema : toKey parts ∈ (catalog.addSchemaAlias (toKey parts) (some phys)).otherNames := by
    simp [otherNames, addSchemaAlias]
  have reads := reads_names added isName
  rw [names_eq] at added
  rw [expandSchema, fromKey_toKey isName] at done
  obtain rfl := Except.ok.inj done
  rw [names_eq]
  exact recordObjects_kept isName schema added reads

private theorem refreshSchemaObjects_kept {catalog next : CatalogNames} {parts : List Text} (isName : IsName parts)
    (kept : Kept catalog.names) {prune : Bool} {objects : List Text}
    (done : catalog.refreshSchemaObjects (toKey parts) prune objects = .ok next) : Kept next.names := by
  rw [refreshSchemaObjects] at done
  cases found : catalog.schemas.find? fun schema => decide (schema.1 = toKey parts) with
  | none => rw [found] at done; cases done
  | some given =>
    have isPath : given.1 = toKey parts := by simpa using List.find?_some found
    have schema : toKey parts ∈ catalog.otherNames := by
      have held : given.1 ∈ catalog.schemas.map Prod.fst := List.mem_map_of_mem (List.mem_of_find?_eq_some found)
      rw [isPath] at held
      rw [otherNames]
      exact List.mem_append_left _ (List.mem_append_left _ (List.mem_append_right _ held))
    have reads := reads_names kept isName
    rw [names_eq] at kept
    obtain ⟨path, source⟩ := given
    rw [found] at done
    cases source with
    | none => cases done
    | some origin =>
      dsimp only at done
      rw [fromKey_toKey isName] at done
      have recorded := @recordObjects_kept parts isName origin (fun name =>
        (catalog.relations.map Prod.fst).contains (childKey (toKey parts) name) || catalog.dropped.contains (toKey parts, name))
        _ schema objects _ _ kept reads
      dsimp only at done
      split_ifs at done with pruned
      · obtain rfl := Except.ok.inj done
        refine recorded.mono fun name member => ?_
        simp only [names_eq, otherNames, List.mem_append] at member ⊢
        exact Or.imp mem_of_filtered (Or.imp_left (Or.imp_right fun held => (List.mem_filter.mp held).1)) member
      · obtain rfl := Except.ok.inj done
        rw [names_eq]
        exact recorded

/-- A statement that is carried out keeps one spelling. -/
theorem execute_kept {catalog next : CatalogNames} {name : Text} {statement : NameStatement} (kept : Kept catalog.names)
    (done : catalog.execute name statement = .ok next) : Kept next.names := by
  rw [execute] at done
  cases read : fromKey name with
  | none => rw [read] at done; cases done
  | some parts =>
    have isName := fromKey_isName read
    rw [read] at done
    have stored {creating : Bool} {answer : Text} := @storedName_kept _ kept _ isName creating answer
    cases statement with
    | addRelation creating =>
      obtain ⟨answer, answered, made⟩ := Outcome.bind_eq_ok.mp done
      obtain ⟨path', -, -, kept'⟩ := stored answered
      obtain rfl := Except.ok.inj made
      refine kept'.mono fun name member => ?_
      rw [names_eq, List.mem_append, mem_putRelation, or_assoc] at member
      rw [List.mem_cons, names_eq, List.mem_append]
      exact member
    | addFunction creating =>
      obtain ⟨answer, answered, made⟩ := Outcome.bind_eq_ok.mp done
      obtain ⟨path', -, -, kept'⟩ := stored answered
      obtain rfl := Except.ok.inj made
      refine kept'.mono fun name member => ?_
      simp only [names, List.mem_append, List.mem_cons, List.not_mem_nil, or_false] at member ⊢
      tauto
    | addSchemaAlias creating =>
      obtain ⟨answer, answered, made⟩ := Outcome.bind_eq_ok.mp done
      obtain ⟨path', -, -, kept'⟩ := stored answered
      obtain rfl := Except.ok.inj made
      exact kept'.mono fun name member => List.mem_cons.mpr (mem_addSchemaAlias member)
    | grantObject =>
      obtain ⟨answer, answered, made⟩ := Outcome.bind_eq_ok.mp done
      obtain ⟨path', -, -, kept'⟩ := stored answered
      obtain rfl := Except.ok.inj made
      refine kept'.mono fun name member => ?_
      simp only [names, List.mem_append, List.mem_cons, List.not_mem_nil, or_false] at member ⊢
      tauto
    | grantSchema =>
      obtain ⟨answer, answered, made⟩ := Outcome.bind_eq_ok.mp done
      obtain ⟨path', -, -, kept'⟩ := stored answered
      obtain rfl := Except.ok.inj made
      refine kept'.mono fun name member => ?_
      simp only [names, List.mem_append, List.mem_cons, List.not_mem_nil, or_false] at member ⊢
      tauto
    | expandSchema creating phys objects =>
      obtain ⟨answer, answered, made⟩ := Outcome.bind_eq_ok.mp done
      obtain ⟨path', isName', rfl, kept'⟩ := stored answered
      exact expandSchema_kept isName' kept' made
    | refreshSchemaObjects prune objects =>
      obtain ⟨answer, answered, made⟩ := Outcome.bind_eq_ok.mp done
      obtain ⟨path', isName', rfl, -⟩ := stored answered
      exact refreshSchemaObjects_kept isName' kept made

/-- However a catalog's names came to be stored, they keep one spelling. -/
theorem run_kept {catalog : CatalogNames} (kept : Kept catalog.names) (statements : List (Text × NameStatement)) :
    Kept (catalog.run statements).names := by
  induction statements generalizing catalog with
  | nil => exact kept
  | cons statement statements ih =>
    refine @ih (((catalog.execute statement.1 statement.2).toOption).getD catalog) ?_
    cases done : catalog.execute statement.1 statement.2 with
    | error refusal => exact kept
    | ok next => exact execute_kept kept done

end CatalogNames

/-- `Spell` answers every key in the names' spelling and keeps it; what it answers a creation can be stored, and it refuses one
exactly where the last part is spelled otherwise. Whatever statements store its answers, a catalog's names keep one spelling. -/
theorem one_spelling :
    (∀ (names : List Text) (key what : Text), StoredKeys names → SpelledAlike names →
      (∃ answer, spell key names false what = .ok answer ∧ SameName answer key ∧ spell answer names false what = .ok answer ∧
        ∀ name ∈ names, ∀ path, fromKey name = some path → SameName name key → answer = name) ∧
      (∀ answer, spell key names true what = .ok answer → SpelledAlike (answer :: names)) ∧
      ((∃ refusal, spell key names true what = .error refusal) ↔ NamesOtherwise key names)) ∧
    ∀ (catalog : CatalogNames) (statements : List (Text × NameStatement)), StoredKeys catalog.names → SpelledAlike catalog.names →
      SpelledAlike (catalog.run statements).names := by
  refine ⟨fun names key what stored consistent => ?_, fun catalog statements stored consistent =>
    spelledAlike_iff.mpr (CatalogNames.run_kept ⟨stored, spelledAlike_iff.mp consistent⟩ statements).2⟩
  have one := spelledAlike_iff.mp consistent
  cases read : fromKey key with
  | none => exact spell_unread read consistent
  | some path =>
    have isName := fromKey_isName read
    refine ⟨?_, fun answer answered => ?_, ?_⟩
    · rcases spell_cases one read false what with ⟨path', made, respelled, -⟩ | ⟨-, creates, -⟩
      · have read' := fromKey_toKey (respelled_isName isName respelled)
        refine ⟨_, made, ?_, ?_, fun name member other isOther same => ?_⟩
        · rw [SameName, read', read, Option.map_some, Option.map_some, respelled.same]
        · rcases spell_cases one read' false what with ⟨again, made', respelled', -⟩ | ⟨-, creates, -⟩
          · rw [made', respelled'.unique one respelled.again]
          · cases creates
        · rw [SameName, isOther, read, Option.map_some, Option.map_some] at same
          rw [stored name member other isOther, respelled.eq_known one ⟨other, ⟨name, member, isOther⟩, List.prefix_rfl⟩
            (Option.some.inj same)]
      · cases creates
    · rcases spell_cases one read true what with ⟨path', made, respelled, -⟩ | ⟨⟨refusal, failed⟩, -⟩
      · obtain rfl := Except.ok.inj (made.symm.trans answered)
        exact spelledAlike_iff.mpr (oneSpelling_cons one isName respelled)
      · cases failed.symm.trans answered
    · rw [namesOtherwise_iff read]
      rcases spell_cases one read true what with ⟨path', made, -, fresh⟩ | ⟨failed, -, otherwise⟩
      · refine iff_of_false ?_ (fresh rfl)
        rintro ⟨refusal, failed⟩
        cases made.symm.trans failed
      · exact iff_of_true failed otherwise

/-- A name that differs by case from a stored one, and a schema whose source has two spellings of a table. -/
theorem one_spelling_raw :
    ((∃ refusal, spell "Raw".toList ["raw".toList] true "name".toList = .error refusal) ↔ NamesOtherwise "Raw".toList ["raw".toList]) ∧
      SpelledAlike ((CatalogNames.run {} [("Raw".toList, .expandSchema true "lake.raw".toList ["T".toList, "t".toList])]).names) := by
  have single : SpelledAlike ["raw".toList] := by
    intro first member second member' path path' read read'
    rw [List.mem_singleton.mp member] at read
    rw [List.mem_singleton.mp member'] at read'
    rw [Option.some.inj (read.symm.trans read')]
    exact fun _ _ _ _ => rfl
  have stored : StoredKeys ["raw".toList] := by
    intro name member path read
    rw [List.mem_singleton.mp member] at read ⊢
    obtain rfl := Option.some.inj read
    rfl
  exact ⟨(one_spelling.1 _ _ _ stored single).2.2, one_spelling.2 {} _ (fun _ none => (List.not_mem_nil none).elim)
    fun _ none => (List.not_mem_nil none).elim⟩

end DuckAcl
