import DuckAcl.Library.Outcome

/-! # Lists edited and searched

An edit of a list replaces one element, drops some or adds some at the end. What a search finds is found again
where the edit spares it. A step that may refuse, taken on each element, keeps what is found too.
-/

namespace DuckAcl

/-- The first element that passes the test, replaced. -/
def replaceFirst {α : Type} (test : α → Bool) (new : α) : List α → List α
  | [] => []
  | item :: rest => if test item then new :: rest else item :: replaceFirst test new rest

/-- The last element that passes the test, replaced. -/
def replaceLast {α : Type} (test : α → Bool) (new : α) : List α → List α
  | [] => []
  | item :: rest =>
    if rest.any test then item :: replaceLast test new rest else if test item then new :: rest else item :: rest

/-- One element in the place of another. -/
def Replaced {α : Type} (old new : α) (before after : List α) : Prop :=
  ∃ first last, before = first ++ old :: last ∧ after = first ++ new :: last

theorem replaced_replaceFirst {α : Type} {test : α → Bool} {old : α} (new : α) {items : List α}
    (found : items.find? test = some old) : Replaced old new items (replaceFirst test new items) := by
  induction items with
  | nil => cases found
  | cons item rest ih =>
    by_cases passes : test item = true
    · rw [List.find?_cons_of_pos passes] at found
      obtain rfl := Option.some.inj found
      exact ⟨[], rest, rfl, by rw [replaceFirst, if_pos passes, List.nil_append]⟩
    · rw [List.find?_cons_of_neg passes] at found
      obtain ⟨first, last, is, made⟩ := ih found
      exact ⟨item :: first, last, by rw [is, List.cons_append], by rw [replaceFirst, if_neg passes, made, List.cons_append]⟩

theorem replaced_replaceLast {α : Type} {test : α → Bool} {old : α} (new : α) {items : List α}
    (found : (items.filter test).getLast? = some old) : Replaced old new items (replaceLast test new items) := by
  induction items with
  | nil => cases found
  | cons item rest ih =>
    by_cases later : rest.any test = true
    · have some' : rest.filter test ≠ [] := by
        obtain ⟨other, member, passes⟩ := List.any_eq_true.mp later
        exact List.ne_nil_of_mem (List.mem_filter.mpr ⟨member, passes⟩)
      have below : (rest.filter test).getLast? = some old := by
        by_cases passes : test item = true
        · rw [List.filter_cons_of_pos passes, List.getLast?_cons_of_ne_nil some'] at found
          exact found
        · rwa [List.filter_cons_of_neg passes] at found
      obtain ⟨first, last, is, made⟩ := ih below
      exact ⟨item :: first, last, by rw [is, List.cons_append], by rw [replaceLast, if_pos later, made, List.cons_append]⟩
    · have none : rest.filter test = [] := by
        rw [List.filter_eq_nil_iff]
        intro other member passes
        exact later (List.any_eq_true.mpr ⟨other, member, passes⟩)
      by_cases passes : test item = true
      · rw [List.filter_cons_of_pos passes, none] at found
        obtain rfl := Option.some.inj found
        exact ⟨[], rest, rfl, by rw [replaceLast, if_neg later, if_pos passes, List.nil_append]⟩
      · rw [List.filter_cons_of_neg passes, none] at found
        cases found

/-- Another element is found where the one replaced passed no more than its replacement. -/
theorem Replaced.find {α : Type} {old new : α} {before after : List α} (replaced : Replaced old new before after)
    {test : α → Bool} (alike : test new = test old) {found : α} (was : before.find? test = some found) (apart : found ≠ old) :
    after.find? test = some found := by
  obtain ⟨first, last, rfl, rfl⟩ := replaced
  rw [List.find?_append] at was ⊢
  cases early : first.find? test with
  | some item => rwa [early] at was
  | none =>
    rw [early] at was
    rw [Option.none_or] at was ⊢
    by_cases passes : test old = true
    · rw [List.find?_cons_of_pos passes] at was
      exact absurd (Option.some.inj was).symm apart
    · rw [List.find?_cons_of_neg passes] at was
      rwa [List.find?_cons_of_neg (by rwa [alike])]

theorem find_filter {α : Type} {test keep : α → Bool} {found : α} {items : List α}
    (was : items.find? test = some found) (kept : keep found = true) : (items.filter keep).find? test = some found := by
  induction items with
  | nil => cases was
  | cons item rest ih =>
    by_cases passes : test item = true
    · rw [List.find?_cons_of_pos passes] at was
      obtain rfl := Option.some.inj was
      rw [List.filter_cons_of_pos kept, List.find?_cons_of_pos passes]
    · rw [List.find?_cons_of_neg passes] at was
      by_cases stays : keep item = true
      · rw [List.filter_cons_of_pos stays, List.find?_cons_of_neg passes]
        exact ih was
      · rw [List.filter_cons_of_neg stays]
        exact ih was

theorem find_append {α : Type} {test : α → Bool} {found : α} {items : List α} (more : List α)
    (was : items.find? test = some found) : (items ++ more).find? test = some found := by
  rw [List.find?_append, was, Option.some_or]

namespace Outcome

theorem map_ok {ε α β : Type} {x : Except ε α} {f : α → β} {b : β} (ran : x.map f = .ok b) : ∃ a, x = .ok a ∧ f a = b := by
  cases x with
  | error e => cases ran
  | ok a => exact ⟨a, rfl, Except.ok.inj ran⟩

/-- A check of every item passes on each. -/
theorem forM_ok {ε α : Type} {check : α → Except ε Unit} {items : List α} (passed : items.forM check = .ok ()) :
    ∀ item ∈ items, check item = .ok () := by
  induction items with
  | nil => exact fun _ member => by cases member
  | cons first rest ih =>
    obtain ⟨_, here, later⟩ := bind_eq_ok.mp passed
    exact List.forall_mem_cons.mpr ⟨here, ih later⟩

/-- A step that keeps what is tested leaves what is found, answered. -/
theorem find_mapM {α ε : Type} {step : α → Except ε α} {items answers : List α} (ran : items.mapM step = .ok answers)
    {test : α → Bool} (keeps : ∀ item answer, step item = .ok answer → test answer = test item) {found : α}
    (was : items.find? test = some found) : ∃ answer, step found = .ok answer ∧ answers.find? test = some answer := by
  induction items generalizing answers with
  | nil => cases was
  | cons item rest ih =>
    rw [List.mapM_cons] at ran
    obtain ⟨first, stepped, ran⟩ := bind_eq_ok.mp ran
    obtain ⟨later, rested, made⟩ := bind_eq_ok.mp ran
    obtain rfl := pure_eq_ok.mp made
    have alike := keeps item first stepped
    by_cases passes : test item = true
    · rw [List.find?_cons_of_pos passes] at was
      obtain rfl := Option.some.inj was
      exact ⟨first, stepped, List.find?_cons_of_pos (alike.trans passes)⟩
    · rw [List.find?_cons_of_neg passes] at was
      obtain ⟨answer, is, there⟩ := ih rested was
      exact ⟨answer, is, by rwa [List.find?_cons_of_neg (by rwa [alike])]⟩

/-- Every item has its answer. -/
theorem mem_mapM {α β ε : Type} {step : α → Except ε β} {items : List α} {answers : List β}
    (ran : items.mapM step = .ok answers) {item : α} (member : item ∈ items) : ∃ answer ∈ answers, step item = .ok answer := by
  induction items generalizing answers with
  | nil => cases member
  | cons first rest ih =>
    rw [List.mapM_cons] at ran
    obtain ⟨made, stepped, ran⟩ := bind_eq_ok.mp ran
    obtain ⟨later, rested, is⟩ := bind_eq_ok.mp ran
    obtain rfl := pure_eq_ok.mp is
    rcases List.mem_cons.mp member with rfl | inside
    · exact ⟨made, List.mem_cons_self, stepped⟩
    · obtain ⟨answer, there, same⟩ := ih rested inside
      exact ⟨answer, List.mem_cons_of_mem _ there, same⟩

end Outcome

end DuckAcl
