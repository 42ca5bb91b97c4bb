import Mathlib

/-! # Bags that come back

A change keeps the elements of a bag that fail a test as they are. Whoever puts the elements that passed
it back, in place of those that pass it now, has the bag the change found. With two tests one after the
other the elements that pass both come back once.
-/

namespace DuckAcl

namespace Bags

variable {ρ : Type} {before after : Multiset ρ}

/-- The elements that pass the test, and those that do not. -/
theorem filter_split (bag : Multiset ρ) (test : ρ → Bool) :
    bag.filter (test · = false) + bag.filter (test · = true) = bag := by
  have split := Multiset.filter_add_not (test · = true) bag
  simp only [Bool.not_eq_true] at split
  rw [Multiset.add_comm]
  exact split

/-- The elements that pass `gone` now make room for those that passed `came` before. -/
def replaced (now before : Multiset ρ) (gone came : ρ → Bool) : Multiset ρ :=
  now.filter (gone · = false) + before.filter (came · = true)

/-- A change outside of which nothing moved is taken back by putting its elements back. -/
theorem replaced_eq {gone came : ρ → Bool}
    (outside : after.filter (gone · = false) = before.filter (came · = false)) :
    replaced after before gone came = before := by
  rw [replaced, outside, filter_split]

/-- A change that left the elements that pass as they were needs nothing put back. -/
theorem replaced_of_same {gone came : ρ → Bool}
    (same : after.filter (gone · = true) = before.filter (came · = true)) :
    replaced after before gone came = after := by
  rw [replaced, ← same, filter_split]

/-- Two tests one after the other take back a change that moved nothing outside both. -/
theorem replaced_twice {first second : ρ → Bool}
    (outside : after.filter (fun row => first row = false ∧ second row = false) =
      before.filter (fun row => first row = false ∧ second row = false)) :
    replaced (replaced after before first first) before second second = before := by
  apply replaced_eq
  rw [replaced, Multiset.filter_add, Multiset.filter_filter, Multiset.filter_filter]
  have swap : after.filter (fun row => second row = false ∧ first row = false) =
      before.filter (fun row => second row = false ∧ first row = false) := by
    simpa only [and_comm] using outside
  rw [swap, ← Multiset.filter_filter, ← Multiset.filter_filter, ← Multiset.filter_add, filter_split]

/-- What one name's change left alone stays alone when another name's elements are put back. -/
theorem filter_replaced {first second : ρ → Bool}
    (same : after.filter (second · = true) = before.filter (second · = true)) :
    (replaced after before first first).filter (second · = true) = before.filter (second · = true) := by
  rw [replaced, Multiset.filter_add, Multiset.filter_comm, same, Multiset.filter_comm, ← Multiset.filter_add,
    filter_split]

/-- Nothing moved outside two tests nor inside either. -/
theorem eq_of_same {first second : ρ → Bool}
    (outside : after.filter (fun row => first row = false ∧ second row = false) =
      before.filter (fun row => first row = false ∧ second row = false))
    (one : after.filter (first · = true) = before.filter (first · = true))
    (two : after.filter (second · = true) = before.filter (second · = true)) : after = before := by
  have back := replaced_twice outside
  rwa [replaced_of_same one, replaced_of_same two] at back

/-- Elements that move from under the tests to under the tests leave the others as they are. -/
theorem filter_map_moved {elements : List ρ} {moves keeps : ρ → Bool} {move : ρ → ρ}
    (moved : ∀ element ∈ elements, moves element = true → keeps element = false ∧ keeps (move element) = false) :
    (elements.map fun element => if moves element then move element else element).filter keeps =
      elements.filter keeps := by
  induction elements with
  | nil => rfl
  | cons first rest ih =>
    have later := ih fun element member => moved element (List.mem_cons_of_mem _ member)
    rw [List.map_cons, List.filter_cons, List.filter_cons, later]
    cases moving : moves first with
    | false => rfl
    | true =>
      obtain ⟨there, gone⟩ := moved first List.mem_cons_self moving
      simp only [↓reduceIte, there, gone, Bool.false_eq_true]

/-- The one element that passes a test is found in any order. -/
theorem find?_of_perm {first second : List ρ} (same : first.Perm second) {test : ρ → Bool}
    (one : (second.filter test).length ≤ 1) : first.find? test = second.find? test := by
  rw [← List.head?_filter, ← List.head?_filter]
  have filtered := same.filter test
  match shape : second.filter test with
  | [] => rw [shape] at filtered; rw [filtered.eq_nil]
  | [only] => rw [shape] at filtered; rw [List.perm_singleton.mp filtered]
  | _ :: _ :: _ => rw [shape] at one; simp at one

/-- One bag becomes another by taking elements of one kind and putting elements of another. -/
def Exchange (now back : Multiset ρ) (takes puts : ρ → Prop) : Prop :=
  ∃ kept taken put, now = kept + taken ∧ back = kept + put ∧ (∀ row ∈ taken, takes row) ∧ ∀ row ∈ put, puts row

theorem Exchange.refl (bag : Multiset ρ) (takes puts : ρ → Prop) : Exchange bag bag takes puts :=
  ⟨bag, 0, 0, (Multiset.add_zero bag).symm, (Multiset.add_zero bag).symm, by simp, by simp⟩

/-- After an exchange, the elements that pass a test make room for others. -/
theorem Exchange.replace {now back put : Multiset ρ} {takes puts : ρ → Prop} {gone : ρ → Bool}
    (done : Exchange now back takes puts) (may : ∀ row ∈ now, gone row = true → takes row)
    (come : ∀ row ∈ put, puts row) : Exchange now (back.filter (gone · = false) + put) takes puts := by
  obtain ⟨kept, taken, came, rfl, rfl, takesAll, putsAll⟩ := done
  refine ⟨kept.filter (gone · = false), kept.filter (gone · = true) + taken, came.filter (gone · = false) + put,
    ?_, ?_, ?_, ?_⟩
  · rw [← Multiset.add_assoc, filter_split]
  · rw [Multiset.filter_add, Multiset.add_assoc]
  · intro row member
    rcases Multiset.mem_add.mp member with passed | was
    · obtain ⟨held, passes⟩ := Multiset.mem_filter.mp passed
      exact may row (Multiset.mem_add.mpr (.inl held)) passes
    · exact takesAll row was
  · intro row member
    rcases Multiset.mem_add.mp member with old | new
    · exact putsAll row (Multiset.mem_of_mem_filter old)
    · exact come row new

/-- A list without repetitions that counts every number of an interval holds every one. -/
theorem mem_of_countP {numbers : List ℕ} (distinct : numbers.Nodup) {low high : ℕ}
    (counts : high = low + numbers.countP fun number => decide (low < number) && decide (number ≤ high)) {number : ℕ}
    (above : low < number) (below : number ≤ high) : number ∈ numbers := by
  have inside : (numbers.filter fun number => decide (low < number) && decide (number ≤ high)) ⊆
      List.range' (low + 1) (high - low) := by
    intro other member
    have bounds := (List.mem_filter.mp member).2
    simp only [Bool.and_eq_true, decide_eq_true_eq] at bounds
    rw [List.mem_range'_1]
    omega
  have enough : (List.range' (low + 1) (high - low)).length ≤
      (numbers.filter fun number => decide (low < number) && decide (number ≤ high)).length := by
    rw [List.length_range', ← List.countP_eq_length_filter]
    omega
  have same := (List.subperm_of_subset (distinct.filter _) inside).perm_of_length_le enough
  have listed : number ∈ List.range' (low + 1) (high - low) := by
    rw [List.mem_range'_1]
    omega
  exact (List.mem_filter.mp (same.mem_iff.mpr listed)).1

end Bags

/-! ## One entry replaced

A list of parties of which one takes a step: what the others hold is as it was.
-/

theorem sum_map_set {β : Type} (f : β → ℕ) {items : List β} {index : ℕ} {old : β} (found : items[index]? = some old)
    (new : β) : ((items.set index new).map f).sum + f old = (items.map f).sum + f new := by
  induction items generalizing index with
  | nil => simp at found
  | cons item rest ih =>
    cases index with
    | zero =>
      obtain rfl : item = old := by simpa using found
      simp only [List.set_cons_zero, List.map_cons, List.sum_cons]
      omega
    | succ index =>
      rw [List.getElem?_cons_succ] at found
      have later := ih found
      simp only [List.set_cons_succ, List.map_cons, List.sum_cons]
      omega

theorem mem_set_new {β : Type} {items : List β} {index : ℕ} {old : β} (found : items[index]? = some old) (new : β) :
    new ∈ items.set index new :=
  List.mem_set (List.getElem?_eq_some_iff.mp found).1 new

theorem mem_set_of_mem {β : Type} {items : List β} {index : ℕ} {old item : β} (found : items[index]? = some old)
    (member : item ∈ items) (new : β) : item ∈ items.set index new ∨ item = old := by
  induction items generalizing index with
  | nil => cases member
  | cons head rest ih =>
    cases index with
    | zero =>
      obtain rfl : head = old := by simpa using found
      rcases List.mem_cons.mp member with rfl | later
      · exact .inr rfl
      · exact .inl (List.mem_cons_of_mem _ later)
    | succ index =>
      rw [List.getElem?_cons_succ] at found
      rcases List.mem_cons.mp member with rfl | later
      · exact .inl List.mem_cons_self
      · exact (ih found later).imp_left (List.mem_cons_of_mem _)

/-! ## One entry of a list leaves -/

theorem sum_map_eraseIdx {β : Type} (f : β → ℕ) {items : List β} {index : ℕ} {old : β}
    (found : items[index]? = some old) : ((items.eraseIdx index).map f).sum + f old = (items.map f).sum := by
  induction items generalizing index with
  | nil => simp at found
  | cons item rest ih =>
    cases index with
    | zero =>
      obtain rfl : item = old := by simpa using found
      simp only [List.eraseIdx_cons_zero, List.map_cons, List.sum_cons]
      omega
    | succ index =>
      rw [List.getElem?_cons_succ] at found
      have later := ih found
      simp only [List.eraseIdx_cons_succ, List.map_cons, List.sum_cons]
      omega

/-- The one entry with a key is the entry at its place. -/
theorem eraseP_key {β κ : Type} [DecidableEq κ] (key : β → κ) {items : List β} {index : ℕ} {old : β}
    (found : items[index]? = some old) (distinct : (items.map key).Nodup) :
    items.eraseP (key · = key old) = items.eraseIdx index := by
  induction items generalizing index with
  | nil => simp at found
  | cons item rest ih =>
    rw [List.map_cons, List.nodup_cons] at distinct
    cases index with
    | zero =>
      obtain rfl : item = old := by simpa using found
      simp
    | succ index =>
      rw [List.getElem?_cons_succ] at found
      have differs : key item ≠ key old := fun same =>
        distinct.1 (same ▸ List.mem_map_of_mem (List.mem_of_getElem? found))
      rw [List.eraseP_cons_of_neg (by simpa using differs), ih found distinct.2, List.eraseIdx_cons_succ]

end DuckAcl
