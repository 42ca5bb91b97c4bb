import Mathlib.Data.List.Basic
import Mathlib.Data.List.Nodup

/-! # Finite maps

A finite map is a list of entries whose keys are distinct. An entry is put, dropped, altered in
place, or kept by a test, and each operation says what a lookup finds after it. The list is the order
in which a loop meets the entries.
-/

namespace DuckAcl

/-- Entries under distinct keys. -/
structure Entries (κ α : Type) where
  list : List (κ × α)
  distinct : (list.map Prod.fst).Nodup

namespace Entries

variable {κ α : Type}

def empty : Entries κ α := ⟨[], List.nodup_nil⟩

def keys (entries : Entries κ α) : List κ := entries.list.map Prod.fst

/-- The entries a test keeps. -/
def keep (entries : Entries κ α) (test : κ × α → Bool) : Entries κ α where
  list := entries.list.filter test
  distinct := (List.filter_sublist.map Prod.fst).nodup entries.distinct

section

variable [DecidableEq κ]

def find (entries : Entries κ α) (key : κ) : Option α :=
  (entries.list.find? fun entry => decide (entry.1 = key)).map Prod.snd

def has (entries : Entries κ α) (key : κ) : Bool := (entries.find key).isSome

/-- The map without a key. -/
def drop (entries : Entries κ α) (key : κ) : Entries κ α := entries.keep fun entry => decide (entry.1 ≠ key)

def put (entries : Entries κ α) (key : κ) (value : α) : Entries κ α where
  list := (key, value) :: (entries.drop key).list
  distinct := by
    refine List.nodup_cons.mpr ⟨?_, (entries.drop key).distinct⟩
    simp [drop, keep]

def alterEntry (key : κ) (change : α → α) (entry : κ × α) : κ × α :=
  if entry.1 = key then (entry.1, change entry.2) else entry

@[simp] theorem alterEntry_fst (key : κ) (change : α → α) (entry : κ × α) :
    (alterEntry key change entry).1 = entry.1 := by
  unfold alterEntry
  split <;> rfl

/-- The map with the value under a key changed in place. -/
def alter (entries : Entries κ α) (key : κ) (change : α → α) : Entries κ α where
  list := entries.list.map (alterEntry key change)
  distinct := by
    rw [List.map_map]
    have same : (Prod.fst ∘ alterEntry key change : κ × α → κ) = Prod.fst := by
      funext entry
      exact alterEntry_fst key change entry
    rw [same]
    exact entries.distinct

theorem find_eq_some {entries : Entries κ α} {key : κ} {value : α} :
    entries.find key = some value ↔ (key, value) ∈ entries.list := by
  rcases entries with ⟨list, distinct⟩
  simp only [find]
  induction list with
  | nil => simp
  | cons entry rest ih =>
    rcases entry with ⟨name, held⟩
    obtain ⟨fresh, others⟩ := List.nodup_cons.mp distinct
    by_cases same : name = key
    · subst same
      rw [List.find?_cons_of_pos (by simp)]
      have absent : (name, value) ∉ rest := fun found => fresh (List.mem_map.mpr ⟨_, found, rfl⟩)
      simp only [Option.map_some, Option.some.injEq, List.mem_cons, absent, or_false, Prod.mk.injEq, true_and]
      exact eq_comm
    · rw [List.find?_cons_of_neg (by simpa using same), ih others]
      have apart : (key, value) ≠ (name, held) := fun found => same (Prod.mk.inj found).1.symm
      simp only [List.mem_cons, apart, false_or]

theorem find_eq_none {entries : Entries κ α} {key : κ} : entries.find key = none ↔ key ∉ entries.keys := by
  simp only [find, Option.map_eq_none_iff, List.find?_eq_none, decide_eq_true_eq, keys, List.mem_map, not_exists,
    not_and]

theorem has_iff {entries : Entries κ α} {key : κ} : entries.has key = true ↔ key ∈ entries.keys := by
  rw [has, Option.isSome_iff_ne_none, Ne, find_eq_none, not_not]

theorem find_ext {first second : Entries κ α} {key : κ}
    (same : ∀ value, (key, value) ∈ first.list ↔ (key, value) ∈ second.list) : first.find key = second.find key := by
  apply Option.ext
  intro value
  rw [find_eq_some, find_eq_some]
  exact same value

theorem find_keep (entries : Entries κ α) (test : κ × α → Bool) (key : κ) :
    (entries.keep test).find key = (entries.find key).filter fun value => test (key, value) := by
  apply Option.ext
  intro value
  rw [Option.filter_eq_some_iff, find_eq_some, find_eq_some]
  exact List.mem_filter

theorem find_drop (entries : Entries κ α) (key other : κ) :
    (entries.drop key).find other = if other = key then none else entries.find other := by
  rw [drop, find_keep]
  by_cases same : other = key
  · simp [same]
  · rw [if_neg same]
    cases entries.find other with
    | none => rfl
    | some value => simp [same]

theorem find_put (entries : Entries κ α) (key other : κ) (value : α) :
    (entries.put key value).find other = if other = key then some value else entries.find other := by
  by_cases same : other = key
  · subst same
    rw [if_pos rfl, find_eq_some]
    exact List.mem_cons_self
  · rw [if_neg same]
    have dropped := find_drop entries key other
    rw [if_neg same] at dropped
    rw [← dropped]
    apply find_ext
    intro held
    have apart : (other, held) ≠ (key, value) := fun found => same (Prod.mk.inj found).1
    simp only [put, List.mem_cons, apart, false_or]

theorem drop_of_absent {entries : Entries κ α} {key : κ} (absent : key ∉ entries.keys) : entries.drop key = entries := by
  rcases entries with ⟨list, distinct⟩
  have kept : list.filter (fun entry => decide (entry.1 ≠ key)) = list := by
    rw [List.filter_eq_self]
    intro entry member
    simp only [ne_eq, decide_not, Bool.not_eq_eq_eq_not, Bool.not_true, decide_eq_false_iff_not]
    exact fun same => absent (List.mem_map.mpr ⟨entry, member, same⟩)
  simp only [drop, keep, mk.injEq]
  exact kept

/-- What no alteration touches is the same for every entry. -/
theorem map_alter {β : Type} (entries : Entries κ α) (key : κ) (change : α → α) (view : κ × α → β)
    (untouched : ∀ name value, view (name, change value) = view (name, value)) :
    (entries.alter key change).list.map view = entries.list.map view := by
  simp only [alter, List.map_map]
  apply List.map_congr_left
  intro entry _
  simp only [Function.comp_apply, alterEntry]
  split
  · exact untouched entry.1 entry.2
  · rfl

theorem find_alter (entries : Entries κ α) (key other : κ) (change : α → α) :
    (entries.alter key change).find other = if other = key then (entries.find key).map change else entries.find other := by
  simp only [find, alter, List.find?_map]
  have test : (fun entry : κ × α => decide (entry.1 = other)) ∘ alterEntry key change =
      fun entry => decide (entry.1 = other) := by
    funext entry
    simp only [Function.comp_apply, alterEntry_fst]
  rw [test]
  split
  · next same =>
    subst same
    cases found : entries.list.find? fun entry => decide (entry.1 = other) with
    | none => rfl
    | some entry =>
      have named := List.find?_some found
      simp only [decide_eq_true_eq] at named
      simp only [Option.map_some, alterEntry, named, ↓reduceIte]
  · next apart =>
    cases found : entries.list.find? fun entry => decide (entry.1 = other) with
    | none => rfl
    | some entry =>
      have named := List.find?_some found
      simp only [decide_eq_true_eq] at named
      have off : entry.1 ≠ key := fun same => apart (named ▸ same)
      simp only [Option.map_some, alterEntry, off, ↓reduceIte]

end

end Entries

end DuckAcl
