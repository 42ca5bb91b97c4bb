import Mathlib.Data.List.Basic

/-! # Memo tables

A memo table keeps the answers of a computation under keys. An answer is looked up, or computed and
kept; an error is not kept, and a table that has grown too large is emptied before it takes another
entry. Calls that share a key share an entry, so the table is transparent on a set of calls when
calls of the set under one key compute one answer.
-/

namespace DuckAcl

/-- A table of answers under keys. -/
abbrev Memo (κ α : Type) := List (κ × α)

namespace Memo

variable {κ α ε ι : Type} [DecidableEq κ]

def find (memo : Memo κ α) (key : κ) : Option α :=
  (memo.find? fun entry => decide (entry.1 = key)).map Prod.snd

def store (memo : Memo κ α) (key : κ) (value : α) : Memo κ α :=
  (key, value) :: memo.filter fun entry => decide (entry.1 ≠ key)

def clearIfOversized (capacity : ℕ) (memo : Memo κ α) : Memo κ α :=
  if capacity < memo.length then [] else memo

/-- The answer under a key: from the table, or computed and kept. -/
def ask (capacity : ℕ) (memo : Memo κ α) (key : κ) (computed : Except ε α) : Memo κ α × Except ε α :=
  match memo.find key with
  | some value => (memo, .ok value)
  | none =>
    match computed with
    | .ok value => ((memo.clearIfOversized capacity).store key value, .ok value)
    | .error error => (memo, .error error)

@[simp] theorem find_nil (key : κ) : find ([] : Memo κ α) key = none := rfl

theorem find_store (memo : Memo κ α) (key other : κ) (value : α) :
    (memo.store key value).find other = if other = key then some value else memo.find other := by
  unfold find store
  by_cases same : other = key
  · simp [same]
  · have apart : key ≠ other := fun found => same found.symm
    rw [List.find?_cons_of_neg (by simpa using apart), List.find?_filter, if_neg same]
    congr 2
    funext entry
    by_cases named : entry.1 = other
    · simp [named, same]
    · simp [named]

theorem find_clearIfOversized {capacity : ℕ} {memo : Memo κ α} {key : κ} {value : α}
    (found : (memo.clearIfOversized capacity).find key = some value) : memo.find key = some value := by
  unfold clearIfOversized at found
  split_ifs at found
  · cases found
  · exact found

/-- Every entry is what each call of the set under its key computes. -/
def Sound (key : ι → κ) (compute : ι → Except ε α) (among : ι → Prop) (memo : Memo κ α) : Prop :=
  ∀ call value, among call → memo.find (key call) = some value → compute call = .ok value

variable {key : ι → κ} {compute : ι → Except ε α} {among : ι → Prop} {memo : Memo κ α}

theorem sound_nil : Sound key compute among [] := by
  intro call value _ found
  cases found

/-- A sound table answers a call as its computation does. -/
theorem Sound.ask_eq (sound : Sound key compute among memo) (capacity : ℕ) (call : ι) (admitted : among call) :
    (memo.ask capacity (key call) (compute call)).2 = compute call := by
  unfold ask
  cases found : memo.find (key call) with
  | some value => exact (sound call value admitted found).symm
  | none => cases computed : compute call <;> rfl

/-- A sound table stays sound when calls of the set that share a key share their answer. -/
theorem Sound.ask (sound : Sound key compute among memo)
    (agree : ∀ {one other value}, among one → among other → key one = key other → compute one = .ok value →
      compute other = .ok value)
    (capacity : ℕ) (call : ι) (admitted : among call) :
    Sound key compute among (memo.ask capacity (key call) (compute call)).1 := by
  unfold Memo.ask
  cases found : memo.find (key call) with
  | some value => exact sound
  | none =>
    cases computed : compute call with
    | error error => exact sound
    | ok value =>
      intro other value' admitted' found'
      rw [find_store] at found'
      split_ifs at found' with same
      · obtain rfl := Option.some.inj found'
        exact agree admitted admitted' same.symm computed
      · exact sound other value' admitted' (find_clearIfOversized found')

end Memo

end DuckAcl
