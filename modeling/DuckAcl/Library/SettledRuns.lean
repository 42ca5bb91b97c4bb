import Mathlib.Data.List.Basic

/-! # Stateful computations with settled answers

A computation may pass a state along, a table of earlier answers for example, and still answer the
same from every state it can meet. `Settles` says so for the states of one kind; its rules follow a
computation through its steps, so that a caller may forget the state.
-/

namespace DuckAcl

variable {σ α β : Type} {kind : σ → Prop}

/-- From every state of the kind the computation answers `answer` and leaves a state of the kind. -/
def Settles (kind : σ → Prop) (run : StateM σ α) (answer : α) : Prop :=
  ∀ state, kind state → (run.run state).1 = answer ∧ kind (run.run state).2

namespace Settles

theorem pure (answer : α) : Settles kind (Pure.pure answer) answer := fun _ held => ⟨rfl, held⟩

theorem bind {first : StateM σ α} {rest : α → StateM σ β} {middle : α} {answer : β} (settles : Settles kind first middle)
    (continues : Settles kind (rest middle) answer) : Settles kind (first >>= rest) answer := by
  intro state held
  obtain ⟨same, kept⟩ := settles state held
  have next := continues _ kept
  rw [← same] at next
  exact next

/-- A step that decides whether the rest runs. -/
theorem ite {test : Bool} {first second : StateM σ α} {left right : α} (yes : test = true → Settles kind first left)
    (no : test = false → Settles kind second right) :
    Settles kind (if test then first else second) (if test then left else right) := by
  cases test with
  | true => simpa using yes rfl
  | false => simpa using no rfl

end Settles

/-- Keep the items that pass a stateful test, one after the other. -/
def keepWith (test : α → StateM σ Bool) : List α → StateM σ (List α)
  | [] => pure []
  | item :: rest => do
    let passes ← test item
    let others ← keepWith test rest
    pure (if passes then item :: others else others)

/-- A test with settled answers keeps what the answers keep. -/
theorem Settles.keepWith {test : α → StateM σ Bool} {answer : α → Bool} {items : List α}
    (settles : ∀ item ∈ items, Settles kind (test item) (answer item)) :
    Settles kind (keepWith test items) (items.filter answer) := by
  induction items with
  | nil => exact Settles.pure []
  | cons item rest ih =>
    have others := ih fun other member => settles other (List.mem_cons_of_mem _ member)
    have shape : (item :: rest).filter answer = if answer item then item :: rest.filter answer else rest.filter answer :=
      List.filter_cons
    rw [shape]
    exact (settles item List.mem_cons_self).bind (others.bind (Settles.pure _))

end DuckAcl
