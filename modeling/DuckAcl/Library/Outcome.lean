import Mathlib.Data.List.Basic

/-! # Computations that may refuse

A computation in `Except` either refuses or answers. A sequence of them answers when each step does;
these lemmas take such an answer apart, one step at a time.
-/

namespace DuckAcl.Outcome

variable {ε α β : Type}

/-- A sequence answers when its first step does and the rest does on that answer. -/
theorem bind_eq_ok {x : Except ε α} {f : α → Except ε β} {b : β} : (x >>= f) = .ok b ↔ ∃ a, x = .ok a ∧ f a = .ok b := by
  cases x with
  | error e => exact ⟨nofun, fun ⟨_, refused, _⟩ => nomatch refused⟩
  | ok a =>
    constructor
    · exact fun answered => ⟨a, rfl, answered⟩
    · rintro ⟨_, is, answered⟩
      rwa [← Except.ok.inj is] at answered

theorem pure_eq_ok {a b : α} : (pure a : Except ε α) = .ok b ↔ a = b :=
  ⟨Except.ok.inj, congrArg Except.ok⟩

theorem throw_ne_ok {e : ε} {a : α} : (throw e : Except ε α) ≠ .ok a :=
  fun thrown => nomatch (show (Except.error e : Except ε α) = .ok a from thrown)

/-- One step of a sequence whose answer is passed on by `Except.bind`. -/
theorem bind_ok {x : Except ε α} {f : α → Except ε β} {b : β} (ran : x.bind f = .ok b) :
    ∃ a, x = .ok a ∧ f a = .ok b :=
  bind_eq_ok.mp ran

/-! ## Computations that answer the same

They may refuse with different errors. -/

def SameAnswer (first second : Except ε α) : Prop :=
  ∀ answer, first = .ok answer ↔ second = .ok answer

theorem SameAnswer.refl (x : Except ε α) : SameAnswer x x := fun _ => Iff.rfl

theorem SameAnswer.errors (e e' : ε) : SameAnswer (.error e : Except ε α) (.error e') := by
  intro answer
  simp

/-- Sequences of steps that answer the same answer the same. -/
theorem SameAnswer.bind {x y : Except ε α} {f g : α → Except ε β} (steps : SameAnswer x y)
    (rest : ∀ a, SameAnswer (f a) (g a)) : SameAnswer (x >>= f) (y >>= g) := by
  intro answer
  rw [bind_eq_ok, bind_eq_ok]
  constructor
  · rintro ⟨a, first, second⟩
    exact ⟨a, (steps a).mp first, (rest a answer).mp second⟩
  · rintro ⟨a, first, second⟩
    exact ⟨a, (steps a).mpr first, (rest a answer).mpr second⟩

theorem SameAnswer.foldlM {γ : Type} {f g : α → γ → Except ε α} (steps : ∀ a c, SameAnswer (f a c) (g a c)) :
    ∀ (items : List γ) (start : α), SameAnswer (items.foldlM f start) (items.foldlM g start)
  | [], start => SameAnswer.refl _
  | item :: items, start => by
    rw [List.foldlM_cons, List.foldlM_cons]
    exact (steps start item).bind fun next => SameAnswer.foldlM steps items next

end DuckAcl.Outcome
