import DuckAcl.Library.Runs

/-! # Loops that may break off

A loop over a list, each of whose turns may break it off, is a run of the machine whose events are the items. What
holds of the items done so far and of the state is kept item by item.
-/

namespace DuckAcl.Runs

variable {σ ε : Type} {step : σ → ε → Option σ}

theorem foldlM_eq_run (items : List ε) (state : σ) : items.foldlM step state = run step state items := by
  induction items generalizing state with
  | nil => rfl
  | cons item rest ih =>
    rw [List.foldlM_cons]
    exact Option.bind_congr fun next _ => ih next

theorem run_append {events more : List ε} {state last : σ} :
    run step state (events ++ more) = some last ↔
      ∃ middle, run step state events = some middle ∧ run step middle more = some last := by
  induction events generalizing state with
  | nil => simp [run]
  | cons event rest ih =>
    rw [List.cons_append, run_cons]
    constructor
    · rintro ⟨next, stepped, ran⟩
      obtain ⟨middle, first, second⟩ := ih.mp ran
      exact ⟨middle, (run_cons step).mpr ⟨next, stepped, first⟩, second⟩
    · rintro ⟨middle, first, second⟩
      obtain ⟨next, stepped, ran⟩ := (run_cons step).mp first
      exact ⟨next, stepped, ih.mpr ⟨middle, ran, second⟩⟩

/-- What each step keeps of the events done and the state holds of all the events at the end. -/
theorem run_done {holds : List ε → σ → Prop}
    (keeps : ∀ {done state event next}, holds done state → step state event = some next → holds (done ++ [event]) next) :
    ∀ {events done : List ε} {state last : σ}, holds done state → run step state events = some last →
      holds (done ++ events) last := by
  intro events
  induction events with
  | nil =>
    intro done state last held ran
    obtain rfl := Option.some.inj ran
    rwa [List.append_nil]
  | cons event rest ih =>
    intro done state last held ran
    obtain ⟨next, stepped, ran⟩ := (run_cons step).mp ran
    rw [List.append_cons]
    exact ih (keeps held stepped) ran

end DuckAcl.Runs
