import Mathlib.Data.List.Basic

/-! # Runs of a state machine

A machine takes events one at a time, and some events are not possible in some states. A run is a
list of events that are all possible, each in the state the ones before it left. A condition on
steps holds along a run when each of its steps meets it; an invariant that every such step keeps
holds at the end.
-/

namespace DuckAcl.Runs

variable {σ ε : Type} (step : σ → ε → Option σ) (meets : σ → ε → Prop)

/-- The state a list of events leads to. -/
def run : σ → List ε → Option σ
  | state, [] => some state
  | state, event :: rest => (step state event).bind fun next => run next rest

/-- Each step of the run meets the condition, in the state it is taken from. -/
def Along : σ → List ε → Prop
  | _, [] => True
  | state, event :: rest => meets state event ∧
    match step state event with
    | none => True
    | some next => Along next rest

/-- Whether a run meets a decidable condition can be computed. -/
def decideAlong [∀ state event, Decidable (meets state event)] :
    ∀ (state : σ) (events : List ε), Decidable (Along step meets state events)
  | _, [] => .isTrue trivial
  | state, event :: rest =>
    have : Decidable (match step state event with
        | none => True
        | some next => Along step meets next rest) :=
      match step state event with
      | none => .isTrue trivial
      | some next => decideAlong next rest
    inferInstanceAs (Decidable (_ ∧ _))

instance [∀ state event, Decidable (meets state event)] (state : σ) (events : List ε) :
    Decidable (Along step meets state events) :=
  decideAlong step meets state events

theorem along_true (state : σ) (events : List ε) : Along step (fun _ _ => True) state events := by
  induction events generalizing state with
  | nil => trivial
  | cons event rest ih =>
    refine ⟨trivial, ?_⟩
    split
    · trivial
    · exact ih _

theorem run_cons {state last : σ} {event : ε} {rest : List ε} :
    run step state (event :: rest) = some last ↔
      ∃ next, step state event = some next ∧ run step next rest = some last := by
  simp only [run, Option.bind_eq_some_iff]

/-- What every step that meets the condition keeps, every run along which they all do keeps. -/
theorem run_keeps {holds : σ → Prop}
    (keeps : ∀ {state next event}, holds state → meets state event → step state event = some next → holds next) :
    ∀ {events : List ε} {state last : σ}, holds state → Along step meets state events →
      run step state events = some last → holds last
  | [], state, last, held, _, ran => by
    simp only [run, Option.some.injEq] at ran
    exact ran ▸ held
  | event :: rest, state, last, held, along, ran => by
    obtain ⟨next, stepped, ran⟩ := (run_cons step).mp ran
    obtain ⟨met, along⟩ := along
    simp only [stepped] at along
    exact run_keeps keeps (keeps held met stepped) along ran

end DuckAcl.Runs
