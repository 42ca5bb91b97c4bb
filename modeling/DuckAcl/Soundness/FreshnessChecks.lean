import DuckAcl.Model.Freshness

/-! # When freshness fails closed

A failed check leaves `last_check` and `checked_once` as if it had been made, so a call inside the
interval after it returns without asking. The theorem says exactly which sequences of calls are
spared: those in which the call after a failed check comes no sooner than its interval.
-/

namespace DuckAcl

variable (functionMode : Bool)

/-- The state a sequence of calls leaves. A call that throws is followed by others all the same. -/
def freshAfter (state : Freshness) (calls : List FreshCall) : Freshness :=
  calls.foldl (fun state call => (ensureFresh functionMode state call).1) state

/-- The call asks the source and its check fails. -/
def FailsCheck (state : Freshness) (call : FreshCall) : Prop :=
  state.skips call.now call.interval = false ∧
    ∃ failure, askSource functionMode (state.enter call.now) call.answer = .error failure

/-- The call asks the source and its check succeeds. -/
def PassesCheck (state : Freshness) (call : FreshCall) : Prop :=
  state.skips call.now call.interval = false ∧
    ∃ read, askSource functionMode (state.enter call.now) call.answer = .ok read

/-- The call returns normally. -/
def Returns (state : Freshness) (call : FreshCall) : Prop :=
  (ensureFresh functionMode state call).2 = .ok ()

/-- After a failed check, and while no later check has succeeded, a call that returns normally has
made a check of its own that succeeded. -/
def FailsClosed (start : Freshness) (calls : List FreshCall) : Prop :=
  ∀ before failed between next after, calls = before ++ failed :: between ++ next :: after →
    FailsCheck functionMode (freshAfter functionMode start before) failed →
    (∀ earlier call later, between = earlier ++ call :: later →
      ¬ PassesCheck functionMode (freshAfter functionMode start (before ++ failed :: earlier)) call) →
    Returns functionMode (freshAfter functionMode start (before ++ failed :: between)) next →
    PassesCheck functionMode (freshAfter functionMode start (before ++ failed :: between)) next

/-- The call right after a failed check reads its clock no sooner than its interval after it. -/
def WaitsOutFailures (start : Freshness) (calls : List FreshCall) : Prop :=
  ∀ before failed next after, calls = before ++ failed :: next :: after →
    FailsCheck functionMode (freshAfter functionMode start before) failed →
    next.interval ≤ next.now - failed.now

theorem freshAfter_append (state : Freshness) (first second : List FreshCall) :
    freshAfter functionMode state (first ++ second) =
      freshAfter functionMode (freshAfter functionMode state first) second := by
  simp only [freshAfter, List.foldl_append]

/-- A failed check leaves the mark it set before it asked. -/
theorem ensureFresh_of_fails {state : Freshness} {call : FreshCall} (fails : FailsCheck functionMode state call) :
    (ensureFresh functionMode state call).1 = state.enter call.now := by
  obtain ⟨asks, failure, refused⟩ := fails
  simp only [ensureFresh, asks, Bool.false_eq_true, ↓reduceIte, refused]

/-- A call that asks either fails its check or passes it. -/
theorem fails_or_passes {state : Freshness} {call : FreshCall} (asks : state.skips call.now call.interval = false) :
    FailsCheck functionMode state call ∨ PassesCheck functionMode state call := by
  cases read : askSource functionMode (state.enter call.now) call.answer with
  | error failure => exact .inl ⟨asks, failure, read⟩
  | ok read => exact .inr ⟨asks, _, read⟩

/-- A call that does not ask returns; one that asks returns when its check passes. -/
theorem returns_iff (state : Freshness) (call : FreshCall) :
    Returns functionMode state call ↔
      state.skips call.now call.interval = true ∨ PassesCheck functionMode state call := by
  unfold Returns ensureFresh PassesCheck
  cases skipped : state.skips call.now call.interval with
  | true => simp
  | false =>
    cases read : askSource functionMode (state.enter call.now) call.answer with
    | error failure => simp [read]
    | ok read => simp [read]

/-- Once a check has failed, the next call skips exactly when it comes within its interval. -/
private theorem enter_skips (state : Freshness) (failed next : FreshCall) :
    (state.enter failed.now).skips next.now next.interval = true ↔ next.now - failed.now < next.interval := by
  simp only [Freshness.skips, Freshness.enter, Bool.true_and]
  exact decide_eq_true_iff

private theorem freshAfter_failed {start : Freshness} {before : List FreshCall} {failed : FreshCall}
    (fails : FailsCheck functionMode (freshAfter functionMode start before) failed) :
    freshAfter functionMode start (before ++ [failed]) = (freshAfter functionMode start before).enter failed.now := by
  rw [freshAfter_append]
  exact ensureFresh_of_fails functionMode fails

/-- While every call waits, a call after a failed check and before a successful one asks: the failure
is passed on from each call to the next. -/
private theorem asks_after_failure {start : Freshness} {calls : List FreshCall}
    (waits : WaitsOutFailures functionMode start calls) {next : FreshCall} {after : List FreshCall} :
    ∀ {between before : List FreshCall} {failed : FreshCall}, calls = before ++ failed :: between ++ next :: after →
      FailsCheck functionMode (freshAfter functionMode start before) failed →
      (∀ earlier call later, between = earlier ++ call :: later →
        ¬ PassesCheck functionMode (freshAfter functionMode start (before ++ failed :: earlier)) call) →
      (freshAfter functionMode start (before ++ failed :: between)).skips next.now next.interval = false
  | [], before, failed, split, fails, _ => by
    have waited := waits before failed next after (by simpa using split) fails
    rw [freshAfter_failed functionMode fails, Bool.eq_false_iff]
    intro skipped
    have within := (enter_skips _ failed next).mp skipped
    omega
  | call :: between, before, failed, split, fails, noPass => by
    have asks : (freshAfter functionMode start (before ++ [failed])).skips call.now call.interval = false := by
      have waited := waits before failed call (between ++ next :: after) (by simpa using split) fails
      rw [freshAfter_failed functionMode fails, Bool.eq_false_iff]
      intro skipped
      have within := (enter_skips _ failed call).mp skipped
      omega
    have failsToo : FailsCheck functionMode (freshAfter functionMode start (before ++ [failed])) call :=
      (fails_or_passes functionMode asks).resolve_right (noPass [] call between rfl)
    have rest : (freshAfter functionMode start (before ++ [failed] ++ call :: between)).skips next.now next.interval
        = false := by
      refine asks_after_failure waits (by simpa using split) failsToo ?_
      intro earlier other later same
      have none := noPass (call :: earlier) other later (by simp [same])
      simpa using none
    simpa using rest

/-- Freshness fails closed along a sequence of calls, from any state, exactly when no call comes
sooner than its interval after a failed check. -/
theorem fails_closed_iff (start : Freshness) (calls : List FreshCall) :
    FailsClosed functionMode start calls ↔ WaitsOutFailures functionMode start calls := by
  constructor
  · intro closed before failed next after split fails
    by_contra soon
    have skipped : (freshAfter functionMode start (before ++ [failed])).skips next.now next.interval = true := by
      rw [freshAfter_failed functionMode fails, enter_skips]
      omega
    have passes := closed before failed [] next after (by simpa using split) fails (by simp)
      ((returns_iff functionMode _ next).mpr (.inl skipped))
    exact absurd skipped (by simp [passes.1])
  · intro waits before failed between next after split fails noPass returned
    have asks := asks_after_failure functionMode waits split fails noPass
    rcases (returns_iff functionMode _ next).mp returned with skipped | passes
    · exact absurd skipped (by simp [asks])
    · exact passes

/-- The source does not answer at time 0; a call half an interval later returns without asking. -/
theorem fails_open_within_interval :
    ¬ FailsClosed false {} [⟨0, 1000, ⟨none, some []⟩⟩, ⟨500, 1000, ⟨none, some []⟩⟩] := by
  intro closed
  have passes := closed [] ⟨0, 1000, ⟨none, some []⟩⟩ [] ⟨500, 1000, ⟨none, some []⟩⟩ [] rfl
    ⟨by decide, .source, by decide⟩ (by simp) (by unfold Returns; decide)
  exact absurd passes.1 (by decide)

end DuckAcl
