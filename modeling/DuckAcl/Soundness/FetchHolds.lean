import DuckAcl.Soundness.FetchRequests

/-! # How long an empty answer is held

An empty index is held while a batch with rows below it is open: for the producer where every such batch
is unanswered and its own FETCH is here, else on a timer. The timer of an index is begun by the first
poll that finds none, with the length in force then, and stays until it runs out or the index is
acknowledged; so an index that is only polled is answered within the longest hold.
-/

namespace DuckAcl.FetchWindow

open Ledger

variable {plan : Plan} {index now : ℕ}

/-- The timer a poll of an index goes by: the one begun before, or one that begins now. -/
def Plan.timer (plan : Plan) (index now : ℕ) : ℕ × ℕ :=
  ((plan.heldSince.find? fun held => Decidable.decide (held.1 = index)).map Prod.snd).getD (now, plan.ackHold)

/-- What a poll answers, and what it does to the timers. -/
inductive Polls (plan : Plan) (index now : ℕ) : Hold × Plan → Prop where
  /-- Nothing open lies below. -/
  | acknowledged (above : ∀ real ∈ plan.openReal, index < real) :
      Polls plan index now (.none, { plan with heldSince := plan.heldSince.filter fun held => held.1 ≠ index })
  | production (below : ∃ real ∈ plan.unanswered, real < index)
      (here : ∀ real ∈ plan.unanswered, real < index → real ∈ plan.arrived) : Polls plan index now (.production, plan)
  | ranOut (out : (plan.timer index now).1 + (plan.timer index now).2 ≤ now) :
      Polls plan index now (.none,
        { plan with
          heldSince := plan.heldSince.filter fun held => held.1 ≠ index
          ackHold := min ((plan.timer index now).2 * 2) ackHoldMaxMs })
  | waits (open_below : ¬ ∀ real ∈ plan.openReal, index < real)
      (absent : ¬ ((∃ real ∈ plan.unanswered, real < index) ∧
        ∀ real ∈ plan.unanswered, real < index → real ∈ plan.arrived))
      (left : now < (plan.timer index now).1 + (plan.timer index now).2) (held : List (ℕ × ℕ × ℕ))
      (timers : (held = plan.heldSince ∧ (index, plan.timer index now) ∈ plan.heldSince) ∨
        held = (index, plan.timer index now) :: plan.heldSince ∧ plan.timer index now = (now, plan.ackHold) ∧
          ∀ entry ∈ plan.heldSince, entry.1 ≠ index) :
      Polls plan index now (.acknowledgement, { plan with heldSince := held })

theorem emptyHold_polls (plan : Plan) (index now : ℕ) : Polls plan index now (plan.emptyHold index now) := by
  unfold Plan.emptyHold
  split
  · next above => exact .acknowledged above
  · next open_below =>
    split
    · next here => exact .production here.1 here.2
    · next absent =>
      have timer : (((plan.heldSince.find? fun held => decide (held.1 = index)).map Prod.snd).getD (now, plan.ackHold)) =
          plan.timer index now := rfl
      dsimp only
      rw [timer]
      split
      · next out => exact .ranOut out
      · next left =>
        refine .waits open_below absent (Nat.lt_of_not_le left) _ ?_
        cases found : plan.heldSince.find? fun held => decide (held.1 = index) with
        | none =>
          have fresh : plan.timer index now = (now, plan.ackHold) := by rw [Plan.timer, found]; rfl
          refine .inr ⟨?_, fresh, fun entry member => ?_⟩
          · rw [fresh]
            rfl
          · simpa using List.find?_eq_none.mp found entry member
        | some entry =>
          have known : plan.timer index now = entry.2 := by rw [Plan.timer, found]; rfl
          have same : entry.1 = index := by simpa using List.find?_some found
          refine .inl ⟨rfl, ?_⟩
          rw [known, ← same]
          exact List.mem_of_find?_eq_some found

/-- A held index: something is open below it, the producer is not what it waits for, and its timer runs. -/
structure Held (plan : Plan) (index since length : ℕ) : Prop where
  openBelow : ¬ ∀ real ∈ plan.openReal, index < real
  absent : ¬ ((∃ real ∈ plan.unanswered, real < index) ∧
    ∀ real ∈ plan.unanswered, real < index → real ∈ plan.arrived)
  timer : ∀ now, plan.timer index now = (since, length)

/-- An index told to wait for its timer is held. -/
theorem held_of_waits (waits : (plan.emptyHold index now).1 = .acknowledgement) :
    Held (plan.emptyHold index now).2 index (plan.timer index now).1 (plan.timer index now).2 := by
  have polls := emptyHold_polls plan index now
  generalize plan.emptyHold index now = result at waits polls
  cases polls with
  | acknowledged => cases waits
  | production => cases waits
  | ranOut => cases waits
  | waits open_below absent _ held timers =>
    refine ⟨open_below, absent, fun later => ?_⟩
    rcases timers with ⟨rfl, known⟩ | ⟨rfl, _, _⟩
    · show plan.timer index later = plan.timer index now
      unfold Plan.timer
      cases found : plan.heldSince.find? fun held => Decidable.decide (held.1 = index) with
      | none => simpa using List.find?_eq_none.mp found _ known
      | some entry => rfl
    · simp [Plan.timer]

/-- A held index that is polled is answered once its timer has run out, and waits as it did before. -/
theorem Held.poll {since length : ℕ} (held : Held plan index since length) (now : ℕ) :
    (since + length ≤ now → (plan.emptyHold index now).1 = .none) ∧
      (now < since + length → plan.emptyHold index now = (.acknowledgement, plan)) := by
  have polls := emptyHold_polls plan index now
  have timer := held.timer now
  generalize plan.emptyHold index now = result at polls
  cases polls with
  | acknowledged above => exact absurd above held.openBelow
  | production below here => exact absurd ⟨below, here⟩ held.absent
  | ranOut out =>
    rw [timer] at out
    exact ⟨fun _ => rfl, fun left => absurd out (Nat.not_le_of_lt left)⟩
  | waits _ _ left heldSince timers =>
    rw [timer] at left timers
    refine ⟨fun out => absurd left (Nat.not_lt_of_le out), fun _ => ?_⟩
    rcases timers with ⟨rfl, _⟩ | ⟨_, fresh, absent⟩
    · rfl
    · -- a timer that does not depend on the reading was there before
      have later := held.timer (now + 1)
      have unknown : plan.heldSince.find? (fun held => Decidable.decide (held.1 = index)) = none :=
        List.find?_eq_none.mpr fun entry member => by simpa using absent entry member
      rw [Plan.timer, unknown] at timer later
      have : now = now + 1 := congrArg Prod.fst (timer.trans later.symm)
      omega

/-! ## Timers -/

/-- A reading in milliseconds is far below 64 bits. -/
theorem ClockReading.ms_lt (reading : ClockReading) : reading.ms < 2 ^ 44 := by
  have := reading.fits
  unfold ClockReading.ms
  omega

/-- The length of a hold, and of every timer, is between the two bounds; its end fits 64 bits. -/
structure Lengths (plan : Plan) : Prop where
  hold : ackHoldMs ≤ plan.ackHold ∧ plan.ackHold ≤ ackHoldMaxMs
  timers : ∀ entry ∈ plan.heldSince, ackHoldMs ≤ entry.2.2 ∧ entry.2.2 ≤ ackHoldMaxMs
  since : ∀ entry ∈ plan.heldSince, entry.2.1 < 2 ^ 44

/-- The sum a timer is compared through does not wrap. -/
theorem Lengths.fits (lengths : Lengths plan) {entry : ℕ × ℕ × ℕ} (held : entry ∈ plan.heldSince) :
    entry.2.1 + entry.2.2 < 2 ^ 64 := by
  have since := lengths.since entry held
  have length := (lengths.timers entry held).2
  unfold ackHoldMaxMs at length
  omega

theorem lengths_opened (start cap : UInt64) : Lengths (Ledger.opened start cap).plan :=
  ⟨⟨Nat.le_refl ackHoldMs, (by decide : ackHoldMs ≤ ackHoldMaxMs)⟩, fun _ member => (nomatch member),
    fun _ member => (nomatch member)⟩

theorem Lengths.timer (lengths : Lengths plan) (index now : ℕ) :
    ackHoldMs ≤ (plan.timer index now).2 ∧ (plan.timer index now).2 ≤ ackHoldMaxMs := by
  unfold Plan.timer
  cases found : plan.heldSince.find? fun held => Decidable.decide (held.1 = index) with
  | none => exact lengths.hold
  | some entry => exact lengths.timers entry (List.mem_of_find?_eq_some found)

/-- A call that only drops timers and resets the length keeps the bounds. -/
theorem Lengths.mono (lengths : Lengths plan) {after : Plan} (held : after.heldSince ⊆ plan.heldSince)
    (hold : after.ackHold = plan.ackHold ∨ after.ackHold = ackHoldMs) : Lengths after where
  hold := by
    rcases hold with same | reset
    · rw [same]
      exact lengths.hold
    · rw [reset]
      decide
  timers entry member := lengths.timers entry (held member)
  since entry member := lengths.since entry (held member)

theorem Lengths.emptyHold (lengths : Lengths plan) (index : ℕ) (reading : ClockReading) :
    Lengths (plan.emptyHold index reading.ms).2 := by
  have timer := lengths.timer index reading.ms
  generalize polled : plan.emptyHold index reading.ms = result
  have polls := emptyHold_polls plan index reading.ms
  rw [polled] at polls
  cases polls with
  | acknowledged => exact lengths.mono (List.filter_subset_self _) (.inl rfl)
  | production => exact lengths
  | ranOut =>
    refine ⟨?_, fun entry member => lengths.timers entry (List.mem_of_mem_filter member),
      fun entry member => lengths.since entry (List.mem_of_mem_filter member)⟩
    unfold ackHoldMs ackHoldMaxMs at *
    exact ⟨by dsimp only; omega, Nat.min_le_right _ _⟩
  | waits _ _ _ held timers =>
    rcases timers with ⟨rfl, _⟩ | ⟨rfl, fresh, _⟩
    · exact ⟨lengths.hold, lengths.timers, lengths.since⟩
    · refine ⟨lengths.hold, fun entry member => ?_, fun entry member => ?_⟩
      · rcases List.mem_cons.mp member with rfl | member
        · exact timer
        · exact lengths.timers entry member
      · rcases List.mem_cons.mp member with rfl | member
        · rw [fresh]
          exact reading.ms_lt
        · exact lengths.since entry member

variable {ledger : Ledger}

/-- Timers come from polls only. -/
theorem Books.step_timers (books : Books ledger) (request : Request) (other : ∀ index now, request ≠ .emptyHold index now) :
    (ledger.step request).plan.heldSince ⊆ ledger.plan.heldSince ∧
      ((ledger.step request).plan.ackHold = ledger.plan.ackHold ∨ (ledger.step request).plan.ackHold = ackHoldMs) := by
  cases request with
  | fetch index ack first =>
    rcases Nat.eq_zero_or_pos ledger.plan.width with none | positive
    · rw [books.unwindowed none]
      exact ⟨List.Subset.refl _, .inl rfl⟩
    · have fetched := books.fetched positive index ack first
      exact ⟨fetched.heldSince, fetched.ackHold⟩
  | answered index => exact ⟨List.Subset.refl _, .inl rfl⟩
  | emptyHold index now => exact absurd rfl (other index now)
  | close => exact ⟨List.Subset.refl _, .inl rfl⟩

theorem Lengths.step (lengths : Lengths ledger.plan) (books : Books ledger) (request : Request) :
    Lengths (ledger.step request).plan := by
  cases request with
  | emptyHold index now => exact lengths.emptyHold index.toNat now
  | fetch index ack first =>
    obtain ⟨held, hold⟩ := books.step_timers (.fetch index ack first) (by simp)
    exact lengths.mono held hold
  | answered index => exact lengths.mono (List.Subset.refl _) (.inl rfl)
  | close => exact lengths.mono (List.Subset.refl _) (.inl rfl)

theorem Lengths.run (lengths : Lengths ledger.plan) (books : Books ledger) (requests : List Request) :
    Lengths (ledger.run requests).plan := by
  induction requests generalizing ledger with
  | nil => exact lengths
  | cons request rest ih => exact ih (lengths.step books request) (books.step request)

/-- The timer of an index: the poll that began it, with the length in force then, was told to wait, and
the timer has stood since. -/
def Begun (ledger : Ledger) (requests : List Request) (index since length : ℕ) : Prop :=
  ∃ before polled reading after, requests = before ++ .emptyHold polled reading :: after ∧
    polled.toNat = index ∧ reading.ms = since ∧ (ledger.run before).plan.ackHold = length ∧
    ((ledger.run before).plan.emptyHold index since).1 = .acknowledgement ∧
    ∀ middle, middle <+: after →
      (index, since, length) ∈ (ledger.run (before ++ .emptyHold polled reading :: middle)).plan.heldSince

/-- A timer that stands after one more call was begun before it, or by it. -/
theorem Begun.snoc {requests : List Request} {index since length : ℕ} (begun : Begun ledger requests index since length)
    {request : Request} (stands : (index, since, length) ∈ (ledger.run (requests ++ [request])).plan.heldSince) :
    Begun ledger (requests ++ [request]) index since length := by
  obtain ⟨before, polled, reading, after, rfl, named, read, hold, told, kept⟩ := begun
  refine ⟨before, polled, reading, after ++ [request], by simp, named, read, hold, told, fun middle front => ?_⟩
  rcases List.prefix_concat_iff.mp front with rfl | front
  · simpa using stands
  · exact kept middle front

theorem heldSince_begun (start cap : UInt64) (requests : List Request) :
    ∀ entry ∈ ((Ledger.opened start cap).run requests).plan.heldSince,
      Begun (Ledger.opened start cap) requests entry.1 entry.2.1 entry.2.2 := by
  induction requests using List.reverseRecOn with
  | nil => exact fun _ member => (nomatch member)
  | append_singleton requests request ih =>
    intro entry member
    by_cases old : entry ∈ ((Ledger.opened start cap).run requests).plan.heldSince
    · exact (ih entry old).snoc member
    · have books := (books_opened start cap).run requests
      cases request with
      | emptyHold index now =>
        rw [run_snoc] at member
        change entry ∈ (((Ledger.opened start cap).run requests).plan.emptyHold index.toNat now.ms).2.heldSince at member
        generalize polled : ((Ledger.opened start cap).run requests).plan.emptyHold index.toNat now.ms = result at member
        have polls := emptyHold_polls ((Ledger.opened start cap).run requests).plan index.toNat now.ms
        rw [polled] at polls
        cases polls with
        | acknowledged => exact absurd (List.mem_of_mem_filter member) old
        | production => exact absurd member old
        | ranOut => exact absurd (List.mem_of_mem_filter member) old
        | waits _ _ _ held timers =>
          rcases timers with ⟨rfl, _⟩ | ⟨rfl, fresh, _⟩
          · exact absurd member old
          · rcases List.mem_cons.mp member with rfl | member
            · rw [fresh] at polled ⊢
              refine ⟨requests, index, now, [], rfl, rfl, rfl, rfl, ?_, ?_⟩
              · exact congrArg Prod.fst polled
              · intro middle front
                rw [List.prefix_nil.mp front, run_snoc]
                show _ ∈ (((Ledger.opened start cap).run requests).plan.emptyHold index.toNat now.ms).2.heldSince
                rw [polled]
                exact List.mem_cons_self
            · exact absurd member old
      | fetch index ack first =>
        rw [run_snoc] at member
        exact absurd ((books.step_timers (.fetch index ack first) (by simp)).1 member) old
      | answered index =>
        rw [run_snoc] at member
        exact absurd member old
      | close =>
        rw [run_snoc] at member
        exact absurd member old

/-! ## Answers -/

/-- What an answer to a poll of an empty index says of the batches below it. -/
structure HoldTells (start cap : UInt64) (requests : List Request) (index : UInt64) (now : ClockReading) : Prop where
  /-- The producer is waited for only with every unanswered batch below asked for. -/
  production : let ledger := (Ledger.opened start cap).run requests
    (ledger.plan.emptyHold index.toNat now.ms).1 = .production →
      (∃ row ∈ ledger.waiting, row < index.toNat) ∧
        ∀ row ∈ ledger.waiting, row < index.toNat → row ∈ ledger.named
  /-- An index is answered only with every row below it acknowledged, or when its timer has run out. -/
  released : let ledger := (Ledger.opened start cap).run requests
    (ledger.plan.emptyHold index.toNat now.ms).1 = .none →
      (∀ row ∈ ledger.rows, row < index.toNat → row ≤ ledger.plan.acked) ∨
        ∃ since length, Begun (Ledger.opened start cap) requests index.toNat since length ∧
          ackHoldMs ≤ length ∧ length ≤ ackHoldMaxMs ∧ since + length ≤ now.ms

/-- An index waits for the producer. -/
private theorem production_tells (books : Books ledger)
    (told : (ledger.plan.emptyHold index now).1 = .production) :
    (∃ row ∈ ledger.waiting, row < index) ∧ ∀ row ∈ ledger.waiting, row < index → row ∈ ledger.named := by
  have polls := emptyHold_polls ledger.plan index now
  have waiting : ledger.plan.unanswered = ledger.waiting := books.unanswered
  generalize ledger.plan.emptyHold index now = result at polls told
  cases polls with
  | production below here =>
    rw [waiting] at below here
    exact ⟨below, fun row waits low => (Finset.mem_inter.mp (books.arrived (here row waits low))).2⟩
  | acknowledged => cases told
  | ranOut => cases told
  | waits => cases told

/-- An index is released. -/
private theorem released_tells (books : Books ledger) (lengths : Lengths ledger.plan)
    (told : (ledger.plan.emptyHold index now).1 = .none) :
    (∀ row ∈ ledger.rows, row < index → row ≤ ledger.plan.acked) ∨
      ∃ entry ∈ ledger.plan.heldSince, entry.1 = index ∧ ackHoldMs ≤ entry.2.2 ∧ entry.2.2 ≤ ackHoldMaxMs ∧
        entry.2.1 + entry.2.2 ≤ now := by
  have polls := emptyHold_polls ledger.plan index now
  generalize ledger.plan.emptyHold index now = result at polls told
  cases polls with
  | acknowledged above =>
    refine .inl fun row decided low => ?_
    by_contra beyond
    have notAcked : row ∉ ledger.acknowledged := fun acked =>
      beyond (Finset.mem_filter.mp (books.acknowledged acked)).2
    have isOpen : row ∈ ledger.plan.openReal := books.openReal ▸ Finset.mem_sdiff.mpr ⟨decided, notAcked⟩
    exact absurd (above row isOpen) (Nat.not_lt_of_lt low)
  | ranOut out =>
    have length := lengths.timer index now
    unfold Plan.timer at out length
    cases found : ledger.plan.heldSince.find? fun held => Decidable.decide (held.1 = index) with
    | none =>
      -- a timer that begins now has not run out
      rw [found] at out length
      have positive : 0 < ackHoldMs := by decide
      simp only [Option.map_none, Option.getD_none] at out length
      omega
    | some entry =>
      rw [found] at out length
      have same : entry.1 = index := by simpa using List.find?_some found
      exact .inr ⟨entry, List.mem_of_find?_eq_some found, same, length.1, length.2, out⟩
  | production => cases told
  | waits => cases told

theorem holdTells (start cap : UInt64) (requests : List Request) (index : UInt64) (now : ClockReading) :
    HoldTells start cap requests index now := by
  have books := (books_opened start cap).run requests
  have lengths := (lengths_opened start cap).run (books_opened start cap) requests
  refine ⟨production_tells books, fun told => ?_⟩
  rcases released_tells books lengths told with acknowledged | ⟨entry, stands, same, least, most, out⟩
  · exact .inl acknowledged
  · exact .inr ⟨_, _, same ▸ heldSince_begun start cap requests entry stands, least, most, out⟩

/-- A held index that is only polled is answered by the first poll past its timer. -/
theorem Held.answered {index : UInt64} {since length : ℕ} (held : Held ledger.plan index.toNat since length)
    (times : List ClockReading) (last : ClockReading) (past : since + length ≤ last.ms) :
    ∃ middle time after, times ++ [last] = middle ++ time :: after ∧
      ((ledger.run (middle.map (.emptyHold index))).plan.emptyHold index.toNat time.ms).1 = .none := by
  induction times with
  | nil => exact ⟨[], last, [], rfl, (held.poll last.ms).1 past⟩
  | cons time rest ih =>
    by_cases out : since + length ≤ time.ms
    · exact ⟨[], time, rest ++ [last], rfl, (held.poll time.ms).1 out⟩
    · obtain ⟨middle, later, after, split, told⟩ := ih
      have waits := (held.poll time.ms).2 (Nat.lt_of_not_le out)
      have same : ledger.step (.emptyHold index time) = ledger := by
        show ({ ledger with plan := (ledger.plan.emptyHold index.toNat time.ms).2 } : Ledger) = ledger
        rw [waits]
      refine ⟨time :: middle, later, after, congrArg (time :: ·) split, ?_⟩
      rw [List.map_cons]
      show (((ledger.step (.emptyHold index time)).run _).plan.emptyHold _ _).1 = _
      rw [same]
      exact told

/-- Empty answers are held for the batches below them and never for ever: the answers say what they
should, and an index that is polled with no other call is answered by the time the longest hold has
passed since it was first told to wait for its timer. -/
theorem empty_answers_released (start cap : UInt64) (requests : List Request) (index : UInt64) :
    (∀ now, HoldTells start cap requests index now) ∧
      ∀ (began : ClockReading) (times : List ClockReading) (last : ClockReading),
        ClockForward (requests ++ (began :: (times ++ [last])).map (.emptyHold index)) →
        (((Ledger.opened start cap).run requests).plan.emptyHold index.toNat began.ms).1 = .acknowledgement →
        began.ms + ackHoldMaxMs ≤ last.ms →
        ∃ middle time after, times ++ [last] = middle ++ time :: after ∧
          (((Ledger.opened start cap).run (requests ++ (began :: middle).map (.emptyHold index))).plan.emptyHold
            index.toNat time.ms).1 = .none := by
  refine ⟨holdTells start cap requests index, fun began times last forward waits elapsed => ?_⟩
  have lengths := (lengths_opened start cap).run (books_opened start cap) requests
  have begun := heldSince_begun start cap requests
  have held := held_of_waits waits
  have length := (lengths.timer index.toNat began.ms).2
  have since : (((Ledger.opened start cap).run requests).plan.timer index.toNat began.ms).1 ≤ began.ms := by
    unfold Plan.timer
    cases found : ((Ledger.opened start cap).run requests).plan.heldSince.find? fun held =>
        Decidable.decide (held.1 = index.toNat) with
    | none => exact Nat.le_refl _
    | some entry =>
      obtain ⟨before, polled, reading, after, earlier, _, read, _⟩ := begun entry (List.mem_of_find?_eq_some found)
      rw [ClockForward, List.filterMap_append, List.pairwise_append] at forward
      have order := forward.2.2 reading (by rw [earlier]; simp [Request.reading]) began (by simp [Request.reading])
      rw [read] at order
      exact order
  have heldNow : Held (((Ledger.opened start cap).run requests).step (.emptyHold index began)).plan index.toNat _ _ := held
  obtain ⟨middle, time, after, split, told⟩ := heldNow.answered times last (by omega)
  refine ⟨middle, time, after, split, ?_⟩
  rw [List.map_cons, run_append]
  exact told

/-- With a window of one, index 2 is empty and index 1's FETCH is not here: index 2 waits for its timer,
and is answered 600 ms later. -/
theorem empty_answers_released_example :
    ∃ middle time after, [ClockReading.mk 600000000 (by decide)] = middle ++ time :: after ∧
      (((Ledger.opened 1 0).run ([.fetch 2 0 0] ++
        (ClockReading.mk 0 (by decide) :: middle).map (.emptyHold 2))).plan.emptyHold 2 time.ms).1 = .none :=
  (empty_answers_released 1 0 [.fetch 2 0 0] 2).2 ⟨0, by decide⟩ [] ⟨600000000, by decide⟩ (by decide) (by decide)
    (by decide)

end DuckAcl.FetchWindow
