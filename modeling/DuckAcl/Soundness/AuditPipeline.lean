import Mathlib
import DuckAcl.Library.Bags
import DuckAcl.Model.AuditPipeline

/-! # No audit record vanishes uncounted

The events handled, the one in the thread's hands and those queued form one line: `Emit` adds at its end,
and until the backlog is abandoned every other step only moves the borders in it. A recorded event is in
the line once or counted as dropped once, as long as no `Emit` comes after `Stop` and nothing is dropped
that the rate limit counted already. A `Flush` that waits for the line to pass its target may trust it; one
that is let go because of `Stop` may not.
-/

namespace DuckAcl

open Runs

/-! ## Where an event is -/

/-- The event in the thread's hands, until it is handled. -/
def AuditWorker.hand : AuditWorker → List AuditEvent
  | .holding event => [event]
  | _ => []

/-- 1 for a recorded event of this call. -/
def AuditEvent.weight (call : ℕ) (event : AuditEvent) : ℕ := if event.call = call ∧ event.recorded = true then 1 else 0

/-- How many of the events are records of this call. -/
def tally (call : ℕ) (events : List AuditEvent) : ℕ := (events.map (AuditEvent.weight call)).sum

theorem tally_append (call : ℕ) (first second : List AuditEvent) :
    tally call (first ++ second) = tally call first + tally call second := by
  simp [tally]

theorem tally_singleton (call : ℕ) (event : AuditEvent) : tally call [event] = event.weight call := by
  simp [tally]

/-- A call none of the events is of. -/
theorem tally_eq_zero {call : ℕ} {events : List AuditEvent} (none : ∀ event ∈ events, event.call ≠ call) :
    tally call events = 0 := by
  refine List.sum_eq_zero_iff_forall_eq_nat.mpr fun weight member => ?_
  obtain ⟨event, among, rfl⟩ := List.mem_map.mp member
  rw [AuditEvent.weight, if_neg fun same => none event among same.1]

/-- When every event of the call is recorded, all of them are tallied. -/
theorem tally_eq_count {call : ℕ} {events : List AuditEvent}
    (recorded : ∀ event ∈ events, event.call = call → event.recorded = true) :
    tally call events = (events.map (·.call)).count call := by
  induction events with
  | nil => rfl
  | cons event rest ih =>
    have later := ih fun other member => recorded other (List.mem_cons_of_mem _ member)
    have own := recorded event List.mem_cons_self
    rw [← List.singleton_append, tally_append, tally_singleton, later, List.map_append, List.count_append,
      AuditEvent.weight]
    by_cases same : event.call = call
    · simp [same, own same]
    · simp [same]

namespace AuditState

/-- The events handled, in hand and queued, in order. -/
def line (state : AuditState) : List AuditEvent := state.log ++ state.pipeline.worker.hand ++ state.pipeline.queue

/-- The events of the `Emit` calls that have not reached the queue. -/
def coming (state : AuditState) : List AuditEvent := state.emits.map (·.event)

/-- The rate limit counted the event. -/
def Limited (state : AuditState) (event : AuditEvent) : Prop := (event.call, AuditDrop.rateLimit) ∈ state.drops

/-- The thread has nothing left to do: nothing is queued, nor in its hands. -/
def Idle (state : AuditState) : Prop := state.pipeline.queue = [] ∧ state.pipeline.worker.hand = []

instance (state : AuditState) (event : AuditEvent) : Decidable (state.Limited event) :=
  inferInstanceAs (Decidable (_ ∈ _))

instance (state : AuditState) : Decidable state.Idle := inferInstanceAs (Decidable (_ ∧ _))

/-! ## The condition -/

/-- No recorded event comes after `Stop`, and one that the rate limit counted finds room and a thread. -/
def Timely (state : AuditState) (emit : EmitCall) (starts : Bool) : Prop :=
  (state.pipeline.stopping = true → emit.event.recorded = false) ∧
    (state.Limited emit.event → state.pipeline.stopping = false →
      ¬(0 < emit.cap ∧ emit.cap ≤ state.pipeline.queue.length) ∧ (state.pipeline.joinable = true ∨ starts = true))

/-- A `Flush` is not let go by `Stop` before the events it waits for. -/
def Patient (state : AuditState) (flush : FlushCall) : Prop :=
  state.pipeline.stopping = true → flush.target ≤ state.pipeline.handled ∨ state.Idle

/-- The condition on a step. -/
def Meets (state : AuditState) : AuditAction → Prop
  | .enqueue index _ starts => ∀ emit ∈ state.emits[index]?, state.Timely emit starts
  | .take => ∀ event ∈ state.pipeline.abandoned, ¬ state.Limited event
  | .flush => state.Patient state.newFlush
  | .flushWakes index _ => ∀ flush ∈ state.flushes[index]?, state.Patient flush
  | _ => True

instance (state : AuditState) (emit : EmitCall) (starts : Bool) : Decidable (state.Timely emit starts) :=
  inferInstanceAs (Decidable (_ ∧ _))

instance (state : AuditState) (flush : FlushCall) : Decidable (state.Patient flush) :=
  inferInstanceAs (Decidable (_ → _))

instance (state : AuditState) (action : AuditAction) : Decidable (state.Meets action) :=
  match action with
  | .enqueue index _ starts => inferInstanceAs (Decidable (∀ emit ∈ state.emits[index]?, state.Timely emit starts))
  | .take => inferInstanceAs (Decidable (∀ event ∈ state.pipeline.abandoned, ¬ state.Limited event))
  | .flush => inferInstanceAs (Decidable (state.Patient state.newFlush))
  | .flushWakes index _ => inferInstanceAs (Decidable (∀ flush ∈ state.flushes[index]?, state.Patient flush))
  | .emit _ _ _ _ | .handle | .count | .stop | .stopWakes _ _ | .join _ _ => .isTrue trivial

end AuditState

/-! ## The invariant -/

/-- What most steps leave as it is: the events on their way to the line, the line, and the history. -/
structure AuditBooks where
  coming : List AuditEvent
  line : List AuditEvent
  calls : ℕ
  asked : List ℕ
  entered : List ℕ
  drops : List (ℕ × AuditDrop)
  results : List (ℕ × ℕ)
  seq : ℕ

/-- How often the event of a call was counted as dropped. -/
def AuditBooks.dropCount (books : AuditBooks) (call : ℕ) : ℕ := (books.drops.map Prod.fst).count call

/-- What holds of the books in every state of a run that meets the condition. -/
structure AuditBooks.Kept (books : AuditBooks) : Prop where
  /-- a recorded event is in one place, or counted as dropped -/
  placed : ∀ call ∈ books.asked, tally call books.coming + tally call books.line + books.dropCount call = 1
  /-- an event passed recorded is so still, or the rate limit counted it -/
  marked : ∀ event ∈ books.coming ++ books.line, event.call ∈ books.asked →
    event.recorded = true ∨ (event.call, AuditDrop.rateLimit) ∈ books.drops
  known : ∀ event ∈ books.coming ++ books.line, event.call < books.calls
  askedKnown : ∀ call ∈ books.asked, call < books.calls
  dropsKnown : ∀ call ∈ books.drops.map Prod.fst, call < books.calls
  ordered : (books.line.map (·.seq)).Pairwise (· < ·)
  numbered : ∀ event ∈ books.line, event.seq ≤ books.seq
  answered : ∀ event ∈ books.line, (event.call, event.seq) ∈ books.results
  answeredOnce : (books.results.map Prod.fst ++ books.coming.map (·.call)).Nodup
  answeredKnown : ∀ call ∈ books.results.map Prod.fst, call < books.calls

/-- 1 while an event is handled and not counted. -/
def AuditWorker.uncounted : AuditWorker → ℕ
  | .told _ => 1
  | _ => 0

namespace AuditBooks

variable {books : AuditBooks}

/-- A new call's event joins those on their way; the rate limit may have counted it. -/
theorem Kept.emit (kept : books.Kept) (event : AuditEvent) (recorded : Bool) {limited : Bool} (call : event.call = books.calls)
    (limits : limited = true → recorded = true) (mark : event.recorded = (recorded && !limited)) :
    Kept
      { books with
        coming := books.coming ++ [event]
        calls := books.calls + 1
        asked := if recorded then books.asked ++ [books.calls] else books.asked
        drops := if limited then books.drops ++ [(books.calls, .rateLimit)] else books.drops } := by
  have newEvent : ∀ other ∈ books.coming ++ books.line, other.call ≠ books.calls :=
    fun other member => (kept.known other member).ne
  have newDrop : books.dropCount books.calls = 0 :=
    List.count_eq_zero.mpr fun member => (kept.dropsKnown _ member).ne rfl
  have newAsked : books.calls ∉ books.asked := fun member => (kept.askedKnown _ member).ne rfl
  have split : ∀ call, AuditBooks.dropCount
      { books with drops := if limited then books.drops ++ [(books.calls, .rateLimit)] else books.drops } call =
        books.dropCount call + if limited = true ∧ books.calls = call then 1 else 0 := by
    intro call
    cases limited <;> simp [dropCount, List.count_singleton]
  have members : ∀ other ∈ (books.coming ++ [event]) ++ books.line, other = event ∨ other ∈ books.coming ++ books.line := by
    intro other member
    simp only [List.mem_append, List.mem_singleton] at member ⊢
    tauto
  refine ⟨?_, ?_, ?_, ?_, ?_, kept.ordered, kept.numbered, kept.answered, ?_, ?_⟩
  · intro number asks
    change tally number (books.coming ++ [event]) + tally number books.line +
      AuditBooks.dropCount { books with drops := _ } number = 1
    rw [split, tally_append, tally_singleton, AuditEvent.weight, call]
    by_cases own : books.calls = number
    · subst own
      have first : recorded = true := by
        by_contra unrecorded
        rw [Bool.not_eq_true] at unrecorded
        simp only [unrecorded, Bool.false_eq_true, ↓reduceIte] at asks
        exact newAsked asks
      rw [tally_eq_zero fun other member => newEvent other (List.mem_append_left _ member),
        tally_eq_zero fun other member => newEvent other (List.mem_append_right _ member), newDrop, mark, first]
      cases limited <;> simp
    · have before : number ∈ books.asked := by
        cases recorded with
        | false => exact asks
        | true =>
          rcases List.mem_append.mp asks with old | new
          · exact old
          · exact absurd (List.mem_singleton.mp new).symm own
      have placed := kept.placed number before
      simp only [own, false_and, and_false, ↓reduceIte]
      omega
  · intro other member asks
    rcases members other member with rfl | old
    · cases limited with
      | false =>
        have first : recorded = true := by
          by_contra unrecorded
          rw [Bool.not_eq_true] at unrecorded
          simp only [unrecorded, Bool.false_eq_true, ↓reduceIte, call] at asks
          exact newAsked asks
        exact .inl (by rw [mark, first]; rfl)
      | true => exact .inr (by simp [call])
    · have before : other.call ∈ books.asked := by
        cases recorded with
        | false => exact asks
        | true =>
          rcases List.mem_append.mp asks with old | new
          · exact old
          · exact absurd (List.mem_singleton.mp new) (newEvent other ‹_›)
      refine (kept.marked other old before).imp_right fun drop => ?_
      cases limited with
      | false => exact drop
      | true => exact List.mem_append_left _ drop
  · intro other member
    rcases members other member with rfl | old
    · exact call ▸ Nat.lt_succ_self _
    · exact (kept.known other old).trans (Nat.lt_succ_self _)
  · intro number asks
    cases recorded with
    | false => exact (kept.askedKnown number asks).trans (Nat.lt_succ_self _)
    | true =>
      rcases List.mem_append.mp asks with old | new
      · exact (kept.askedKnown number old).trans (Nat.lt_succ_self _)
      · exact List.mem_singleton.mp new ▸ Nat.lt_succ_self _
  · intro number dropped
    cases limited with
    | false => exact (kept.dropsKnown number dropped).trans (Nat.lt_succ_self _)
    | true =>
      simp only [↓reduceIte, List.map_append, List.map_cons, List.map_nil, List.mem_append, List.mem_singleton] at dropped
      rcases dropped with old | rfl
      · exact (kept.dropsKnown number old).trans (Nat.lt_succ_self _)
      · exact Nat.lt_succ_self _
  · change (books.results.map Prod.fst ++ (books.coming ++ [event]).map (·.call)).Nodup
    rw [List.map_append, ← List.append_assoc, List.nodup_append]
    refine ⟨kept.answeredOnce, List.nodup_singleton _, ?_⟩
    rintro number old _ new rfl
    obtain rfl := List.mem_singleton.mp new
    change event.call ∈ _ at old
    rw [call] at old
    rcases List.mem_append.mp old with answered | comes
    · exact (kept.answeredKnown _ answered).ne rfl
    · obtain ⟨other, member, same⟩ := List.mem_map.mp comes
      exact newEvent other (List.mem_append_left _ member) same
  · exact fun number answered => (kept.answeredKnown number answered).trans (Nat.lt_succ_self _)

/-- What a call's locked section does to the events on their way: its own leaves, and it has its answer. -/
private theorem Kept.answer (kept : books.Kept) {index : ℕ} {event : AuditEvent}
    (found : books.coming[index]? = some event) (result : ℕ) :
    ((books.results ++ [(event.call, result)]).map Prod.fst ++ (books.coming.eraseIdx index).map (·.call)).Nodup ∧
      ∀ call ∈ (books.results ++ [(event.call, result)]).map Prod.fst, call < books.calls := by
  obtain ⟨within, rfl⟩ := List.getElem?_eq_some_iff.mp found
  constructor
  · refine (List.Perm.nodup_iff ?_).mpr kept.answeredOnce
    have perm := (List.getElem_cons_eraseIdx_perm within).map (·.call)
    rw [List.map_append, List.append_assoc]
    exact List.Perm.append_left _ perm
  · intro call answered
    rw [List.map_append, List.mem_append] at answered
    rcases answered with old | new
    · exact kept.answeredKnown call old
    · obtain rfl := List.mem_singleton.mp new
      exact kept.known _ (List.mem_append_left _ (List.getElem_mem within))

/-- A section that queues nothing: the event is ignored, or counted as dropped. -/
theorem Kept.leave (kept : books.Kept) {index : ℕ} {event : AuditEvent} (found : books.coming[index]? = some event)
    (dropped : Bool) (seq : ℕ) (later : books.seq ≤ seq) (ignored : dropped = false → event.recorded = false)
    (unlimited : dropped = true → (event.call, AuditDrop.rateLimit) ∉ books.drops) (result : ℕ) :
    Kept
      { books with
        coming := books.coming.eraseIdx index
        drops := if dropped then books.drops ++ [(event.call, .queue)] else books.drops
        results := books.results ++ [(event.call, result)]
        seq := seq } := by
  have fewer : ∀ other ∈ books.coming.eraseIdx index ++ books.line, other ∈ books.coming ++ books.line := by
    intro other member
    rcases List.mem_append.mp member with comes | there
    · exact List.mem_append_left _ ((List.eraseIdx_sublist _ _).subset comes)
    · exact List.mem_append_right _ there
  have own : event ∈ books.coming ++ books.line := List.mem_append_left _ (List.mem_of_getElem? found)
  have more : ∀ drop ∈ books.drops, drop ∈ if dropped then books.drops ++ [(event.call, .queue)] else books.drops := by
    intro drop member
    cases dropped with
    | false => exact member
    | true => exact List.mem_append_left _ member
  obtain ⟨once, known⟩ := kept.answer found result
  refine ⟨?_, ?_, ?_, kept.askedKnown, ?_, kept.ordered, ?_, ?_, once, known⟩
  · intro call asks
    have placed := kept.placed call asks
    have sum := sum_map_eraseIdx (AuditEvent.weight call) found
    change tally call (books.coming.eraseIdx index) + event.weight call = tally call books.coming at sum
    have drops : AuditBooks.dropCount
        { books with drops := if dropped then books.drops ++ [(event.call, .queue)] else books.drops } call =
          books.dropCount call + if dropped = true ∧ event.call = call then 1 else 0 := by
      cases dropped <;> simp [dropCount, List.count_singleton]
    change tally call (books.coming.eraseIdx index) + tally call books.line + AuditBooks.dropCount
      { books with drops := if dropped then books.drops ++ [(event.call, .queue)] else books.drops } call = 1
    rw [drops]
    by_cases same : event.call = call
    · cases dropped with
      | false =>
        have weightless : event.weight call = 0 := by simp [AuditEvent.weight, ignored rfl]
        simp only [Bool.false_eq_true, false_and, ↓reduceIte]
        omega
      | true =>
        have recorded := (kept.marked event own (same ▸ asks)).resolve_right (unlimited rfl)
        have weighs : event.weight call = 1 := by simp [AuditEvent.weight, same, recorded]
        simp only [same, and_self, ↓reduceIte]
        omega
    · have weightless : event.weight call = 0 := by simp [AuditEvent.weight, same]
      simp only [same, and_false, ↓reduceIte]
      omega
  · exact fun other member asks => (kept.marked other (fewer other member) asks).imp_right (more _)
  · exact fun other member => kept.known other (fewer other member)
  · intro call counted
    cases dropped with
    | false => exact kept.dropsKnown call counted
    | true =>
      simp only [↓reduceIte, List.map_append, List.map_cons, List.map_nil, List.mem_append, List.mem_singleton] at counted
      rcases counted with old | rfl
      · exact kept.dropsKnown call old
      · exact kept.known event own
  · exact fun other member => (kept.numbered other member).trans later
  · exact fun other member => List.mem_append_left _ (kept.answered other member)

/-- A section that queues the event under the next number. -/
theorem Kept.queue (kept : books.Kept) {index : ℕ} {event : AuditEvent} (found : books.coming[index]? = some event)
    (now : ℤ) :
    Kept
      { books with
        coming := books.coming.eraseIdx index
        line := books.line ++ [{ event with tsUs := now, seq := books.seq + 1 }]
        entered := books.entered ++ [event.call]
        results := books.results ++ [(event.call, books.seq + 1)]
        seq := books.seq + 1 } := by
  have own : event ∈ books.coming ++ books.line := List.mem_append_left _ (List.mem_of_getElem? found)
  -- an event here is one of before, or the queued one, which is the event with its number
  have among : ∀ other ∈ books.coming.eraseIdx index ++
      (books.line ++ [{ event with tsUs := now, seq := books.seq + 1 }]),
      ∃ old ∈ books.coming ++ books.line, other.call = old.call ∧ other.recorded = old.recorded := by
    intro other member
    rw [List.mem_append, List.mem_append, List.mem_singleton] at member
    rcases member with comes | there | rfl
    · exact ⟨other, List.mem_append_left _ ((List.eraseIdx_sublist _ _).subset comes), rfl, rfl⟩
    · exact ⟨other, List.mem_append_right _ there, rfl, rfl⟩
    · exact ⟨event, own, rfl, rfl⟩
  obtain ⟨once, known⟩ := kept.answer found (books.seq + 1)
  refine ⟨?_, ?_, ?_, kept.askedKnown, kept.dropsKnown, ?_, ?_, ?_, once, known⟩
  · intro call asks
    have placed := kept.placed call asks
    have sum := sum_map_eraseIdx (AuditEvent.weight call) found
    change tally call (books.coming.eraseIdx index) + event.weight call = tally call books.coming at sum
    change tally call (books.coming.eraseIdx index) + tally call (books.line ++ [_]) + books.dropCount call = 1
    rw [tally_append, tally_singleton]
    change tally call (books.coming.eraseIdx index) + (tally call books.line + event.weight call) + books.dropCount call = 1
    omega
  · intro other member asks
    obtain ⟨old, there, call, recorded⟩ := among other member
    rw [call] at asks ⊢
    rw [recorded]
    exact kept.marked old there asks
  · intro other member
    obtain ⟨old, there, call, -⟩ := among other member
    rw [call]
    exact kept.known old there
  · change ((books.line ++ [_]).map AuditEvent.seq).Pairwise (· < ·)
    rw [List.map_append, List.pairwise_append]
    refine ⟨kept.ordered, List.pairwise_singleton _ _, ?_⟩
    intro number old last new
    obtain ⟨other, there, rfl⟩ := List.mem_map.mp old
    obtain rfl := List.mem_singleton.mp new
    exact Nat.lt_succ_of_le (kept.numbered other there)
  · intro other member
    rcases List.mem_append.mp member with old | new
    · exact (kept.numbered other old).trans (Nat.le_succ _)
    · obtain rfl := List.mem_singleton.mp new
      exact le_rfl
  · intro other member
    rcases List.mem_append.mp member with old | new
    · exact List.mem_append_left _ (kept.answered other old)
    · obtain rfl := List.mem_singleton.mp new
      exact List.mem_append_right _ List.mem_cons_self

/-- The thread drops the end of the line. -/
theorem Kept.abandon (kept : books.Kept) {front backlog : List AuditEvent} (line : books.line = front ++ backlog)
    (unlimited : ∀ event ∈ backlog, (event.call, AuditDrop.rateLimit) ∉ books.drops) :
    Kept { books with line := front, drops := books.drops ++ backlog.map fun event => (event.call, .queue) } := by
  have fewer : ∀ other ∈ books.coming ++ front, other ∈ books.coming ++ books.line := by
    intro other member
    rw [line, ← List.append_assoc]
    exact List.mem_append_left _ member
  have inLine : ∀ other ∈ backlog, other ∈ books.coming ++ books.line := by
    intro other member
    rw [line]
    exact List.mem_append_right _ (List.mem_append_right _ member)
  have shorter : ∀ other ∈ front, other ∈ books.line := fun other member => line ▸ List.mem_append_left _ member
  have calls : (backlog.map fun event => (event.call, AuditDrop.queue)).map Prod.fst = backlog.map (·.call) := by
    rw [List.map_map]
    rfl
  refine ⟨?_, ?_, ?_, kept.askedKnown, ?_, ?_, ?_, ?_, kept.answeredOnce, kept.answeredKnown⟩
  · intro call asks
    have placed := kept.placed call asks
    have counts : tally call backlog = (backlog.map (·.call)).count call := tally_eq_count fun event member same =>
      (kept.marked event (inLine event member) (same ▸ asks)).resolve_right (unlimited event member)
    rw [line, tally_append] at placed
    change tally call books.coming + tally call front + ((books.drops ++ _).map Prod.fst).count call = 1
    rw [List.map_append, List.count_append, calls, ← counts]
    change _ + _ + (books.dropCount call + _) = 1
    omega
  · exact fun other member asks => (kept.marked other (fewer other member) asks).imp_right (List.mem_append_left _)
  · exact fun other member => kept.known other (fewer other member)
  · intro call counted
    change call ∈ (books.drops ++ _).map Prod.fst at counted
    rw [List.map_append, List.mem_append, calls] at counted
    rcases counted with old | new
    · exact kept.dropsKnown call old
    · obtain ⟨event, member, rfl⟩ := List.mem_map.mp new
      exact kept.known event (inLine event member)
  · have ordered := kept.ordered
    rw [line, List.map_append] at ordered
    exact (List.pairwise_append.mp ordered).1
  · exact fun other member => kept.numbered other (shorter other member)
  · exact fun other member => kept.answered other (shorter other member)

end AuditBooks

namespace AuditState

def books (state : AuditState) : AuditBooks where
  coming := state.coming
  line := state.line
  calls := state.calls
  asked := state.asked
  entered := state.entered
  drops := state.drops
  results := state.results
  seq := state.pipeline.seq

/-- A call whose event was handled or counted as dropped. -/
def Done (state : AuditState) (call : ℕ) : Prop :=
  (∃ event ∈ state.log, event.call = call) ∨ call ∈ state.drops.map Prod.fst

/-- What holds in every state of a run that meets the condition. -/
structure Kept (state : AuditState) : Prop where
  books : state.books.Kept
  counted : state.pipeline.dropped = state.drops.length
  /-- the events queued are the line and those the thread dropped -/
  entered : ∃ gone, state.entered = state.line.map (·.call) ++ gone ∧ (∀ call ∈ gone, call ∈ state.drops.map Prod.fst) ∧
    (gone ≠ [] → state.pipeline.stopping = true)
  enqueued : state.pipeline.enqueued = state.entered.length
  handled : state.pipeline.handled + state.pipeline.worker.uncounted ≤ state.log.length
  targets : ∀ flush ∈ state.flushes, flush.before <+: state.entered ∧ flush.target = flush.before.length
  thread : state.pipeline.joinable = false → state.pipeline.stopping = true ∨ state.pipeline.worker = .absent
  stopped : state.stops ≠ [] → state.pipeline.stopping = true
  abandons : state.pipeline.abandon = true → state.pipeline.stopping = true
  drained : ∀ before ∈ state.drained, ∀ call ∈ before, state.Done call

theorem kept_initial : Kept {} := by
  constructor
  · constructor <;> simp [books, line, coming, AuditWorker.hand]
  all_goals simp [line, AuditWorker.hand, AuditWorker.uncounted]

variable {state : AuditState}

/-! ## `Emit` -/

/-- What the part of `Emit` before the queue does to the event and to the pipeline. -/
theorem limit_spec (pipeline : AuditPipeline) (event : AuditEvent) (perSecond second : ℤ) :
    ∃ buckets, ∃ limited : Bool, (limited = true → event.recorded = true) ∧
      pipeline.limit event perSecond second =
        ({ pipeline with denialBuckets := buckets, dropped := pipeline.dropped + limited.toNat },
          { event with recorded := event.recorded && !limited }, limited) := by
  unfold AuditPipeline.limit
  split_ifs with denied
  · obtain ⟨buckets, admitted, found⟩ : ∃ buckets admitted, pipeline.admitDenial event perSecond second =
        ({ pipeline with denialBuckets := buckets }, admitted) := by
      unfold AuditPipeline.admitDenial
      split
      · exact ⟨pipeline.denialBuckets, true, rfl⟩
      · exact ⟨_, _, rfl⟩
    have recorded : event.recorded = true := by
      rw [Bool.and_eq_true] at denied
      exact denied.2
    rw [found]
    cases admitted with
    | true => exact ⟨buckets, false, by simp, by simp⟩
    | false => exact ⟨buckets, true, fun _ => recorded, by simp⟩
  · exact ⟨pipeline.denialBuckets, false, by simp, by simp⟩

theorem Done.more {next : AuditState} {call : ℕ} (done : state.Done call) (log : state.log <+: next.log)
    (drops : state.drops <+: next.drops) : next.Done call := by
  rcases done with ⟨event, member, same⟩ | dropped
  · exact .inl ⟨event, log.subset member, same⟩
  · exact .inr ((drops.map Prod.fst).subset dropped)

theorem Kept.emit (kept : state.Kept) (event : AuditEvent) (cap perSecond second : ℤ) :
    (state.emit event cap perSecond second).Kept := by
  obtain ⟨buckets, limited, limits, found⟩ :=
    limit_spec state.pipeline { event with call := state.calls } perSecond second
  have drops : state.drops <+: if limited then state.drops ++ [(state.calls, .rateLimit)] else state.drops := by
    split_ifs
    · exact List.prefix_append _ _
    · exact List.prefix_rfl
  obtain ⟨gone, entered, dropped, stopping⟩ := kept.entered
  unfold AuditState.emit
  rw [found]
  refine ⟨?_, ?_, ⟨gone, entered, ?_, stopping⟩, kept.enqueued, kept.handled, kept.targets, kept.thread, kept.stopped,
    kept.abandons, ?_⟩
  · have books := kept.books.emit { event with call := state.calls, recorded := event.recorded && !limited }
      event.recorded rfl limits rfl
    simpa only [AuditState.books, coming, List.map_append, List.map_cons, List.map_nil, line] using books
  · change state.pipeline.dropped + limited.toNat = _
    rw [kept.counted]
    cases limited <;> simp
  · exact fun call member => (drops.map Prod.fst).subset (dropped call member)
  · exact fun before member call among => (kept.drained before member call among).more List.prefix_rfl drops

/-- The locked section of `Emit` that queues nothing. -/
private theorem Kept.leave (kept : state.Kept) {index : ℕ} {emit : EmitCall} (found : state.emits[index]? = some emit)
    (dropped : Bool) {seq : ℕ} (later : state.pipeline.seq ≤ seq) (ignored : dropped = false → emit.event.recorded = false)
    (unlimited : dropped = true → ¬ state.Limited emit.event) :
    Kept
      { state with
        pipeline := { state.pipeline with seq := seq, dropped := state.pipeline.dropped + dropped.toNat }
        emits := state.emits.eraseIdx index
        drops := if dropped then state.drops ++ [(emit.event.call, .queue)] else state.drops
        results := state.results ++ [(emit.event.call, 0)] } := by
  have drops : state.drops <+: if dropped then state.drops ++ [(emit.event.call, .queue)] else state.drops := by
    split_ifs
    · exact List.prefix_append _ _
    · exact List.prefix_rfl
  have comes : state.books.coming[index]? = some emit.event := by
    change (state.emits.map _)[index]? = _
    rw [List.getElem?_map, found]
    rfl
  obtain ⟨gone, entered, counted, stopping⟩ := kept.entered
  refine ⟨?_, ?_, ⟨gone, entered, ?_, stopping⟩, kept.enqueued, kept.handled, kept.targets, kept.thread, kept.stopped,
    kept.abandons, ?_⟩
  · have books := kept.books.leave comes dropped seq later ignored unlimited 0
    simpa only [AuditState.books, coming, List.eraseIdx_map, line] using books
  · change state.pipeline.dropped + dropped.toNat = _
    rw [kept.counted]
    cases dropped <;> simp
  · exact fun call member => (drops.map Prod.fst).subset (counted call member)
  · exact fun before member call among => (kept.drained before member call among).more List.prefix_rfl drops

/-- The locked section of `Emit` that queues the event. -/
private theorem Kept.queue (kept : state.Kept) {index : ℕ} {emit : EmitCall} (found : state.emits[index]? = some emit)
    (now : ℤ) (running : state.pipeline.stopping = false) :
    Kept
      { state with
        pipeline :=
          { state.pipeline with
            seq := state.pipeline.seq + 1
            queue := state.pipeline.queue ++ [{ emit.event with tsUs := now, seq := state.pipeline.seq + 1 }]
            enqueued := state.pipeline.enqueued + 1
            worker := if state.pipeline.joinable then state.pipeline.worker else .waiting
            joinable := true }
        emits := state.emits.eraseIdx index
        entered := state.entered ++ [emit.event.call]
        results := state.results ++ [(emit.event.call, state.pipeline.seq + 1)] } := by
  have comes : state.books.coming[index]? = some emit.event := by
    change (state.emits.map _)[index]? = _
    rw [List.getElem?_map, found]
    rfl
  -- a thread is started only when there was none, so the hands stay as they are
  have worker : (if state.pipeline.joinable then state.pipeline.worker else .waiting).hand = state.pipeline.worker.hand ∧
      (if state.pipeline.joinable then state.pipeline.worker else .waiting).uncounted =
        state.pipeline.worker.uncounted := by
    split_ifs with joinable
    · exact ⟨rfl, rfl⟩
    · rcases kept.thread (by simpa using joinable) with stopping | absent
      · rw [running] at stopping
        cases stopping
      · rw [absent]
        exact ⟨rfl, rfl⟩
  obtain ⟨gone, entered, counted, stopping⟩ := kept.entered
  obtain rfl : gone = [] := by
    by_contra some
    rw [stopping some] at running
    cases running
  rw [List.append_nil] at entered
  refine ⟨?_, kept.counted, ⟨[], ?_, by simp, by simp⟩, ?_, ?_, ?_, by simp, kept.stopped, kept.abandons, kept.drained⟩
  · have books := kept.books.queue comes now
    simpa only [AuditState.books, coming, List.eraseIdx_map, line, worker.1, List.append_assoc] using books
  · simp only [line, worker.1, entered, List.map_append, List.map_cons, List.map_nil, List.append_nil, List.append_assoc]
  · change state.pipeline.enqueued + 1 = (state.entered ++ [_]).length
    rw [kept.enqueued, List.length_append]
    rfl
  · change state.pipeline.handled + AuditWorker.uncounted (if _ then _ else _) ≤ _
    rw [worker.2]
    exact kept.handled
  · intro flush member
    obtain ⟨before, target⟩ := kept.targets flush member
    exact ⟨before.trans (List.prefix_append _ _), target⟩

/-- The four ends of the locked section. -/
private theorem enqueue_cases (pipeline : AuditPipeline) (event : AuditEvent) (cap now : ℤ) (starts : Bool) :
    (pipeline.stopping = true ∧ pipeline.enqueue event cap now starts = (pipeline, .ignored)) ∨
      (pipeline.stopping = false ∧ (0 < cap ∧ cap ≤ pipeline.queue.length) ∧
        pipeline.enqueue event cap now starts = ({ pipeline with dropped := pipeline.dropped + 1 }, .dropped)) ∨
      (pipeline.stopping = false ∧ ¬(pipeline.joinable = true ∨ starts = true) ∧
        pipeline.enqueue event cap now starts =
          ({ pipeline with seq := pipeline.seq + 1, dropped := pipeline.dropped + 1 }, .dropped)) ∨
      (pipeline.stopping = false ∧
        pipeline.enqueue event cap now starts =
          ({ pipeline with
              seq := pipeline.seq + 1
              queue := pipeline.queue ++ [{ event with tsUs := now, seq := pipeline.seq + 1 }]
              enqueued := pipeline.enqueued + 1
              worker := if pipeline.joinable then pipeline.worker else .waiting
              joinable := true },
            .queued { event with tsUs := now, seq := pipeline.seq + 1 })) := by
  unfold AuditPipeline.enqueue
  cases stopping : pipeline.stopping with
  | true => exact .inl ⟨rfl, rfl⟩
  | false =>
    rw [if_neg (by simp)]
    split
    · rename_i full
      exact .inr (.inl ⟨rfl, full, rfl⟩)
    · dsimp only
      split
      · exact .inr (.inr (.inr ⟨rfl, rfl⟩))
      · rename_i refused
        exact .inr (.inr (.inl ⟨rfl, refused, rfl⟩))

theorem Kept.enqueue (kept : state.Kept) {index : ℕ} {emit : EmitCall} (found : state.emits[index]? = some emit) (now : ℤ)
    {starts : Bool} (timely : state.Timely emit starts) : (state.enqueue index emit now starts).Kept := by
  obtain ⟨early, room⟩ := timely
  unfold AuditState.enqueue
  rcases enqueue_cases state.pipeline emit.event emit.cap now starts with
    ⟨stopping, outcome⟩ | ⟨running, full, outcome⟩ | ⟨running, refused, outcome⟩ | ⟨running, outcome⟩
  · rw [outcome]
    exact kept.leave found false le_rfl (fun _ => early stopping) (by simp)
  · rw [outcome]
    exact kept.leave found true le_rfl (by simp) fun _ limited => (room limited running).1 full
  · rw [outcome]
    exact kept.leave found true (Nat.le_succ _) (by simp) fun _ limited => refused (room limited running).2
  · rw [outcome]
    exact kept.queue found now running

/-! ## The thread -/

/-- The thread gives up the backlog. -/
private theorem Kept.giveUpBacklog (kept : state.Kept) (waits : state.pipeline.worker = .waiting)
    (abandon : state.pipeline.abandon = true) (unlimited : ∀ event ∈ state.pipeline.queue, ¬ state.Limited event) :
    state.take.Kept := by
  have line : state.line = state.log ++ state.pipeline.queue := by
    simp [AuditState.line, waits, AuditWorker.hand]
  have after : state.take.line = state.log := by
    simp [AuditState.line, AuditState.take, AuditPipeline.take, abandon, AuditWorker.hand]
  have backlog : state.pipeline.abandoned = state.pipeline.queue := if_pos abandon
  have calls : state.take.drops.map Prod.fst = state.drops.map Prod.fst ++ state.pipeline.queue.map (·.call) := by
    simp [AuditState.take, backlog, Function.comp_def]
  have drops : state.drops <+: state.take.drops := List.prefix_append _ _
  have handled := kept.handled
  rw [waits] at handled
  obtain ⟨gone, entered, counted, -⟩ := kept.entered
  refine ⟨?_, ?_, ⟨state.pipeline.queue.map (·.call) ++ gone, ?_, ?_, fun _ => kept.abandons abandon⟩, kept.enqueued, ?_,
    kept.targets, fun _ => .inl (kept.abandons abandon), kept.stopped, kept.abandons, ?_⟩
  · have books := kept.books.abandon line unlimited
    rw [AuditState.books, after]
    simpa only [AuditState.books, AuditState.take, AuditPipeline.take, backlog, coming] using books
  · change state.pipeline.dropped + state.pipeline.abandoned.length = (state.drops ++ _).length
    rw [kept.counted, List.length_append, List.length_map]
  · rw [after, ← List.append_assoc, ← List.map_append, ← line]
    exact entered
  · intro call member
    rw [calls]
    rcases List.mem_append.mp member with queued | before
    · exact List.mem_append_right _ queued
    · exact List.mem_append_left _ (counted call before)
  · simpa [AuditState.take, AuditPipeline.take, abandon, AuditWorker.uncounted] using handled
  · exact fun before member call among => (kept.drained before member call among).more List.prefix_rfl drops

/-- A step of the thread that leaves the line as it is. -/
private theorem Kept.moved (kept : state.Kept) {queue log : List AuditEvent} {worker : AuditWorker} {handled : ℕ}
    (line : log ++ worker.hand ++ queue = state.line) (more : state.log <+: log)
    (fewer : handled + worker.uncounted ≤ log.length) (present : state.pipeline.worker ≠ .absent) :
    Kept
      { state with
        pipeline := { state.pipeline with queue := queue, worker := worker, handled := handled }
        log := log } := by
  obtain ⟨gone, entered, counted, stopping⟩ := kept.entered
  refine ⟨?_, kept.counted, ⟨gone, ?_, counted, stopping⟩, kept.enqueued, fewer, kept.targets, ?_, kept.stopped,
    kept.abandons, ?_⟩
  · have books := kept.books
    rw [AuditState.books, ← line] at books
    exact books
  · rw [← line] at entered
    exact entered
  · exact fun joinable => .inl ((kept.thread joinable).resolve_right present)
  · exact fun before member call among => (kept.drained before member call among).more more List.prefix_rfl

theorem Kept.take (kept : state.Kept) (waits : state.pipeline.worker = .waiting)
    (unlimited : ∀ event ∈ state.pipeline.abandoned, ¬ state.Limited event) : state.take.Kept := by
  cases abandon : state.pipeline.abandon with
  | true =>
    refine kept.giveUpBacklog waits abandon fun event member => unlimited event ?_
    rw [AuditPipeline.abandoned, if_pos abandon]
    exact member
  | false =>
    have handled := kept.handled
    rw [waits] at handled
    have line : state.log ++ (state.pipeline.queue.head?.elim .returned .holding : AuditWorker).hand ++
        state.pipeline.queue.tail = state.line := by
      cases queue : state.pipeline.queue <;> simp [AuditState.line, waits, queue, AuditWorker.hand]
    have counts : state.pipeline.handled +
        (state.pipeline.queue.head?.elim .returned .holding : AuditWorker).uncounted ≤ state.log.length := by
      cases state.pipeline.queue <;> exact handled
    have moved := kept.moved line List.prefix_rfl counts (by simp [waits])
    simpa [AuditState.take, AuditPipeline.take, AuditPipeline.abandoned, abandon] using moved

theorem Kept.handle (kept : state.Kept) {event : AuditEvent} (holds : state.pipeline.worker = .holding event) :
    Kept { state with pipeline := { state.pipeline with worker := .told event }, log := state.log ++ [event] } := by
  have handled := kept.handled
  rw [holds] at handled
  refine kept.moved ?_ (List.prefix_append _ _) ?_ (by simp [holds])
  · simp [AuditState.line, holds, AuditWorker.hand]
  · rw [List.length_append]
    exact Nat.add_le_add_right handled 1

theorem Kept.count (kept : state.Kept) {event : AuditEvent} (told : state.pipeline.worker = .told event) :
    Kept { state with pipeline := { state.pipeline with worker := .waiting, handled := state.pipeline.handled + 1 } } := by
  have handled := kept.handled
  rw [told] at handled
  refine kept.moved ?_ List.prefix_rfl handled (by simp [told])
  simp [AuditState.line, told, AuditWorker.hand]

/-! ## `Flush` and `Stop` -/

/-- What a `Flush` waits for is done when its predicate holds. -/
theorem Kept.flushed (kept : state.Kept) {flush : FlushCall} (before : flush.before <+: state.entered)
    (target : flush.target = flush.before.length) (patient : state.Patient flush) (returns : state.flushed flush = true) :
    ∀ call ∈ flush.before, state.Done call := by
  intro call among
  obtain ⟨gone, entered, counted, -⟩ := kept.entered
  have reached : flush.target ≤ state.pipeline.handled ∨ state.Idle := by
    rw [AuditState.flushed, Bool.or_eq_true, decide_eq_true_iff] at returns
    exact returns.elim .inl patient
  rcases reached with handled | ⟨queue, hand⟩
  · -- the line's first events are the handled ones, and the calls before the flush are not more
    have logged : state.log.map (·.call) <+: state.entered := by
      rw [entered, AuditState.line, List.map_append, List.map_append, List.append_assoc, List.append_assoc]
      exact List.prefix_append _ _
    have shorter : flush.before.length ≤ (state.log.map (·.call)).length := by
      have counts := kept.handled
      rw [List.length_map]
      omega
    obtain ⟨event, member, same⟩ := List.mem_map.mp ((List.prefix_of_prefix_length_le before logged shorter).subset among)
    exact .inl ⟨event, member, same⟩
  · have all := before.subset among
    rw [entered, AuditState.line, queue, hand, List.append_nil, List.append_nil, List.mem_append] at all
    rcases all with logged | dropped
    · obtain ⟨event, member, same⟩ := List.mem_map.mp logged
      exact .inl ⟨event, member, same⟩
    · exact .inr (counted call dropped)

/-- A `Flush` comes, goes on waiting or returns. -/
private theorem Kept.flushing (kept : state.Kept) {flushes : List FlushCall} {drained : List (List ℕ)}
    (targets : ∀ flush ∈ flushes, flush.before <+: state.entered ∧ flush.target = flush.before.length)
    (done : ∀ before ∈ drained, ∀ call ∈ before, state.Done call) :
    Kept { state with flushes := flushes, drained := drained } :=
  ⟨kept.books, kept.counted, kept.entered, kept.enqueued, kept.handled, targets, kept.thread, kept.stopped, kept.abandons,
    done⟩

private theorem Kept.drainedMore (kept : state.Kept) {flush : FlushCall} (done : ∀ call ∈ flush.before, state.Done call) :
    ∀ before ∈ state.drained ++ [flush.before], ∀ call ∈ before, state.Done call := by
  intro before member
  rcases List.mem_append.mp member with old | new
  · exact kept.drained before old
  · exact List.mem_singleton.mp new ▸ done

/-- `Stop` comes, gives up or joins: only the flags change. -/
private theorem Kept.stopping (kept : state.Kept) {stopping abandon joinable : Bool} {stops : List StopCall}
    (stays : state.pipeline.stopping = true → stopping = true) (stopped : stops ≠ [] → stopping = true)
    (abandons : abandon = true → stopping = true)
    (thread : joinable = false → stopping = true ∨ state.pipeline.worker = .absent) :
    Kept
      { state with
        pipeline := { state.pipeline with stopping := stopping, abandon := abandon, joinable := joinable }
        stops := stops } := by
  obtain ⟨gone, entered, counted, before⟩ := kept.entered
  exact ⟨kept.books, kept.counted, ⟨gone, entered, counted, fun some => stays (before some)⟩, kept.enqueued, kept.handled,
    kept.targets, thread, stopped, abandons, kept.drained⟩

/-! ## Every run -/

/-- A step that meets the condition keeps the invariant. -/
theorem Kept.step {next : AuditState} {action : AuditAction} (kept : state.Kept) (meets : state.Meets action)
    (stepped : state.step action = some next) : next.Kept := by
  cases action with
  | emit event cap perSecond second =>
    obtain rfl := Option.some.inj stepped
    exact kept.emit event cap perSecond second
  | enqueue index now starts =>
    obtain ⟨emit, found, rfl⟩ := Option.map_eq_some_iff.mp stepped
    exact kept.enqueue found now (meets emit found)
  | take =>
    simp only [AuditState.step] at stepped
    split_ifs at stepped with ready
    obtain rfl := Option.some.inj stepped
    exact kept.take ready.1 meets
  | handle =>
    simp only [AuditState.step] at stepped
    split at stepped
    · rename_i event holds
      obtain rfl := Option.some.inj stepped
      exact kept.handle holds
    · cases stepped
  | count =>
    simp only [AuditState.step] at stepped
    split at stepped
    · rename_i event told
      obtain rfl := Option.some.inj stepped
      exact kept.count told
    · cases stepped
  | flush =>
    simp only [AuditState.step] at stepped
    split_ifs at stepped with returns
    · obtain rfl := Option.some.inj stepped
      have done := kept.flushed List.prefix_rfl kept.enqueued meets returns
      exact kept.flushing kept.targets (kept.drainedMore done)
    · obtain rfl := Option.some.inj stepped
      refine kept.flushing (fun flush member => ?_) kept.drained
      rcases List.mem_append.mp member with old | new
      · exact kept.targets flush old
      · obtain rfl := List.mem_singleton.mp new
        exact ⟨List.prefix_rfl, kept.enqueued⟩
  | flushWakes index timedOut =>
    simp only [AuditState.step] at stepped
    split at stepped
    · cases stepped
    · rename_i flush found
      obtain ⟨before, target⟩ := kept.targets flush (List.mem_of_getElem? found)
      have fewer := List.eraseIdx_sublist state.flushes index
      split_ifs at stepped with returns
      · obtain rfl := Option.some.inj stepped
        exact kept.flushing (fun other member => kept.targets other (fewer.subset member))
          (kept.drainedMore (kept.flushed before target (meets flush found) returns))
      · obtain rfl := Option.some.inj stepped
        exact kept.flushing (fun other member => kept.targets other (fewer.subset member)) kept.drained
      · obtain rfl := Option.some.inj stepped
        exact kept
  | stop =>
    simp only [AuditState.step] at stepped
    split_ifs at stepped
    · obtain rfl := Option.some.inj stepped
      exact kept.stopping (fun _ => rfl) (fun _ => rfl) (fun _ => rfl) fun _ => .inl rfl
    · obtain rfl := Option.some.inj stepped
      exact kept.stopping (fun _ => rfl) (fun _ => rfl) (fun _ => rfl) fun _ => .inl rfl
  | stopWakes index timedOut =>
    simp only [AuditState.step] at stepped
    split_ifs at stepped with waits beyond
    · obtain rfl := Option.some.inj stepped
      have some : state.stops ≠ [] := List.ne_nil_of_mem (List.mem_of_getElem? waits)
      have stopping := kept.stopped some
      exact kept.stopping id (fun _ => stopping) (fun _ => stopping) kept.thread
    · obtain rfl := Option.some.inj stepped
      exact kept
  | join index own =>
    simp only [AuditState.step] at stepped
    split_ifs at stepped with joins
    obtain rfl := Option.some.inj stepped
    have some : state.stops ≠ [] := List.ne_nil_of_mem (List.mem_of_getElem? joins.1)
    have stopping := kept.stopped some
    exact kept.stopping id (fun _ => stopping) kept.abandons fun _ => .inl stopping

end AuditState

/-- In every run whose steps meet the condition: the event of a call that passed it recorded and has its
answer was handled as a record once, is queued or in the thread's hands, or is counted as dropped once; the
handled events are in the order of their numbers, which are what the calls returned; and what was queued
before a `Flush` that returned true was handled or counted as dropped. -/
theorem audit_records_kept {actions : List AuditAction} {state : AuditState}
    (along : Along AuditState.step AuditState.Meets {} actions) (ran : run AuditState.step {} actions = some state) :
    (∀ call ∈ state.asked, (∀ emit ∈ state.emits, emit.event.call ≠ call) →
        tally call state.log + tally call (state.pipeline.worker.hand ++ state.pipeline.queue) +
          (state.drops.map Prod.fst).count call = 1) ∧
      state.pipeline.dropped = state.drops.length ∧
      (state.log.map (·.seq)).Pairwise (· < ·) ∧
      (∀ event ∈ state.log, ∀ result, (event.call, result) ∈ state.results ↔ result = event.seq) ∧
      ∀ before ∈ state.drained, ∀ call ∈ before, state.Done call := by
  have kept : state.Kept := run_keeps AuditState.step AuditState.Meets (fun kept meets stepped => kept.step meets stepped)
    AuditState.kept_initial along ran
  have logged : state.log <+: state.line := by
    rw [AuditState.line, List.append_assoc]
    exact List.prefix_append _ _
  refine ⟨fun call asks answered => ?_, kept.counted, ?_, fun event member result => ⟨fun answer => ?_, ?_⟩, kept.drained⟩
  · have placed := kept.books.placed call asks
    change tally call state.coming + tally call state.line + (state.drops.map Prod.fst).count call = 1 at placed
    have none : tally call state.coming = 0 := by
      refine tally_eq_zero fun event member => ?_
      obtain ⟨emit, among, rfl⟩ := List.mem_map.mp member
      exact answered emit among
    rw [none, AuditState.line, List.append_assoc, tally_append] at placed
    omega
  · exact kept.books.ordered.sublist (logged.sublist.map _)
  · have own := kept.books.answered event (logged.subset member)
    have once := (List.nodup_append.mp kept.books.answeredOnce).1
    exact congrArg Prod.snd (List.inj_on_of_nodup_map once answer own rfl)
  · rintro rfl
    exact kept.books.answered event (logged.subset member)

/-- Two denials of one second, of which one may be recorded, both handled before a `Flush`; the thread
ends and one more event comes, unrecorded. -/
private def twoDenials : List AuditAction :=
  [.emit { allowed := false } 10 1 7, .enqueue 0 0 true, .emit { allowed := false } 10 1 7, .take, .enqueue 0 1 true,
    .handle, .count, .take, .handle, .count, .flush, .stop, .take, .join 0 false,
    .emit { recorded := false } 10 1 8, .enqueue 0 2 true]

theorem audit_records_kept_denials : ∃ state, Along AuditState.step AuditState.Meets {} twoDenials ∧
    run AuditState.step {} twoDenials = some state ∧ state.asked = [0, 1] ∧ state.drops = [(1, .rateLimit)] ∧
      state.drained = [[0, 1]] ∧ tally 0 state.log + tally 0 (state.pipeline.worker.hand ++ state.pipeline.queue) +
        (state.drops.map Prod.fst).count 0 = 1 := by
  have along : Along AuditState.step AuditState.Meets {} twoDenials := by decide
  match ran : run AuditState.step {} twoDenials with
  | none => exact absurd (congrArg Option.isSome ran) (by decide)
  | some state =>
    have found : (run AuditState.step {} twoDenials).map
        (fun state => (state.asked, state.drops, state.drained, state.emits)) =
          some ([0, 1], [(1, .rateLimit)], [[0, 1]], []) := by decide
    rw [ran] at found
    obtain ⟨asked, drops, drained, emits⟩ : state.asked = [0, 1] ∧ state.drops = [(1, .rateLimit)] ∧
        state.drained = [[0, 1]] ∧ state.emits = [] := by simpa using found
    exact ⟨state, along, rfl, asked, drops, drained,
      (audit_records_kept along ran).1 0 (by simp [asked]) (by simp [emits])⟩

/-- A recorded event that comes after `Stop` is nowhere; a denial past its rate that finds the queue full
is counted twice; and a `Flush` during `Stop` returns true while its event is still queued. -/
theorem audit_records_slip :
    (run AuditState.step {} [.stop, .emit {} 10 1 7, .enqueue 0 0 true]).map
        (fun state => (state.asked, (state.coming ++ state.line).length, state.drops)) = some ([0], 0, []) ∧
      (run AuditState.step {} [.emit { allowed := false } 1 1 7, .enqueue 0 0 true, .emit { allowed := false } 1 1 7,
        .enqueue 0 1 true]).map (fun state => (state.asked, state.drops)) =
          some ([0, 1], [(1, .rateLimit), (1, .queue)]) ∧
      (run AuditState.step {} [.emit {} 10 1 7, .enqueue 0 0 true, .stop, .flush]).map
        (fun state => (state.drained, state.log.length, state.drops)) = some ([[0]], 0, []) := by
  decide

end DuckAcl
