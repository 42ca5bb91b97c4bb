import Mathlib.Algebra.BigOperators.Group.List.Basic
import DuckAcl.Library.Bags
import DuckAcl.Library.Words
import DuckAcl.Model.StreamBudget

/-! # The stream budget accounts exactly

What is reserved is the sum of the live slots' bytes, as long as every slot asks for some bytes and no
word overflows: a slot of no bytes is counted when it is admitted and never released. A section of
`Acquire` tests twice, with two readings of the clock. Both have to find the same head, or a statement
that was let in by the first test is refused by the second.
-/

namespace DuckAcl

open Runs Words

/-! ## The line -/

/-- A waiter's priority after aging, in numbers. -/
def StreamBudget.aged (budget : StreamBudget) (now : Int64) (waiter : StreamWaiter) : ℤ :=
  waiter.priority.toInt + (now.toInt - waiter.arrived.toInt) / 1000000 / budget.step.toInt

/-- The priorities of the line are signed words after aging. -/
def StreamBudget.AgesFit (budget : StreamBudget) (now : Int64) : Prop :=
  ∀ waiter ∈ budget.waiting, budget.aged now waiter < 2 ^ 63

instance (budget : StreamBudget) (now : Int64) : Decidable (budget.AgesFit now) :=
  inferInstanceAs (Decidable (∀ waiter ∈ budget.waiting, _))

/-- One waiter is served before another. -/
def StreamBudget.Before (budget : StreamBudget) (now : Int64) (first second : StreamWaiter) : Prop :=
  budget.aged now second < budget.aged now first ∨
    budget.aged now second = budget.aged now first ∧ first.ticket.toNat ≤ second.ticket.toNat

namespace StreamBudget

variable {budget : StreamBudget} {now : Int64}

theorem step_pos (budget : StreamBudget) : 0 < budget.step.toInt := by
  unfold step
  split_ifs with positive
  · exact Int64.lt_iff_toInt_lt.mp positive
  · decide

theorem effective_exact {waiter : StreamWaiter} (past : 0 ≤ waiter.arrived.toInt)
    (came : waiter.arrived.toInt ≤ now.toInt) (fits : budget.aged now waiter < 2 ^ 63) :
    (budget.effective now waiter).toInt = budget.aged now waiter := by
  have word := Int64.toInt_lt now
  have low := Int64.le_toInt waiter.priority
  have waited : (now - waiter.arrived).toInt = now.toInt - waiter.arrived.toInt :=
    toInt_sub_of_fits (by omega) (by omega)
  have thousands : ((now - waiter.arrived) / 1000000).toInt = (now.toInt - waiter.arrived.toInt) / 1000000 := by
    rw [toInt_div_of_nonneg (by omega) (by decide), waited]
    rfl
  have nonneg : 0 ≤ (now.toInt - waiter.arrived.toInt) / 1000000 := by omega
  have steps : ((now - waiter.arrived) / 1000000 / budget.step).toInt =
      (now.toInt - waiter.arrived.toInt) / 1000000 / budget.step.toInt := by
    rw [toInt_div_of_nonneg (by omega) budget.step_pos, thousands]
  have aging := Int.ediv_nonneg nonneg budget.step_pos.le
  unfold aged at fits ⊢
  rw [effective, toInt_add_of_fits (by omega) (by omega), steps]

/-- The loop of `HeadLocked` finds a waiter that no other is before. -/
private theorem overtake_spec {line : List StreamWaiter} (seen : List StreamWaiter) {best : StreamWaiter}
    (exact : ∀ waiter ∈ seen ++ line, (budget.effective now waiter).toInt = budget.aged now waiter)
    (member : best ∈ seen) (least : ∀ other ∈ seen, budget.Before now best other) :
    ∃ head ∈ seen ++ line, line.foldl (budget.overtake now) (some (best.ticket, budget.effective now best)) =
        some (head.ticket, budget.effective now head) ∧
      ∀ other ∈ seen ++ line, budget.Before now head other := by
  induction line generalizing seen best with
  | nil =>
    rw [List.append_nil]
    exact ⟨best, member, rfl, least⟩
  | cons waiter rest ih =>
    have own := exact best (List.mem_append_left _ member)
    have new := exact waiter (List.mem_append_right _ List.mem_cons_self)
    rw [List.foldl_cons, ← List.singleton_append, ← List.append_assoc]
    rw [← List.singleton_append, ← List.append_assoc] at exact
    rw [overtake]
    split_ifs with overtakes
    · refine ih _ exact (List.mem_append_right _ List.mem_cons_self) fun other among => ?_
      rw [Int64.lt_iff_toInt_lt, ← Int64.toInt_inj, own, new, UInt64.lt_iff_toNat_lt] at overtakes
      rcases List.mem_append.mp among with old | only
      · have before := least other old
        unfold Before at before ⊢
        omega
      · obtain rfl := List.mem_singleton.mp only
        exact .inr ⟨rfl, le_rfl⟩
    · refine ih _ exact (List.mem_append_left _ member) fun other among => ?_
      rw [Int64.lt_iff_toInt_lt, ← Int64.toInt_inj, own, new, UInt64.lt_iff_toNat_lt] at overtakes
      rcases List.mem_append.mp among with old | only
      · exact least other old
      · obtain rfl := List.mem_singleton.mp only
        unfold Before
        omega

/-- The head of a line is a waiter that no other is before. -/
theorem headLocked_spec (someone : budget.waiting ≠ [])
    (exact : ∀ waiter ∈ budget.waiting, (budget.effective now waiter).toInt = budget.aged now waiter) :
    ∃ head ∈ budget.waiting, budget.headLocked now = head.ticket ∧
      ∀ other ∈ budget.waiting, budget.Before now head other := by
  cases line : budget.waiting with
  | nil => exact absurd line someone
  | cons first rest =>
    rw [line] at exact
    obtain ⟨head, member, found, least⟩ := overtake_spec [first] exact List.mem_cons_self (by
      intro other only
      obtain rfl := List.mem_singleton.mp only
      exact .inr ⟨rfl, le_rfl⟩)
    refine ⟨head, member, ?_, least⟩
    have folded : (first :: rest).foldl (budget.overtake now) none =
        some (head.ticket, budget.effective now head) := found
    rw [headLocked, line, folded]

end StreamBudget

/-! ## The condition -/

/-- What a slot asks for, in numbers. -/
def StreamSettings.exactReserve (settings : StreamSettings) (limits : Option StreamLimits) : ℕ :=
  if 0 < settings.reserveBytes.getD 0 then (settings.reserveBytes.getD 0).toNat
  else settings.producer.toNat + (settings.window limits).toNat * (settings.batch limits).toNat

/-- The deadline of a call, in numbers: nanoseconds. -/
def StreamCaller.exactDeadline (caller : StreamCaller) : ℤ :=
  caller.waiter.arrived.toInt + caller.timeout.toNat * 1000000000

namespace StreamBudget

/-- A test at this moment overflows nothing. -/
def Fitting (budget : StreamBudget) (caller : StreamCaller) (now : Int64) : Prop :=
  budget.AgesFit now ∧
    (budget.headLocked now = caller.waiter.ticket → budget.reserved.toNat + caller.bytes.toNat < 2 ^ 64)

/-- The condition on a section of `Acquire`: its tests overflow nothing, and after a test that let the
caller in the second one finds the same head. -/
def Steady (budget : StreamBudget) (caller : StreamCaller) (moments : StreamMoments) : Prop :=
  budget.Fitting caller moments.tested ∧
    (budget.leavesLoop caller moments ≠ none → budget.Fitting caller moments.decided) ∧
    (budget.fits caller moments.tested = true → budget.headLocked moments.decided = budget.headLocked moments.tested)

instance (budget : StreamBudget) (caller : StreamCaller) (now : Int64) : Decidable (budget.Fitting caller now) :=
  inferInstanceAs (Decidable (_ ∧ _))

instance (budget : StreamBudget) (caller : StreamCaller) (moments : StreamMoments) :
    Decidable (budget.Steady caller moments) :=
  inferInstanceAs (Decidable (_ ∧ _ ∧ _))

end StreamBudget

/-- The condition on a step. A new slot asks for some bytes, as many as a word holds, with a timeout the
clock can reach and a ticket nobody in the line has. -/
def StreamNode.Meets (node : StreamNode) : StreamEvent → Prop
  | .construct settings limits arrived moments =>
    (0 < settings.exactReserve limits ∧ settings.exactReserve limits < 2 ^ 64) ∧
      arrived.toInt + settings.streamQueueTimeout.toNat * 1000000000 < 2 ^ 63 ∧
      node.budget.nextTicket ∉ node.budget.waiting.map (·.ticket) ∧
      (node.enter settings limits arrived).1.budget.Steady (node.enter settings limits arrived).2 moments
  | .wake index moments => ∀ caller ∈ node.callers[index]?, node.budget.Steady caller moments
  | .destroy _ => True

instance (node : StreamNode) (event : StreamEvent) : Decidable (node.Meets event) :=
  match event with
  | .construct _ _ _ _ => inferInstanceAs (Decidable (_ ∧ _ ∧ _ ∧ _))
  | .wake index moments =>
    match found : node.callers[index]? with
    | none => .isTrue (by simp [StreamNode.Meets, found])
    | some caller =>
      decidable_of_iff (node.budget.Steady caller moments) (by simp [StreamNode.Meets, found])
  | .destroy _ => .isTrue trivial

theorem StreamSettings.streamReserve_exact {settings : StreamSettings} {limits : Option StreamLimits}
    (fits : settings.exactReserve limits < 2 ^ 64) :
    (settings.streamReserve limits).toNat = settings.exactReserve limits := by
  unfold exactReserve at fits ⊢
  unfold streamReserve
  dsimp only
  split_ifs at fits ⊢
  · rfl
  · have product : (settings.window limits * settings.batch limits).toNat =
        (settings.window limits).toNat * (settings.batch limits).toNat := toNat_mul_of_lt (by omega)
    rw [toNat_add_of_lt (by omega), product]

/-! ## The invariant -/

/-- The budget's figures are those of the live slots. -/
structure StreamNode.Accounted (node : StreamNode) : Prop where
  reserved : node.budget.reserved.toNat = (node.live.map UInt64.toNat).sum
  producing : node.budget.producing.toNat = node.live.length

/-- What holds in every state of a run that meets the condition. -/
structure StreamNode.Kept (node : StreamNode) : Prop extends node.Accounted where
  positive : ∀ bytes ∈ node.live, 0 < bytes.toNat
  sized : ∀ caller ∈ node.callers, 0 < caller.bytes.toNat
  line : node.budget.waiting = node.callers.map (·.waiter)
  tickets : (node.budget.waiting.map (·.ticket)).Nodup
  deadlines : ∀ caller ∈ node.callers, caller.deadline.toInt = caller.exactDeadline
  clock : 0 ≤ node.clock.toInt
  past : ∀ waiter ∈ node.budget.waiting, 0 ≤ waiter.arrived.toInt ∧ waiter.arrived.toInt ≤ node.clock.toInt

theorem StreamNode.kept_start (ageStep : Int64) : (StreamNode.start ageStep).Kept := by
  constructor
  · constructor <;> rfl
  all_goals simp [StreamNode.start]

theorem StreamBudget.enter_deadline (budget : StreamBudget) (bytes limit timeout : UInt64) (priority : Int64)
    {arrived : Int64} (past : 0 ≤ arrived.toInt) (fits : arrived.toInt + timeout.toNat * 1000000000 < 2 ^ 63) :
    (budget.enter bytes limit timeout priority arrived).2.deadline.toInt =
      (budget.enter bytes limit timeout priority arrived).2.exactDeadline := by
  have seconds : timeout.toInt64.toInt = timeout.toNat := toInt_toInt64_of_lt (by omega)
  have thousand : (1000 : Int64).toInt = 1000 := rfl
  have million : (1000000 : Int64).toInt = 1000000 := rfl
  have millis : (timeout.toInt64 * 1000).toInt = timeout.toNat * 1000 := by
    rw [toInt_mul_of_fits (by rw [seconds, thousand]; omega) (by rw [seconds, thousand]; omega), seconds, thousand]
  have nanos : (timeout.toInt64 * 1000 * 1000000).toInt = timeout.toNat * 1000 * 1000000 := by
    rw [toInt_mul_of_fits (by rw [millis, million]; omega) (by rw [millis, million]; omega), millis, million]
  change (arrived + timeout.toInt64 * 1000 * 1000000).toInt = arrived.toInt + timeout.toNat * 1000000000
  rw [toInt_add_of_fits (by omega) (by omega), nanos]
  omega

/-- A slot's place in the line keeps the invariant. -/
theorem StreamNode.Kept.enter {node : StreamNode} (kept : node.Kept) {settings : StreamSettings}
    {limits : Option StreamLimits} {arrived : Int64} (later : node.clock ≤ arrived) (asks : 0 < settings.exactReserve limits) (fits : settings.exactReserve limits < 2 ^ 64)
    (reach : arrived.toInt + settings.streamQueueTimeout.toNat * 1000000000 < 2 ^ 63)
    (fresh : node.budget.nextTicket ∉ node.budget.waiting.map (·.ticket)) :
    (node.enter settings limits arrived).1.Kept := by
  have came := Int64.le_iff_toInt_le.mp later
  have past := kept.clock
  refine ⟨⟨kept.reserved, kept.producing⟩, kept.positive, ?_, ?_, ?_, ?_, past.trans came, ?_⟩
  · intro caller member
    rcases List.mem_append.mp member with old | new
    · exact kept.sized caller old
    · obtain rfl := List.mem_singleton.mp new
      change 0 < (settings.streamReserve limits).toNat
      rw [StreamSettings.streamReserve_exact fits]
      exact asks
  · change node.budget.waiting ++ [_] = (node.callers ++ [_]).map _
    rw [kept.line, List.map_append]
    rfl
  · change ((node.budget.waiting ++ [_]).map _).Nodup
    rw [List.map_append, List.nodup_append]
    refine ⟨kept.tickets, List.nodup_singleton _, ?_⟩
    rintro ticket old _ new rfl
    obtain rfl := List.mem_singleton.mp new
    exact fresh old
  · intro caller member
    rcases List.mem_append.mp member with old | new
    · exact kept.deadlines caller old
    · obtain rfl := List.mem_singleton.mp new
      exact StreamBudget.enter_deadline _ _ _ _ _ (past.trans came) reach
  · intro waiter member
    rcases List.mem_append.mp member with old | new
    · exact ⟨(kept.past waiter old).1, (kept.past waiter old).2.trans came⟩
    · obtain rfl := List.mem_singleton.mp new
      exact ⟨past.trans came, le_rfl⟩

/-! ## A section of `Acquire` -/

/-- What a section of a slot's `Acquire` does, from the state it runs in to the next. -/
structure StreamNode.SectionRight (node : StreamNode) (caller : StreamCaller) (moments : StreamMoments)
    (next : StreamNode) : Prop where
  /-- the first test adds exactly -/
  tested : ∀ waiter ∈ node.budget.waiting,
    (node.budget.effective moments.tested waiter).toInt = node.budget.aged moments.tested waiter
  /-- so does the second -/
  decided : node.budget.verdict caller moments ≠ .waits → ∀ waiter ∈ node.budget.waiting,
    (node.budget.effective moments.decided waiter).toInt = node.budget.aged moments.decided waiter
  added : node.budget.headLocked moments.tested = caller.waiter.ticket ∨
      node.budget.verdict caller moments = .admitted →
    (node.budget.reserved + caller.bytes).toNat = node.budget.reserved.toNat + caller.bytes.toNat
  /-- an admitted slot is within the budget or alone -/
  within : node.budget.verdict caller moments = .admitted → caller.budget ≠ 0 →
    next.budget.reserved ≤ caller.budget ∨ next.live = [caller.bytes]
  /-- it was the head of the line -/
  head : node.budget.verdict caller moments = .admitted → caller.waiter ∈ node.budget.waiting ∧
    ∀ other ∈ node.budget.waiting, node.budget.Before moments.decided caller.waiter other
  /-- a call that returns false took nothing -/
  nothing : ∀ wasInterrupted, node.budget.verdict caller moments = .refused wasInterrupted →
    next.budget.reserved = node.budget.reserved ∧ next.budget.producing = node.budget.producing ∧
      next.live = node.live
  /-- it was interrupted, or its time was over -/
  reason : ∀ wasInterrupted, node.budget.verdict caller moments = .refused wasInterrupted →
    moments.interrupted = true ∨ caller.exactDeadline ≤ moments.timed.toInt

namespace StreamBudget

variable {budget : StreamBudget} {caller : StreamCaller} {moments : StreamMoments}

theorem verdict_admitted (admitted : budget.verdict caller moments = .admitted) :
    budget.leavesLoop caller moments ≠ none ∧ budget.fits caller moments.decided = true := by
  unfold verdict at admitted
  split at admitted
  · cases admitted
  · rename_i left
    split_ifs at admitted with decided
    exact ⟨by simp [left], decided⟩

/-- A refused call failed its second test, and left the loop for one of three reasons. -/
theorem verdict_refused {wasInterrupted : Bool} (refused : budget.verdict caller moments = .refused wasInterrupted) :
    budget.fits caller moments.decided = false ∧
      (budget.fits caller moments.tested = true ∨ moments.interrupted = true ∨ caller.deadline ≤ moments.timed) := by
  unfold verdict at refused
  split at refused
  · cases refused
  · rename_i left
    unfold leavesLoop at left
    split_ifs at refused left <;> simp_all

theorem leavesLoop_of_verdict (settled : budget.verdict caller moments ≠ .waits) :
    budget.leavesLoop caller moments ≠ none := by
  intro stays
  exact settled (by rw [verdict, stays])

theorem fits_iff {now : Int64} : budget.fits caller now = true ↔ budget.headLocked now = caller.waiter.ticket ∧
    (caller.budget = 0 ∨ budget.reserved = 0 ∨ budget.reserved + caller.bytes ≤ caller.budget) := by
  rw [fits, decide_eq_true_iff]

/-- The second test lets in whom the first let in, when both find the same head. -/
theorem Steady.fits_again (steady : budget.Steady caller moments) (tested : budget.fits caller moments.tested = true) :
    budget.fits caller moments.decided = true := by
  have same := steady.2.2 tested
  rw [fits_iff] at tested ⊢
  exact ⟨same.trans tested.1, tested.2⟩

end StreamBudget

namespace StreamNode

variable {node : StreamNode} {caller : StreamCaller} {moments : StreamMoments} {index : ℕ}

theorem Kept.effective_exact (kept : node.Kept) {now : Int64} (later : node.clock ≤ now)
    (fits : node.budget.AgesFit now) :
    ∀ waiter ∈ node.budget.waiting, (node.budget.effective now waiter).toInt = node.budget.aged now waiter := by
  intro waiter member
  obtain ⟨past, came⟩ := kept.past waiter member
  exact StreamBudget.effective_exact past (came.trans (Int64.le_iff_toInt_le.mp later)) (fits waiter member)

theorem Kept.waits (kept : node.Kept) (found : node.callers[index]? = some caller) :
    caller.waiter ∈ node.budget.waiting := by
  rw [kept.line]
  exact List.mem_map_of_mem (List.mem_of_getElem? found)

/-- The head of the line is the one waiter with its ticket. -/
theorem Kept.head_before (kept : node.Kept) (found : node.callers[index]? = some caller) {now : Int64}
    (later : node.clock ≤ now) (fits : node.budget.AgesFit now)
    (head : node.budget.headLocked now = caller.waiter.ticket) :
    ∀ other ∈ node.budget.waiting, node.budget.Before now caller.waiter other := by
  have member := kept.waits found
  obtain ⟨first, among, isHead, before⟩ :=
    StreamBudget.headLocked_spec (List.ne_nil_of_mem member) (kept.effective_exact later fits)
  have same : first = caller.waiter :=
    List.inj_on_of_nodup_map kept.tickets among member (isHead.symm.trans head)
  exact same ▸ before

/-- Leaving the line by ticket takes the caller's own place. -/
theorem Kept.leaveLocked (kept : node.Kept) (found : node.callers[index]? = some caller) :
    (node.budget.leaveLocked caller.waiter.ticket).waiting = (node.callers.eraseIdx index).map (·.waiter) := by
  have distinct := kept.tickets
  have there : (node.callers.map (·.waiter))[index]? = some caller.waiter := by
    rw [List.getElem?_map, found]
    rfl
  unfold StreamBudget.leaveLocked
  rw [kept.line] at distinct
  rw [kept.line, eraseP_key _ there distinct, List.eraseIdx_map]

/-- The clock's readings in a section come after the state it runs in. -/
theorem StreamMoments.From.decided (ordered : moments.From node.clock) : node.clock ≤ moments.decided := by
  obtain ⟨tested, timed, decided⟩ := ordered
  rw [Int64.le_iff_toInt_le] at *
  omega

/-- Leaving the line, with or without a reservation, keeps what the line is. -/
private theorem Kept.left (kept : node.Kept) (found : node.callers[index]? = some caller)
    (ordered : moments.From node.clock) {budget : StreamBudget} {live : List UInt64}
    (line : budget.waiting = (node.budget.leaveLocked caller.waiter.ticket).waiting)
    (reserved : budget.reserved.toNat = (live.map UInt64.toNat).sum)
    (producing : budget.producing.toNat = live.length) (positive : ∀ bytes ∈ live, 0 < bytes.toNat) :
    Kept { budget := budget, clock := moments.decided, callers := node.callers.eraseIdx index, live := live } := by
  have later := Int64.le_iff_toInt_le.mp (StreamMoments.From.decided ordered)
  have shorter : budget.waiting.Sublist node.budget.waiting := by
    rw [line]
    exact List.eraseP_sublist
  have fewer := List.eraseIdx_sublist node.callers index
  refine ⟨⟨reserved, producing⟩, positive, ?_, ?_, ?_, ?_, kept.clock.trans later, ?_⟩
  · exact fun other member => kept.sized other (fewer.subset member)
  · exact line.trans (kept.leaveLocked found)
  · exact kept.tickets.sublist (shorter.map _)
  · exact fun other member => kept.deadlines other (fewer.subset member)
  · intro waiter member
    obtain ⟨past, came⟩ := kept.past waiter (shorter.subset member)
    exact ⟨past, came.trans later⟩

/-- A section of `Acquire` that meets the condition keeps the accounts. -/
theorem Kept.acquire (kept : node.Kept) (found : node.callers[index]? = some caller)
    (ordered : moments.From node.clock) (steady : node.budget.Steady caller moments) :
    (node.acquire index caller moments).Kept := by
  unfold StreamNode.acquire
  dsimp only
  match decision : node.budget.verdict caller moments with
  | .waits =>
    have later := Int64.le_iff_toInt_le.mp (StreamMoments.From.decided ordered)
    simp only [↓reduceIte, reduceCtorEq]
    exact ⟨⟨kept.reserved, kept.producing⟩, kept.positive, kept.sized, kept.line, kept.tickets, kept.deadlines,
      kept.clock.trans later, fun waiter member => ⟨(kept.past waiter member).1, (kept.past waiter member).2.trans later⟩⟩
  | .admitted =>
    obtain ⟨leaves, fits⟩ := StreamBudget.verdict_admitted decision
    have room := (steady.2.1 leaves).2 (StreamBudget.fits_iff.mp fits).1
    have sized := kept.sized caller (List.mem_of_getElem? found)
    -- every live slot has a byte, so there are no more slots than bytes
    have slots : node.live.length ≤ (node.live.map UInt64.toNat).sum := by
      have bound := List.length_le_sum_of_one_le (node.live.map UInt64.toNat) (by
        intro size member
        obtain ⟨bytes, among, rfl⟩ := List.mem_map.mp member
        exact kept.positive bytes among)
      rwa [List.length_map] at bound
    have reserved := kept.reserved
    have producing := kept.producing
    simp only [↓reduceIte, reduceCtorEq]
    refine kept.left found ordered rfl ?_ ?_ ?_
    · change (node.budget.reserved + caller.bytes).toNat = _
      rw [toNat_add_of_lt room, reserved, List.map_append, List.sum_append]
      simp
    · change (node.budget.producing + 1).toNat = _
      have one : (1 : UInt64).toNat = 1 := rfl
      rw [toNat_add_of_lt (by rw [one]; omega), producing, List.length_append]
      rfl
    · intro bytes member
      rcases List.mem_append.mp member with old | new
      · exact kept.positive bytes old
      · exact List.mem_singleton.mp new ▸ sized
  | .refused wasInterrupted =>
    simp only [↓reduceIte, reduceCtorEq]
    exact kept.left found ordered rfl kept.reserved kept.producing kept.positive

/-- A section of `Acquire` that meets the condition does what it should. -/
theorem Kept.sectionRight (kept : node.Kept) (found : node.callers[index]? = some caller)
    (ordered : moments.From node.clock) (steady : node.budget.Steady caller moments) :
    node.SectionRight caller moments (node.acquire index caller moments) where
  tested := kept.effective_exact ordered.1 steady.1.1
  decided := fun settled => kept.effective_exact (StreamMoments.From.decided ordered)
    (steady.2.1 (StreamBudget.leavesLoop_of_verdict settled)).1
  added := by
    rintro (head | admitted)
    · exact toNat_add_of_lt (steady.1.2 head)
    · obtain ⟨leaves, fits⟩ := StreamBudget.verdict_admitted admitted
      exact toNat_add_of_lt ((steady.2.1 leaves).2 (StreamBudget.fits_iff.mp fits).1)
  within := by
    intro admitted limited
    obtain ⟨-, fits⟩ := StreamBudget.verdict_admitted admitted
    simp only [StreamNode.acquire, admitted, ↓reduceIte, StreamBudget.conclude]
    rcases (StreamBudget.fits_iff.mp fits).2 with unlimited | empty | below
    · exact absurd unlimited limited
    · have sum := kept.reserved
      rw [empty] at sum
      have none : node.live = [] := by
        match live : node.live with
        | [] => rfl
        | bytes :: rest =>
          have positive := kept.positive bytes (live ▸ List.mem_cons_self)
          rw [live, List.map_cons, List.sum_cons] at sum
          have zero : (0 : UInt64).toNat = 0 := rfl
          omega
      exact .inr (by rw [none, List.nil_append])
    · exact .inl below
  head := by
    intro admitted
    obtain ⟨leaves, fits⟩ := StreamBudget.verdict_admitted admitted
    exact ⟨kept.waits found, kept.head_before found (StreamMoments.From.decided ordered) (steady.2.1 leaves).1
      (StreamBudget.fits_iff.mp fits).1⟩
  nothing := by
    intro wasInterrupted refused
    rw [StreamNode.acquire, refused]
    exact ⟨rfl, rfl, rfl⟩
  reason := by
    intro wasInterrupted refused
    obtain ⟨denied, reason⟩ := StreamBudget.verdict_refused refused
    rcases reason with tested | interrupted | beyond
    · rw [steady.fits_again tested] at denied
      cases denied
    · exact .inl interrupted
    · rw [Int64.le_iff_toInt_le, kept.deadlines caller (List.mem_of_getElem? found)] at beyond
      exact .inr beyond

/-- A destructor keeps the accounts. -/
theorem Kept.destroy (kept : node.Kept) {slot : ℕ} {bytes : UInt64} (found : node.live[slot]? = some bytes) :
    (node.destroy slot bytes).Kept := by
  have positive := kept.positive bytes (List.mem_of_getElem? found)
  have sum := sum_map_eraseIdx UInt64.toNat found
  have count := List.length_eraseIdx_add_one (List.getElem?_eq_some_iff.mp found).1
  have reserved := kept.reserved
  have producing := kept.producing
  have covered : bytes ≤ node.budget.reserved := UInt64.le_iff_toNat_le.mpr (by omega)
  have one : (1 : UInt64).toNat = 1 := rfl
  have counted : 1 ≤ node.budget.producing := UInt64.le_iff_toNat_le.mpr (by omega)
  unfold StreamNode.destroy
  rw [if_pos (pos_iff.mpr positive), StreamBudget.release, if_pos covered, if_pos (pos_iff.mpr (by omega))]
  refine ⟨⟨?_, ?_⟩, ?_, kept.sized, kept.line, kept.tickets, kept.deadlines, kept.clock, kept.past⟩
  · change (node.budget.reserved - bytes).toNat = _
    rw [UInt64.toNat_sub_of_le _ _ covered]
    exact Nat.sub_eq_of_eq_add (reserved.trans sum.symm)
  · change (node.budget.producing - 1).toNat = _
    rw [UInt64.toNat_sub_of_le _ _ counted]
    exact Nat.sub_eq_of_eq_add (producing.trans count.symm)
  · exact fun other member => kept.positive other ((List.eraseIdx_sublist _ _).subset member)

end StreamNode

/-! ## Every run -/

/-- What a step does, beyond keeping the accounts. -/
def StreamNode.StepRight (node : StreamNode) (event : StreamEvent) (next : StreamNode) : Prop :=
  match event with
  | .construct settings limits arrived moments =>
    (settings.streamReserve limits).toNat = settings.exactReserve limits ∧
      (node.enter settings limits arrived).1.SectionRight (node.enter settings limits arrived).2 moments next
  | .wake index moments => ∀ caller ∈ node.callers[index]?, node.SectionRight caller moments next
  | .destroy _ => True

/-- A step that meets the condition keeps the invariant and does what it should. -/
theorem StreamNode.Kept.step {node next : StreamNode} {event : StreamEvent} (kept : node.Kept) (meets : node.Meets event)
    (stepped : node.step event = some next) : next.Kept ∧ node.StepRight event next := by
  cases event with
  | construct settings limits arrived moments =>
    obtain ⟨⟨asks, fits⟩, reach, fresh, steady⟩ := meets
    simp only [StreamNode.step] at stepped
    split_ifs at stepped with ordered
    obtain rfl := Option.some.inj stepped
    have entered := kept.enter ordered.1 asks fits reach fresh
    have found : (node.enter settings limits arrived).1.callers[node.callers.length]? =
        some (node.enter settings limits arrived).2 := List.getElem?_concat_length
    exact ⟨entered.acquire found ordered.2 steady, StreamSettings.streamReserve_exact fits,
      entered.sectionRight found ordered.2 steady⟩
  | wake index moments =>
    simp only [StreamNode.step] at stepped
    split at stepped
    · cases stepped
    · rename_i caller found
      split_ifs at stepped with ordered
      obtain rfl := Option.some.inj stepped
      have steady := meets caller found
      refine ⟨kept.acquire found ordered steady, ?_⟩
      intro other same
      rw [Option.mem_def, found] at same
      obtain rfl := Option.some.inj same
      exact kept.sectionRight found ordered steady
  | destroy slot =>
    simp only [StreamNode.step] at stepped
    split at stepped
    · cases stepped
    · rename_i bytes found
      obtain rfl := Option.some.inj stepped
      exact ⟨kept.destroy found, trivial⟩

/-- In every run whose steps meet the condition, the budget's figures are those of the live slots, and
the next step that meets it does what it should. -/
theorem stream_budget_exact {ageStep : Int64} {events : List StreamEvent} {node : StreamNode}
    (along : Along StreamNode.step StreamNode.Meets (StreamNode.start ageStep) events)
    (ran : run StreamNode.step (StreamNode.start ageStep) events = some node) :
    node.Accounted ∧ (node.live = [] → node.budget.reserved = 0 ∧ node.budget.producing = 0) ∧
      ∀ event next, node.Meets event → node.step event = some next → node.StepRight event next := by
  have kept : node.Kept := run_keeps StreamNode.step StreamNode.Meets
    (fun kept meets stepped => (kept.step meets stepped).1) (StreamNode.kept_start ageStep) along ran
  refine ⟨kept.toAccounted, fun none => ?_, fun event next meets stepped => (kept.step meets stepped).2⟩
  have reserved := kept.reserved
  have producing := kept.producing
  rw [none] at reserved producing
  exact ⟨UInt64.toNat_inj.mp reserved, UInt64.toNat_inj.mp producing⟩

/-- A node on which every stream reserves the given bytes, and at most 500 together. -/
private def plainSettings (bytes : UInt64) : StreamSettings where
  reserveBytes := some bytes
  producerBuffer := some 0
  targetBatch := some 0
  operatorMemoryLimit := 1000
  producerDefault := 33554432

/-- A section during which the clock stands still. -/
private def still (now : Int64) : StreamMoments :=
  { tested := now, interrupted := false, timed := now, decided := now }

/-- Two slots of 400 bytes: the second waits for the first. -/
private def twoStreams : List StreamEvent :=
  [.construct (plainSettings 400) none 0 (still 0), .construct (plainSettings 400) none 5 (still 6), .destroy 0,
    .wake 0 (still 7)]

theorem stream_budget_exact_two : ∃ node,
    Along StreamNode.step StreamNode.Meets (StreamNode.start 5000) twoStreams ∧
      run StreamNode.step (StreamNode.start 5000) twoStreams = some node ∧ node.live = [400] ∧ node.Accounted := by
  have along : Along StreamNode.step StreamNode.Meets (StreamNode.start 5000) twoStreams := by decide
  match ran : run StreamNode.step (StreamNode.start 5000) twoStreams with
  | none => exact absurd ran (by decide)
  | some node =>
    have live : (run StreamNode.step (StreamNode.start 5000) twoStreams).map (·.live) = some [400] := by decide
    rw [ran] at live
    exact ⟨node, along, rfl, Option.some.inj live, (stream_budget_exact along ran).1⟩

/-- A slot that asks for no bytes stays counted when it is gone; a sum that wraps lets a slot in above the
budget, and forgets what is reserved; and a slot is refused uninterrupted and long before its 25 seconds
are over, because another became the head of the line between the two tests. -/
theorem stream_budget_slips :
    (run StreamNode.step (StreamNode.start 5000) [.construct (plainSettings 0) none 0 (still 0), .destroy 0]).map
        (fun node => (node.live, node.budget.producing)) = some ([], 1) ∧
      (run StreamNode.step (StreamNode.start 5000) [.construct (plainSettings 100) none 0 (still 0),
        .construct (plainSettings 0xffffffffffffffff) none 0 (still 0)]).map
        (fun node => (node.live, node.budget.reserved)) = some ([100, 0xffffffffffffffff], 99) ∧
      (run StreamNode.step (StreamNode.start 5) [.construct (plainSettings 400) none 0 (still 0),
        .construct (plainSettings 400) none 0 (still 0),
        .construct (plainSettings 400) (some { queuePriority := 1 }) 2000000 (still 2000000), .destroy 0,
        .wake 1 { tested := 4000000, interrupted := false, timed := 4000000, decided := 5000000 }]).map
        (fun node => (node.live, node.callers.map (·.waiter.ticket), node.budget.refused)) = some ([], [1], 1) := by
  decide

end DuckAcl
