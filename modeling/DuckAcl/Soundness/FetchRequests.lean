import DuckAcl.Model.FetchRequests
import DuckAcl.Soundness.FetchWindow
import Mathlib.Data.Finset.Card
import Mathlib.Order.Interval.Finset.Nat
import Mathlib.Tactic.Tauto

/-! # The containers of the fetch window

The plan keeps five containers and three counters; the ledger beside it keeps what became of each index
that was decided to carry rows. The invariant says that the containers are the ledger's sets: what is
open is decided and not acknowledged, what is unanswered is open and not served. It holds whatever the
requests carry, an ack of indices nobody decided included.
-/

namespace DuckAcl.FetchWindow

/-! ## Taking an ack -/

/-- The indices with rows among the answers up to an ack. -/
def dropped (ack : ℕ) (answers : List (ℕ × Option ℕ)) : Finset ℕ :=
  ((answers.filter fun entry => decide (entry.1 ≤ ack) && entry.2.isSome).map Prod.fst).toFinset

theorem mem_dropped {ack index : ℕ} {answers : List (ℕ × Option ℕ)} :
    index ∈ dropped ack answers ↔ index ≤ ack ∧ ∃ source, (index, some source) ∈ answers := by
  simp only [dropped, List.mem_toFinset, List.mem_map, List.mem_filter, Bool.and_eq_true, decide_eq_true_eq,
    Prod.exists, exists_and_right, exists_eq_right]
  constructor
  · rintro ⟨answer, member, low, rows⟩
    obtain ⟨source, rfl⟩ := Option.isSome_iff_exists.mp rows
    exact ⟨low, source, member⟩
  · rintro ⟨low, source, member⟩
    exact ⟨some source, member, low, rfl⟩

/-- What the loop over the acknowledged answers erases and counts. -/
structure Erased (plan : Plan) (indices : Finset ℕ) (after : Plan) : Prop where
  openReal : after.openReal = plan.openReal \ indices
  unanswered : after.unanswered = plan.unanswered \ indices
  arrived : after.arrived = plan.arrived \ indices
  ackedBatches : after.ackedBatches = plan.ackedBatches + indices.card
  heldSince : after.heldSince ⊆ plan.heldSince
  ackHold : after.ackHold = plan.ackHold
  growth : after.nextGrowth = plan.nextGrowth ∧ after.max = plan.max

theorem Erased.refl (plan : Plan) : Erased plan ∅ plan :=
  ⟨by simp, by simp, by simp, by simp, List.Subset.refl _, rfl, rfl, rfl⟩

private theorem erased_forget_none (plan : Plan) (index : ℕ) : Erased plan ∅ (plan.forget index none) :=
  ⟨by simp [Plan.forget], by simp [Plan.forget], by simp [Plan.forget], by simp [Plan.forget],
    List.filter_subset_self _, rfl, rfl, rfl⟩

private theorem erased_forget_some (plan : Plan) (index source : ℕ) :
    Erased plan {index} (plan.forget index (some source)) := by
  refine ⟨?_, ?_, ?_, rfl, List.filter_subset_self _, rfl, rfl, rfl⟩ <;>
    simp [Plan.forget, Finset.erase_eq]

theorem Erased.trans {plan middle after : Plan} {indices more : Finset ℕ} (first : Erased plan indices middle)
    (second : Erased middle more after) (apart : Disjoint indices more) : Erased plan (indices ∪ more) after where
  openReal := by rw [second.openReal, first.openReal, sdiff_sdiff, Finset.sup_eq_union]
  unanswered := by rw [second.unanswered, first.unanswered, sdiff_sdiff, Finset.sup_eq_union]
  arrived := by rw [second.arrived, first.arrived, sdiff_sdiff, Finset.sup_eq_union]
  ackedBatches := by
    rw [second.ackedBatches, first.ackedBatches, Finset.card_union_of_disjoint apart, Nat.add_assoc]
  heldSince := fun _ member => first.heldSince (second.heldSince member)
  ackHold := second.ackHold.trans first.ackHold
  growth := ⟨second.growth.1.trans first.growth.1, second.growth.2.trans first.growth.2⟩

private theorem Erased.withAnswers {plan after : Plan} {indices : Finset ℕ} (erased : Erased plan indices after)
    (answers : List (ℕ × Option ℕ)) : Erased plan indices { after with answers } :=
  ⟨erased.openReal, erased.unanswered, erased.arrived, erased.ackedBatches, erased.heldSince, erased.ackHold,
    erased.growth⟩

theorem forgetAcked_erased {answers : List (ℕ × Option ℕ)}
    (sorted : answers.Pairwise fun left right => left.1 < right.1) (plan : Plan) :
    Erased plan (dropped plan.acked answers) (Plan.forgetAcked answers plan) := by
  induction answers generalizing plan with
  | nil => exact (Erased.refl plan).withAnswers []
  | cons entry rest ih =>
    obtain ⟨index, answer⟩ := entry
    obtain ⟨below, sorted⟩ := List.pairwise_cons.mp sorted
    simp only [Plan.forgetAcked]
    split
    · next reached =>
      have later := ih sorted (plan.forget index answer)
      rw [(forget_frame plan index answer).1] at later
      cases answer with
      | none =>
        have same : dropped plan.acked ((index, none) :: rest) = dropped plan.acked rest := by simp [dropped]
        rw [same]
        simpa using (erased_forget_none plan index).trans later (Finset.disjoint_empty_left _)
      | some source =>
        have same : dropped plan.acked ((index, some source) :: rest) = {index} ∪ dropped plan.acked rest := by
          rw [Finset.singleton_union]
          simp [dropped, reached]
        have apart : Disjoint {index} (dropped plan.acked rest) := by
          rw [Finset.disjoint_singleton_left, mem_dropped]
          rintro ⟨_, other, member⟩
          exact absurd (below _ member) (Nat.lt_irrefl _)
        rw [same]
        exact (erased_forget_some plan index source).trans later apart
    · next beyond =>
      have none_dropped : dropped plan.acked ((index, answer) :: rest) = ∅ := by
        rw [Finset.eq_empty_iff_forall_notMem]
        intro other member
        obtain ⟨low, source, member⟩ := mem_dropped.mp member
        rcases List.mem_cons.mp member with same | member
        · obtain ⟨rfl, _⟩ := Prod.mk.inj same
          exact beyond low
        · have := below _ member
          simp only at this
          omega
      rw [none_dropped]
      exact (Erased.refl plan).withAnswers _

/-! ## Growth -/

/-- A window doubles, up to its cap, each time the acknowledged batches have reached the next growth. -/
inductive Doublings (cap total : ℕ) : ℕ × ℕ → ℕ × ℕ → Prop where
  | stay (window : ℕ × ℕ) : Doublings cap total window window
  | double {width wider nextGrowth : ℕ} {window : ℕ × ℕ} (reached : nextGrowth ≤ total) (narrow : width < maxAhead)
      (doubled : wider = if cap = 0 then width * 2 else min (width * 2) cap) (grown : width < wider)
      (more : Doublings cap total (wider, nextGrowth + wider) window) : Doublings cap total (width, nextGrowth) window

theorem Doublings.width_le {cap total : ℕ} {window window' : ℕ × ℕ} (doublings : Doublings cap total window window') :
    window.1 ≤ window'.1 := by
  induction doublings with
  | stay => exact Nat.le_refl _
  | double _ _ _ grown _ ih => exact (Nat.le_of_lt grown).trans ih

theorem Doublings.le_cap {cap total : ℕ} {window window' : ℕ × ℕ} (doublings : Doublings cap total window window')
    (capped : cap ≠ 0) (below : window.1 ≤ cap) : window'.1 ≤ cap := by
  induction doublings with
  | stay => exact below
  | double _ _ doubled _ _ ih =>
    apply ih
    rw [doubled, if_neg capped]
    exact Nat.min_le_right _ _

/-- Nothing but the window grows. -/
private theorem growFor_eq (doublings : ℕ) (plan : Plan) :
    plan.growFor doublings =
      { plan with width := (plan.growFor doublings).width, nextGrowth := (plan.growFor doublings).nextGrowth } := by
  induction doublings generalizing plan with
  | zero => rfl
  | succ doublings ih =>
    unfold Plan.growFor
    split
    · rw [ih plan.double]
      rfl
    · rfl

private theorem growFor_doublings (doublings : ℕ) (plan : Plan) (positive : 0 < plan.width) :
    Doublings plan.max plan.ackedBatches (plan.width, plan.nextGrowth)
      ((plan.growFor doublings).width, (plan.growFor doublings).nextGrowth) := by
  induction doublings generalizing plan with
  | zero => exact .stay _
  | succ doublings ih =>
    unfold Plan.growFor
    split
    · next growing =>
      simp only [Plan.grows, Bool.and_eq_true, Bool.or_eq_true, decide_eq_true_eq] at growing
      have grown : plan.width < plan.double.width := by
        simp only [Plan.double]
        split <;> omega
      exact .double growing.1.1 growing.1.2 rfl grown (ih plan.double (positive.trans grown))
    · exact .stay _

/-- The growth loop changes the window, by doublings, and nothing else. -/
theorem grow_eq (plan : Plan) (positive : 0 < plan.width) :
    ∃ width nextGrowth, plan.grow = { plan with width, nextGrowth } ∧
      Doublings plan.max plan.ackedBatches (plan.width, plan.nextGrowth) (width, nextGrowth) :=
  ⟨plan.grow.width, plan.grow.nextGrowth, growFor_eq 17 plan, growFor_doublings 17 plan positive⟩

/-- What an ack that moves does to a plan. -/
structure Acks (plan : Plan) (ack : ℕ) (after : Plan) : Prop where
  acked : after.acked = ack
  decided : after.decided = plan.decided
  closed : after.closed = plan.closed
  cap : after.max = plan.max
  answers : after.answers = plan.answers.filter fun entry => decide (ack < entry.1)
  openReal : after.openReal = plan.openReal \ dropped ack plan.answers
  unanswered : after.unanswered = plan.unanswered \ dropped ack plan.answers
  arrived : after.arrived = plan.arrived \ dropped ack plan.answers
  ackedBatches : after.ackedBatches = plan.ackedBatches + (dropped ack plan.answers).card
  heldSince : after.heldSince ⊆ plan.heldSince
  ackHold : after.ackHold = ackHoldMs
  empties : after.empties = plan.empties
  growth : Doublings plan.max after.ackedBatches (plan.width, plan.nextGrowth) (after.width, after.nextGrowth)

theorem acknowledge_acks {plan : Plan} {ack : ℕ} (sorted : plan.answers.Pairwise fun left right => left.1 < right.1)
    (positive : 0 < plan.width) (moved : plan.acked < ack) : Acks plan ack (plan.acknowledge ack) := by
  have erased := forgetAcked_erased sorted { plan with acked := ack, ackHold := ackHoldMs }
  have answers := forgetAcked_answers sorted { plan with acked := ack, ackHold := ackHoldMs }
  obtain ⟨acked, decided, empties, width, closed⟩ := forgetAcked_frame plan.answers { plan with acked := ack, ackHold := ackHoldMs }
  unfold Plan.acknowledge
  rw [if_pos moved]
  dsimp only at *
  generalize Plan.forgetAcked plan.answers _ = after at *
  obtain ⟨width', growth', grows, doublings⟩ := grow_eq after (width ▸ positive)
  rw [width, erased.growth.1, erased.growth.2] at doublings
  rw [grows]
  exact ⟨acked, decided, closed, erased.growth.2, answers, erased.openReal, erased.unanswered, erased.arrived,
    erased.ackedBatches, erased.heldSince, erased.ackHold, empties, doublings⟩

/-! ## Deciding on -/

/-- The answers of an index decided next stand behind those there are. -/
theorem decideNext_answers (plan : Plan) :
    ∃ answer, plan.decideNext.answers = plan.answers ++ [(plan.decided + 1, answer)] ∧
      plan.decideNext.decided = plan.decided + 1 := by
  unfold Plan.decideNext
  dsimp only
  split
  · exact ⟨_, rfl, rfl⟩
  · exact ⟨_, rfl, rfl⟩

theorem decideMore_empties (more : ℕ) (plan : Plan) : (plan.decideMore more).empties ≤ plan.empties + more := by
  induction more generalizing plan with
  | zero => exact Nat.le_refl _
  | succ more ih =>
    have next : plan.decideNext.empties ≤ plan.empties + 1 := by
      unfold Plan.decideNext
      dsimp only
      split
      · exact Nat.le_refl _
      · exact Nat.le_succ _
    have := ih plan.decideNext
    show (plan.decideNext.decideMore more).empties ≤ _
    omega

theorem decideMore_answers (more : ℕ) (plan : Plan) :
    ∃ added, (plan.decideMore more).answers = plan.answers ++ added ∧ (∀ entry ∈ added, plan.decided < entry.1) ∧
      (plan.decideMore more).decided = plan.decided + more := by
  induction more generalizing plan with
  | zero => exact ⟨[], (List.append_nil _).symm, by simp, rfl⟩
  | succ more ih =>
    obtain ⟨answer, answers, decided⟩ := decideNext_answers plan
    obtain ⟨added, answers', above, decided'⟩ := ih plan.decideNext
    refine ⟨(plan.decided + 1, answer) :: added, ?_, ?_, ?_⟩
    · show (plan.decideNext.decideMore more).answers = _
      rw [answers', answers, List.append_assoc, List.singleton_append]
    · intro entry member
      rcases List.mem_cons.mp member with rfl | member
      · exact Nat.lt_succ_self _
      · have := above entry member
        omega
    · show (plan.decideNext.decideMore more).decided = _
      rw [decided', decided]
      omega

/-! ## The ledger -/

/-- The containers of the plan are the ledger's sets. -/
structure Books (ledger : Ledger) : Prop where
  sorted : ledger.plan.answers.Pairwise fun left right => left.1 < right.1
  reached : ∀ entry ∈ ledger.plan.answers, entry.1 ≤ ledger.plan.decided
  carries : ∀ index, index ∈ ledger.plan.openReal ↔ ∃ source, (index, some source) ∈ ledger.plan.answers
  openReal : ledger.plan.openReal = ledger.rows \ ledger.acknowledged
  unanswered : ledger.plan.unanswered = (ledger.rows \ ledger.acknowledged) \ ledger.served
  arrived : ledger.plan.arrived ⊆ ledger.plan.unanswered ∩ ledger.named
  rows : ∀ index ∈ ledger.rows, index ≤ ledger.plan.decided
  served : ledger.served ⊆ ledger.rows
  acknowledged : ledger.acknowledged ⊆ ledger.rows.filter (· ≤ ledger.plan.acked)
  counted : ledger.plan.ackedBatches = ledger.acknowledged.card
  room : ledger.plan.closed = false → ledger.plan.openReal.card ≤ ledger.plan.width
  cap : ledger.plan.max ≠ 0 → ledger.plan.width ≤ ledger.plan.max

theorem books_opened (start cap : UInt64) : Books (Ledger.opened start cap) where
  sorted := .nil
  reached := by simp [Ledger.opened, Plan.new]
  carries := by simp [Ledger.opened, Plan.new]
  openReal := rfl
  unanswered := rfl
  arrived := Finset.empty_subset _
  rows := by simp [Ledger.opened]
  served := Finset.empty_subset _
  acknowledged := Finset.empty_subset _
  counted := rfl
  room := fun _ => Nat.zero_le _
  cap := by
    intro capped
    have capped : cap.toNat ≠ 0 := capped
    simp only [Ledger.opened, Plan.new, capped, ↓reduceIte]
    exact Nat.min_le_right _ _

/-- The ledger beside a plan that has taken an ack. -/
def Ledger.beside (ledger : Ledger) (plan : Plan) : Ledger :=
  { ledger with
    plan
    acknowledged :=
      if ledger.plan.acked < plan.acked then ledger.acknowledged ∪ ledger.rows.filter (· ≤ plan.acked)
      else ledger.acknowledged }

/-- What the inline batches and an ack do to a plan. -/
structure Takes (ledger : Ledger) (ack first : ℕ) (plan : Plan) : Prop where
  books : Books (ledger.beside plan)
  acked : plan.acked = max ledger.plan.acked ack
  decided : plan.decided = max ledger.plan.decided first
  closed : plan.closed = ledger.plan.closed
  cap : plan.max = ledger.plan.max
  heldSince : plan.heldSince ⊆ ledger.plan.heldSince
  ackHold : plan.ackHold = ledger.plan.ackHold ∨ plan.ackHold = ackHoldMs
  empties : plan.empties = ledger.plan.empties
  growth : Doublings ledger.plan.max (ledger.beside plan).acknowledged.card
    (ledger.plan.width, ledger.plan.nextGrowth) (plan.width, plan.nextGrowth)

/-- An ack that moves covers the open indices up to it. -/
private theorem covered_eq {ledger : Ledger} (books : Books ledger) (ack : ℕ) :
    ledger.acknowledged ∪ ledger.rows.filter (· ≤ ack) ⊆ ledger.acknowledged ∪ dropped ack ledger.plan.answers ∧
      dropped ack ledger.plan.answers ⊆ ledger.rows.filter (· ≤ ack) \ ledger.acknowledged := by
  have inside : ∀ index, index ∈ dropped ack ledger.plan.answers ↔
      index ≤ ack ∧ index ∈ ledger.rows ∧ index ∉ ledger.acknowledged := by
    intro index
    rw [mem_dropped, ← books.carries, books.openReal, Finset.mem_sdiff]
  constructor
  · intro index member
    simp only [Finset.mem_union, Finset.mem_filter] at member ⊢
    rw [inside]
    tauto
  · intro index member
    rw [inside] at member
    simp only [Finset.mem_sdiff, Finset.mem_filter]
    tauto

theorem Books.taken {ledger : Ledger} (books : Books ledger) (positive : 0 < ledger.plan.width) (ack first : UInt64) :
    Takes ledger ack.toNat first.toNat (ledger.plan.taken ack first) := by
  by_cases moved : ledger.plan.acked < ack.toNat
  · have acks : Acks (ledger.plan.inlined first.toNat) ack.toNat (ledger.plan.taken ack first) :=
      acknowledge_acks books.sorted positive moved
    generalize ledger.plan.taken ack first = after at acks
    obtain ⟨least, most⟩ := covered_eq books ack.toNat
    have covered : (ledger.beside after).acknowledged = ledger.acknowledged ∪ dropped ack.toNat ledger.plan.answers := by
      unfold Ledger.beside
      dsimp only
      rw [acks.acked, if_pos moved]
      exact Finset.Subset.antisymm least (Finset.union_subset_union_right (most.trans Finset.sdiff_subset))
    have apart : Disjoint ledger.acknowledged (dropped ack.toNat ledger.plan.answers) :=
      Finset.disjoint_of_subset_right most Finset.disjoint_sdiff
    have count : after.ackedBatches = (ledger.acknowledged ∪ dropped ack.toNat ledger.plan.answers).card := by
      rw [Finset.card_union_of_disjoint apart, ← books.counted]
      exact acks.ackedBatches
    refine ⟨?_, ?_, acks.decided, acks.closed, acks.cap, acks.heldSince, .inr acks.ackHold,
      acks.empties, ?_⟩
    · have inside : ∀ index, index ∈ dropped ack.toNat ledger.plan.answers ↔
          index ≤ ack.toNat ∧ index ∈ ledger.plan.openReal := by
        intro index
        rw [mem_dropped, books.carries]
      have opened : after.openReal = ledger.plan.openReal \ dropped ack.toNat ledger.plan.answers := acks.openReal
      have answers : after.answers = ledger.plan.answers.filter fun entry => decide (ack.toNat < entry.1) := acks.answers
      have unanswered : after.unanswered = ledger.plan.unanswered \ dropped ack.toNat ledger.plan.answers :=
        acks.unanswered
      have arrived : after.arrived = ledger.plan.arrived \ dropped ack.toNat ledger.plan.answers := acks.arrived
      have decided : after.decided = max ledger.plan.decided first.toNat := acks.decided
      refine ⟨?_, ?_, ?_, ?_, ?_, ?_, ?_, books.served, ?_, ?_, ?_, ?_⟩
      · show after.answers.Pairwise _
        rw [answers]
        exact books.sorted.filter _
      · intro entry member
        change entry ∈ after.answers at member
        show _ ≤ after.decided
        rw [answers] at member
        rw [decided]
        exact (books.reached entry (List.mem_of_mem_filter member)).trans (Nat.le_max_left _ _)
      · intro index
        show index ∈ after.openReal ↔ ∃ source, (index, some source) ∈ after.answers
        rw [opened, Finset.mem_sdiff, inside, books.carries, answers]
        simp only [List.mem_filter, decide_eq_true_eq, exists_and_right]
        constructor
        · rintro ⟨isOpen, kept⟩
          exact ⟨isOpen, Nat.lt_of_not_le fun low => kept ⟨low, isOpen⟩⟩
        · rintro ⟨isOpen, above⟩
          exact ⟨isOpen, fun low => absurd low.1 (Nat.not_le_of_lt above)⟩
      · show after.openReal = ledger.rows \ (ledger.beside after).acknowledged
        rw [covered, opened, books.openReal, sdiff_sdiff, Finset.sup_eq_union]
      · show after.unanswered = (ledger.rows \ (ledger.beside after).acknowledged) \ ledger.served
        rw [covered, unanswered, books.unanswered, ← Finset.sup_eq_union, ← sdiff_sdiff, sdiff_sdiff_comm]
      · show after.arrived ⊆ after.unanswered ∩ ledger.named
        rw [arrived, unanswered]
        intro index member
        obtain ⟨here, kept⟩ := Finset.mem_sdiff.mp member
        obtain ⟨waits, named⟩ := Finset.mem_inter.mp (books.arrived here)
        exact Finset.mem_inter.mpr ⟨Finset.mem_sdiff.mpr ⟨waits, kept⟩, named⟩
      · intro index member
        show index ≤ after.decided
        rw [decided]
        exact (books.rows index member).trans (Nat.le_max_left _ _)
      · show (ledger.beside after).acknowledged ⊆ ledger.rows.filter (· ≤ after.acked)
        rw [covered, acks.acked]
        refine Finset.union_subset (fun index member => ?_) (most.trans Finset.sdiff_subset)
        obtain ⟨row, low⟩ := Finset.mem_filter.mp (books.acknowledged member)
        exact Finset.mem_filter.mpr ⟨row, low.trans (Nat.le_of_lt moved)⟩
      · show after.ackedBatches = (ledger.beside after).acknowledged.card
        rw [covered, count]
      · intro isOpen
        have isOpen : ledger.plan.closed = false := acks.closed.symm.trans isOpen
        show after.openReal.card ≤ after.width
        rw [opened]
        exact (Finset.card_le_card Finset.sdiff_subset).trans ((books.room isOpen).trans acks.growth.width_le)
      · intro capped
        have capped : ledger.plan.max ≠ 0 := fun none => capped (acks.cap.trans none)
        show after.width ≤ after.max
        rw [acks.cap]
        exact acks.growth.le_cap capped (books.cap capped)
    · rw [acks.acked, Nat.max_eq_right (Nat.le_of_lt moved)]
    · rw [covered, ← count]
      exact acks.growth
  · have untouched : ledger.plan.taken ack first = ledger.plan.inlined first.toNat := if_neg moved
    have least : max ledger.plan.acked ack.toNat = ledger.plan.acked := Nat.max_eq_left (Nat.le_of_not_lt moved)
    have beside : ledger.beside (ledger.plan.inlined first.toNat) =
        { ledger with plan := ledger.plan.inlined first.toNat } := by
      have same : ¬ ledger.plan.acked < (ledger.plan.inlined first.toNat).acked := Nat.lt_irrefl _
      unfold Ledger.beside
      rw [if_neg same]
    rw [untouched]
    refine ⟨?_, least.symm, rfl, rfl, rfl, List.Subset.refl _, .inl rfl, rfl, .stay _⟩
    rw [beside]
    exact ⟨books.sorted, fun entry member => (books.reached entry member).trans (Nat.le_max_left _ _), books.carries,
      books.openReal, books.unanswered, books.arrived,
      fun index member => (books.rows index member).trans (Nat.le_max_left _ _), books.served,
      books.acknowledged, books.counted, books.room, books.cap⟩

/-- What a plan has decided to carry rows above an index that it has not reached is nothing. -/
theorem newRows_of_le {plan : Plan} {decided : ℕ} (reached : ∀ entry ∈ plan.answers, entry.1 ≤ decided) :
    Ledger.newRows plan decided = ∅ := by
  have none_new : (plan.answers.filter fun entry => decide (decided < entry.1) && entry.2.isSome) = [] := by
    rw [List.filter_eq_nil_iff]
    intro entry member
    have := reached entry member
    simp only [Bool.and_eq_true, decide_eq_true_eq, not_and]
    omega
  rw [Ledger.newRows, none_new]
  rfl

/-- Deciding one more index. -/
theorem Books.decideNext {ledger : Ledger} (books : Books ledger) :
    Books { ledger with
      plan := ledger.plan.decideNext
      rows := ledger.rows ∪ Ledger.newRows ledger.plan.decideNext ledger.plan.decided } := by
  have old : (ledger.plan.answers.filter fun entry => decide (ledger.plan.decided < entry.1) && entry.2.isSome) = [] := by
    rw [List.filter_eq_nil_iff]
    intro entry member
    have := books.reached entry member
    simp only [Bool.and_eq_true, decide_eq_true_eq, not_and]
    omega
  have sorted : ∀ answer, (ledger.plan.answers ++ [(ledger.plan.decided + 1, answer)]).Pairwise
      fun (left right : ℕ × Option ℕ) => left.1 < right.1 := by
    intro answer
    refine List.pairwise_append.mpr ⟨books.sorted, List.pairwise_singleton _ _, fun entry member last only => ?_⟩
    obtain rfl := List.mem_singleton.mp only
    exact Nat.lt_succ_of_le (books.reached entry member)
  have reached : ∀ answer, ∀ entry ∈ ledger.plan.answers ++ [(ledger.plan.decided + 1, answer)],
      entry.1 ≤ ledger.plan.decided + 1 := by
    intro answer entry member
    rcases List.mem_append.mp member with member | only
    · exact (books.reached entry member).trans (Nat.le_succ _)
    · obtain rfl := List.mem_singleton.mp only
      exact Nat.le_refl _
  have fresh : ledger.plan.decided + 1 ∉ ledger.rows := fun member =>
    absurd (books.rows _ member) (Nat.not_succ_le_self _)
  unfold Plan.decideNext
  dsimp only
  split
  · have added : Ledger.newRows { ledger.plan with
        answers := ledger.plan.answers ++ [(ledger.plan.decided + 1, none)]
        empties := ledger.plan.empties + 1
        decided := ledger.plan.decided + 1 } ledger.plan.decided = ∅ := by
      simp only [Ledger.newRows, List.filter_append, old]
      simp
    rw [added, Finset.union_empty]
    refine ⟨sorted none, reached none, ?_, books.openReal, books.unanswered, books.arrived,
      fun index member => (books.rows index member).trans (Nat.le_succ _), books.served, books.acknowledged,
      books.counted, books.room, books.cap⟩
    intro index
    show index ∈ ledger.plan.openReal ↔ _
    rw [books.carries]
    simp
  · next room =>
    have added : Ledger.newRows { ledger.plan with
        answers := ledger.plan.answers ++ [(ledger.plan.decided + 1, some (ledger.plan.decided + 1 - ledger.plan.empties))]
        openReal := insert (ledger.plan.decided + 1) ledger.plan.openReal
        unanswered := insert (ledger.plan.decided + 1) ledger.plan.unanswered
        decided := ledger.plan.decided + 1 } ledger.plan.decided = {ledger.plan.decided + 1} := by
      simp only [Ledger.newRows, List.filter_append, old]
      simp
    have notAcked : ledger.plan.decided + 1 ∉ ledger.acknowledged := fun member =>
      fresh (Finset.mem_of_mem_filter _ (books.acknowledged member))
    have notServed : ledger.plan.decided + 1 ∉ ledger.served := fun member => fresh (books.served member)
    rw [added]
    refine ⟨sorted _, reached _, ?_, ?_, ?_, ?_, ?_, books.served.trans Finset.subset_union_left, ?_, books.counted, ?_,
      books.cap⟩
    · intro index
      show index ∈ insert (ledger.plan.decided + 1) ledger.plan.openReal ↔ _
      rw [Finset.mem_insert, books.carries]
      simp only [List.mem_append, List.mem_singleton, Prod.mk.injEq, Option.some.injEq]
      constructor
      · rintro (rfl | ⟨source, member⟩)
        · exact ⟨_, .inr ⟨rfl, rfl⟩⟩
        · exact ⟨source, .inl member⟩
      · rintro ⟨source, member | ⟨rfl, _⟩⟩
        · exact .inr ⟨source, member⟩
        · exact .inl rfl
    · show insert (ledger.plan.decided + 1) ledger.plan.openReal =
        (ledger.rows ∪ {ledger.plan.decided + 1}) \ ledger.acknowledged
      rw [Finset.union_comm, Finset.singleton_union, Finset.insert_sdiff_of_notMem _ notAcked, books.openReal]
    · show insert (ledger.plan.decided + 1) ledger.plan.unanswered =
        ((ledger.rows ∪ {ledger.plan.decided + 1}) \ ledger.acknowledged) \ ledger.served
      rw [Finset.union_comm, Finset.singleton_union, Finset.insert_sdiff_of_notMem _ notAcked,
        Finset.insert_sdiff_of_notMem _ notServed, books.unanswered]
    · exact books.arrived.trans (Finset.inter_subset_inter_right (Finset.subset_insert _ _))
    · intro index member
      rcases Finset.mem_union.mp member with member | only
      · exact (books.rows index member).trans (Nat.le_succ _)
      · exact (Finset.mem_singleton.mp only).le
    · exact books.acknowledged.trans (Finset.filter_subset_filter _ Finset.subset_union_left)
    · intro isOpen
      have smaller : ledger.plan.openReal.card < ledger.plan.width := Nat.lt_of_not_le fun full => room ⟨isOpen, full⟩
      exact (Finset.card_insert_le _ _).trans smaller

/-- Deciding on adds the rows one index at a time. -/
private theorem newRows_decideMore (more : ℕ) (plan : Plan) :
    Ledger.newRows (plan.decideMore (more + 1)) plan.decided =
      Ledger.newRows plan.decideNext plan.decided ∪ Ledger.newRows (plan.decideNext.decideMore more) (plan.decided + 1) := by
  obtain ⟨answer, answers, decided⟩ := decideNext_answers plan
  obtain ⟨added, later, above, _⟩ := decideMore_answers more plan.decideNext
  rw [decided] at above
  ext index
  simp only [Ledger.newRows, Plan.decideMore, later, answers, Finset.mem_union, List.mem_toFinset, List.mem_map,
    List.mem_filter, List.mem_append, List.mem_singleton, Bool.and_eq_true, decide_eq_true_eq, Prod.exists,
    exists_and_right, exists_eq_right]
  constructor
  · rintro ⟨decision, (old | new) | late, new', rows⟩
    · exact .inl ⟨decision, .inl old, new', rows⟩
    · exact .inl ⟨decision, .inr new, new', rows⟩
    · exact .inr ⟨decision, .inr late, above _ late, rows⟩
  · rintro (⟨decision, here, new', rows⟩ | ⟨decision, here, new', rows⟩)
    · exact ⟨decision, .inl here, new', rows⟩
    · exact ⟨decision, here, Nat.lt_of_succ_lt new', rows⟩

/-- Deciding on changes the answers, the open and unanswered indices and the counts of both kinds. -/
private theorem decideMore_frame (more : ℕ) (plan : Plan) :
    (plan.decideMore more).acked = plan.acked ∧ (plan.decideMore more).closed = plan.closed ∧
      (plan.decideMore more).max = plan.max ∧ (plan.decideMore more).width = plan.width ∧
      (plan.decideMore more).nextGrowth = plan.nextGrowth ∧ (plan.decideMore more).heldSince = plan.heldSince ∧
      (plan.decideMore more).ackHold = plan.ackHold := by
  induction more generalizing plan with
  | zero => exact ⟨rfl, rfl, rfl, rfl, rfl, rfl, rfl⟩
  | succ more ih =>
    have next : plan.decideNext.acked = plan.acked ∧ plan.decideNext.closed = plan.closed ∧
        plan.decideNext.max = plan.max ∧ plan.decideNext.width = plan.width ∧
        plan.decideNext.nextGrowth = plan.nextGrowth ∧ plan.decideNext.heldSince = plan.heldSince ∧
        plan.decideNext.ackHold = plan.ackHold := by
      unfold Plan.decideNext
      dsimp only
      split <;> exact ⟨rfl, rfl, rfl, rfl, rfl, rfl, rfl⟩
    obtain ⟨acked, closed, cap, width, growth, held, hold⟩ := ih plan.decideNext
    exact ⟨acked.trans next.1, closed.trans next.2.1, cap.trans next.2.2.1, width.trans next.2.2.2.1,
      growth.trans next.2.2.2.2.1, held.trans next.2.2.2.2.2.1, hold.trans next.2.2.2.2.2.2⟩

theorem Books.decideMore {ledger : Ledger} (books : Books ledger) (more : ℕ) :
    Books { ledger with
      plan := ledger.plan.decideMore more
      rows := ledger.rows ∪ Ledger.newRows (ledger.plan.decideMore more) ledger.plan.decided } := by
  induction more generalizing ledger with
  | zero =>
    have none_new : Ledger.newRows (ledger.plan.decideMore 0) ledger.plan.decided = ∅ := newRows_of_le books.reached
    rw [none_new, Finset.union_empty]
    exact books
  | succ more ih =>
    obtain ⟨_, _, decided⟩ := decideNext_answers ledger.plan
    have later := ih books.decideNext
    dsimp only at later
    rw [decided, Finset.union_assoc, ← newRows_decideMore more ledger.plan] at later
    exact later

/-! ## One call -/

/-- What a FETCH does with the plan that has taken its ack: it decides up to the index, or refuses. -/
theorem decideWithin_eq (plan : Plan) (farthest index : ℕ) :
    ∃ more, (farthest < index → more = 0 ∧ (plan.decideWithin farthest index).1 = .tooFar) ∧
      (index ≤ farthest → more = index - plan.decided ∧ (plan.decideWithin farthest index).1 ≠ .tooFar) ∧
      ((plan.decideWithin farthest index).2 = plan.decideMore more ∨
        (plan.decideWithin farthest index).2 =
          { plan.decideMore more with arrived := insert index (plan.decideMore more).arrived } ∧
        index ∈ (plan.decideMore more).unanswered) := by
  unfold Plan.decideWithin
  by_cases far : farthest < index
  · rw [if_pos far]
    exact ⟨0, fun _ => ⟨rfl, rfl⟩, fun near => absurd far (Nat.not_lt_of_le near), .inl rfl⟩
  · rw [if_neg far]
    refine ⟨index - plan.decided, fun far' => absurd far' far, fun _ => ⟨rfl, ?_⟩, ?_⟩
    · unfold Plan.answer
      split <;> simp
    · unfold Plan.answer
      split
      · exact .inl rfl
      · exact .inl rfl
      · split
        · next waits => exact .inr ⟨rfl, waits⟩
        · exact .inl rfl

variable {ledger : Ledger} {index ack first : UInt64}

/-- The bound a FETCH is held to: `MAX_AHEAD` above the ack it leaves behind. -/
def Ledger.bound (ledger : Ledger) (ack first : UInt64) : UInt64 :=
  UInt64.ofNat (max (max ledger.plan.acked ack.toNat) first.toNat) + UInt64.ofNat maxAhead

/-- The highest index decided once the inline batches count. -/
def Ledger.reach (ledger : Ledger) (first : UInt64) : ℕ := max ledger.plan.decided first.toNat

/-- What a FETCH does to a plan with a window. -/
structure Fetched (ledger : Ledger) (index ack first : UInt64) : Prop where
  books : Books (ledger.step (.fetch index ack first))
  acked : (ledger.step (.fetch index ack first)).plan.acked = max ledger.plan.acked ack.toNat
  closed : (ledger.step (.fetch index ack first)).plan.closed = ledger.plan.closed
  cap : (ledger.step (.fetch index ack first)).plan.max = ledger.plan.max
  refused : ledger.bound ack first < index → (ledger.plan.fetch index ack first).1 = .tooFar ∧
    (ledger.step (.fetch index ack first)).plan.decided = ledger.reach first
  decided : index ≤ ledger.bound ack first → (ledger.plan.fetch index ack first).1 ≠ .tooFar ∧
    (ledger.step (.fetch index ack first)).plan.decided = max (ledger.reach first) index.toNat
  rows : ∀ row ∈ (ledger.step (.fetch index ack first)).rows, row ∈ ledger.rows ∨
    ledger.reach first < row ∧ index ≤ ledger.bound ack first ∧ row ≤ index.toNat
  heldSince : (ledger.step (.fetch index ack first)).plan.heldSince ⊆ ledger.plan.heldSince
  ackHold : (ledger.step (.fetch index ack first)).plan.ackHold = ledger.plan.ackHold ∨
    (ledger.step (.fetch index ack first)).plan.ackHold = ackHoldMs
  empties : (ledger.step (.fetch index ack first)).plan.empties + ledger.reach first ≤
    ledger.plan.empties + (ledger.step (.fetch index ack first)).plan.decided
  growth : Doublings ledger.plan.max (ledger.step (.fetch index ack first)).acknowledged.card
    (ledger.plan.width, ledger.plan.nextGrowth)
    ((ledger.step (.fetch index ack first)).plan.width, (ledger.step (.fetch index ack first)).plan.nextGrowth)

theorem Books.named (books : Books ledger) (index : ℕ) : Books { ledger with named := insert index ledger.named } :=
  { books with arrived := books.arrived.trans (Finset.inter_subset_inter_left (Finset.subset_insert _ _)) }

/-- An open index's own FETCH is here. -/
theorem Books.arrive (books : Books ledger) {index : ℕ} (waits : index ∈ ledger.plan.unanswered)
    (named : index ∈ ledger.named) :
    Books { ledger with plan := { ledger.plan with arrived := insert index ledger.plan.arrived } } :=
  { books with arrived := Finset.insert_subset (Finset.mem_inter.mpr ⟨waits, named⟩) books.arrived }

theorem newRows_congr {plan plan' : Plan} (same : plan.answers = plan'.answers) (decided : ℕ) :
    Ledger.newRows plan decided = Ledger.newRows plan' decided := by
  rw [Ledger.newRows, Ledger.newRows, same]

theorem Books.fetched (books : Books ledger) (positive : 0 < ledger.plan.width) (index ack first : UInt64) :
    Fetched ledger index ack first := by
  have takes := books.taken positive ack first
  have bound : (ledger.plan.taken ack first).farthest first = ledger.bound ack first := by
    rw [Plan.farthest, takes.acked, Ledger.bound]
  have called : ledger.plan.fetch index ack first =
      (ledger.plan.taken ack first).decideWithin (ledger.bound ack first).toNat index.toNat := by
    rw [Plan.fetch, if_neg (Nat.pos_iff_ne_zero.mp positive), bound]
  obtain ⟨more, far, near, result⟩ := decideWithin_eq (ledger.plan.taken ack first) (ledger.bound ack first).toNat
    index.toNat
  rw [← called] at far near result
  have decided : (ledger.plan.taken ack first).decided = ledger.reach first := takes.decided
  have mores := takes.books.decideMore more
  obtain ⟨frameAcked, frameClosed, frameCap, frameWidth, frameGrowth, frameHeld, frameHold⟩ :=
    decideMore_frame more (ledger.plan.taken ack first)
  obtain ⟨added, answers, above, reach⟩ := decideMore_answers more (ledger.plan.taken ack first)
  generalize ledger.plan.taken ack first = taken at *
  have sameBooks : ∀ plan', plan'.acked = taken.acked → plan'.answers = (taken.decideMore more).answers →
      ({ plan := plan'
         rows := ledger.rows ∪ Ledger.newRows plan' (ledger.reach first)
         acknowledged := if ledger.plan.acked < plan'.acked then
           ledger.acknowledged ∪ ledger.rows.filter (· ≤ plan'.acked) else ledger.acknowledged
         served := ledger.served
         named := insert index.toNat ledger.named } : Ledger) =
      { plan := plan'
        rows := ledger.rows ∪ Ledger.newRows (taken.decideMore more) taken.decided
        acknowledged := (ledger.beside taken).acknowledged
        served := ledger.served
        named := insert index.toNat ledger.named } := by
    intro plan' acked answers
    rw [newRows_congr answers, acked, decided]
    rfl
  have rows : ∀ row ∈ ledger.rows ∪ Ledger.newRows (taken.decideMore more) taken.decided, row ∈ ledger.rows ∨
      ledger.reach first < row ∧ index ≤ ledger.bound ack first ∧ row ≤ index.toNat := by
    intro row member
    rcases Finset.mem_union.mp member with old | new
    · exact .inl old
    · simp only [Ledger.newRows, List.mem_toFinset, List.mem_map, List.mem_filter, Bool.and_eq_true,
        decide_eq_true_eq, Prod.exists, exists_and_right, exists_eq_right] at new
      obtain ⟨decision, entry, beyond, _⟩ := new
      have low := mores.reached _ entry
      change row ≤ (taken.decideMore more).decided at low
      rw [reach] at low
      rw [decided] at beyond low
      by_cases isFar : (ledger.bound ack first).toNat < index.toNat
      · obtain ⟨rfl, _⟩ := far isFar
        omega
      · have isNear := Nat.le_of_not_lt isFar
        rw [decided] at near
        obtain ⟨rfl, _⟩ := near isNear
        exact .inr ⟨beyond, UInt64.le_iff_toNat_le.mpr isNear, by omega⟩
  have refused : ledger.bound ack first < index → (ledger.plan.fetch index ack first).1 = .tooFar ∧
      (taken.decideMore more).decided = ledger.reach first := by
    intro isFar
    obtain ⟨rfl, told⟩ := far (UInt64.lt_iff_toNat_lt.mp isFar)
    exact ⟨told, reach.trans (decided ▸ rfl)⟩
  have allowed : index ≤ ledger.bound ack first → (ledger.plan.fetch index ack first).1 ≠ .tooFar ∧
      (taken.decideMore more).decided = max (ledger.reach first) index.toNat := by
    intro isNear
    obtain ⟨rfl, told⟩ := near (UInt64.le_iff_toNat_le.mp isNear)
    refine ⟨told, reach.trans ?_⟩
    rw [decided]
    omega
  have stepped : ∀ plan', (ledger.plan.fetch index ack first).2 = plan' → plan'.acked = taken.acked →
      plan'.answers = (taken.decideMore more).answers → ledger.step (.fetch index ack first) =
      { plan := plan'
        rows := ledger.rows ∪ Ledger.newRows (taken.decideMore more) taken.decided
        acknowledged := (ledger.beside taken).acknowledged
        served := ledger.served
        named := insert index.toNat ledger.named } := by
    rintro _ rfl acked answers
    exact sameBooks _ acked answers
  have growth := takes.growth
  have empties : (taken.decideMore more).empties + ledger.reach first ≤
      ledger.plan.empties + (taken.decideMore more).decided := by
    have few := decideMore_empties more taken
    rw [takes.empties] at few
    rw [reach, decided]
    omega
  rcases result with plain | ⟨arrives, waits⟩
  · have same := stepped _ plain frameAcked rfl
    constructor <;> rw [same]
    · exact mores.named _
    · exact frameAcked.trans takes.acked
    · exact frameClosed.trans takes.closed
    · exact frameCap.trans takes.cap
    · exact refused
    · exact allowed
    · exact rows
    · exact frameHeld ▸ takes.heldSince
    · exact frameHold ▸ takes.ackHold
    · exact empties
    · rw [frameWidth, frameGrowth]
      exact growth
  · have same := stepped _ arrives frameAcked rfl
    constructor <;> rw [same]
    · exact (mores.named index.toNat).arrive waits (Finset.mem_insert_self _ _)
    · exact frameAcked.trans takes.acked
    · exact frameClosed.trans takes.closed
    · exact frameCap.trans takes.cap
    · exact refused
    · exact allowed
    · exact rows
    · exact frameHeld ▸ takes.heldSince
    · exact frameHold ▸ takes.ackHold
    · exact empties
    · dsimp only
      rw [frameWidth, frameGrowth]
      exact growth

/-- Without a window a FETCH decides nothing. -/
theorem Books.unwindowed (books : Books ledger) (none : ledger.plan.width = 0) (index ack first : UInt64) :
    ledger.step (.fetch index ack first) = { ledger with named := insert index.toNat ledger.named } := by
  have same : (ledger.plan.fetch index ack first).2 = ledger.plan := by
    rw [Plan.fetch, if_pos none]
  have noRows : Ledger.newRows ledger.plan (max ledger.plan.decided first.toNat) = ∅ :=
    newRows_of_le fun entry member => (books.reached entry member).trans (Nat.le_max_left _ _)
  unfold Ledger.step
  dsimp only
  rw [same, noRows, Finset.union_empty, if_neg (Nat.lt_irrefl _)]

theorem Books.answered (books : Books ledger) (index : UInt64) : Books (ledger.step (.answered index)) := by
  have served : (if index.toNat ∈ ledger.rows then insert index.toNat ledger.served else ledger.served) ⊆ ledger.rows := by
    split
    · next row => exact Finset.insert_subset row books.served
    · exact books.served
  refine { books with unanswered := ?_, arrived := ?_, served := served }
  · show ledger.plan.unanswered.erase index.toNat = (ledger.rows \ ledger.acknowledged) \
      if index.toNat ∈ ledger.rows then insert index.toNat ledger.served else ledger.served
    rw [books.unanswered]
    ext row
    simp only [Finset.mem_erase, Finset.mem_sdiff]
    split
    · rw [Finset.mem_insert]
      tauto
    · next absent =>
      constructor
      · exact fun kept => kept.2
      · exact fun kept => ⟨fun same => absent (same ▸ kept.1.1), kept⟩
  · show ledger.plan.arrived.erase index.toNat ⊆ ledger.plan.unanswered.erase index.toNat ∩ ledger.named
    intro row member
    obtain ⟨other, here⟩ := Finset.mem_erase.mp member
    obtain ⟨waits, named⟩ := Finset.mem_inter.mp (books.arrived here)
    exact Finset.mem_inter.mpr ⟨Finset.mem_erase.mpr ⟨other, waits⟩, named⟩

/-- What polling an empty index does to a plan: it touches the timers only. -/
theorem emptyHold_frame (plan : Plan) (index now : ℕ) :
    (plan.emptyHold index now).2 =
      { plan with heldSince := (plan.emptyHold index now).2.heldSince, ackHold := (plan.emptyHold index now).2.ackHold } := by
  unfold Plan.emptyHold
  split
  · rfl
  · split
    · rfl
    · dsimp only
      split <;> rfl

theorem Books.emptyHold (books : Books ledger) (index : UInt64) (now : ClockReading) :
    Books (ledger.step (.emptyHold index now)) := by
  show Books { ledger with plan := (ledger.plan.emptyHold index.toNat now.ms).2 }
  rw [emptyHold_frame]
  exact { books with }

theorem Books.close (books : Books ledger) : Books (ledger.step .close) := by
  have still : Books { ledger with plan := ledger.plan.close } := { books with room := fun isOpen => nomatch isOpen }
  exact still

/-- One call keeps the books. -/
theorem Books.step (books : Books ledger) (request : Request) : Books (ledger.step request) := by
  cases request with
  | fetch index ack first =>
    rcases Nat.eq_zero_or_pos ledger.plan.width with none | positive
    · rw [books.unwindowed none]
      exact books.named _
    · exact (books.fetched positive index ack first).books
  | answered index => exact books.answered index
  | emptyHold index now => exact books.emptyHold index now
  | close => exact books.close

/-- The books hold after every sequence of calls. -/
theorem Books.run (books : Books ledger) (requests : List Request) : Books (ledger.run requests) := by
  induction requests generalizing ledger with
  | nil => exact books
  | cons request rest ih => exact ih (books.step request)

/-- The window grows, by doublings, and its cap stays. -/
theorem Books.step_growth (books : Books ledger) (request : Request) :
    (ledger.step request).plan.max = ledger.plan.max ∧
      Doublings ledger.plan.max (ledger.step request).acknowledged.card (ledger.plan.width, ledger.plan.nextGrowth)
        ((ledger.step request).plan.width, (ledger.step request).plan.nextGrowth) := by
  cases request with
  | fetch index ack first =>
    rcases Nat.eq_zero_or_pos ledger.plan.width with none | positive
    · rw [books.unwindowed none]
      exact ⟨rfl, .stay _⟩
    · have fetched := books.fetched positive index ack first
      exact ⟨fetched.cap, fetched.growth⟩
  | answered index => exact ⟨rfl, .stay _⟩
  | emptyHold index now =>
    show (ledger.plan.emptyHold index.toNat now.ms).2.max = _ ∧ Doublings _ _ _
      ((ledger.plan.emptyHold index.toNat now.ms).2.width, (ledger.plan.emptyHold index.toNat now.ms).2.nextGrowth)
    rw [emptyHold_frame]
    exact ⟨rfl, .stay _⟩
  | close => exact ⟨rfl, .stay _⟩

/-- A window of at least one stays one. -/
theorem Books.step_positive (books : Books ledger) (positive : 0 < ledger.plan.width) (request : Request) :
    0 < (ledger.step request).plan.width :=
  positive.trans_le (books.step_growth request).2.width_le

theorem Books.run_positive (books : Books ledger) (positive : 0 < ledger.plan.width) (requests : List Request) :
    0 < (ledger.run requests).plan.width := by
  induction requests generalizing ledger with
  | nil => exact positive
  | cons request rest ih => exact ih (books.step request) (books.step_positive positive request)

theorem opened_positive {start : UInt64} (windowed : 1 ≤ start) (cap : UInt64) :
    0 < (Ledger.opened start cap).plan.width := by
  have one : 1 ≤ start.toNat := UInt64.le_iff_toNat_le.mp windowed
  show 0 < if cap.toNat = 0 then start.toNat else min start.toNat cap.toNat
  split <;> omega

/-! ## The counters fit 64 bits -/

/-- What a window grows to stays small: it doubles only below `MAX_AHEAD`. -/
private theorem Doublings.fits {cap total : ℕ} {window window' : ℕ × ℕ} (doublings : Doublings cap total window window')
    (width : window.1 < 2 ^ 64) (growth : window.2 = window.1 ∨ window.2 ≤ 2 ^ 18)
    (near : window.2 ≤ 2 * window.1 ∨ window.1 = cap) :
    window'.1 < 2 ^ 64 ∧ (window'.2 = window'.1 ∨ window'.2 ≤ 2 ^ 18) ∧
      (window'.2 ≤ 2 * window'.1 ∨ window'.1 = cap) := by
  induction doublings with
  | stay => exact ⟨width, growth, near⟩
  | double reached narrow doubled grown more ih =>
    dsimp only at *
    unfold maxAhead at narrow
    apply ih
    · split at doubled <;> omega
    · split at doubled <;> omega
    · split at doubled <;> omega

/-- The sums the plan computes, other than its bound, do not wrap. -/
structure CountersFit (ledger : Ledger) : Prop where
  width : ledger.plan.width < 2 ^ 64
  nextGrowth : (ledger.plan.nextGrowth = ledger.plan.width ∨ ledger.plan.nextGrowth ≤ 2 ^ 18) ∧
    (ledger.plan.nextGrowth ≤ 2 * ledger.plan.width ∨ ledger.plan.width = ledger.plan.max)
  decided : ledger.plan.decided < 2 ^ 64
  empties : ledger.plan.empties ≤ ledger.plan.decided
  rows : 0 ∉ ledger.rows

theorem countersFit_opened (start cap : UInt64) : CountersFit (Ledger.opened start cap) := by
  have small := start.toNat_lt
  refine ⟨?_, ⟨.inl rfl, .inl ?_⟩, Nat.two_pow_pos 64, Nat.le_refl _, by simp [Ledger.opened]⟩
  · show (if cap.toNat = 0 then start.toNat else min start.toNat cap.toNat) < _
    split <;> omega
  · show (Ledger.opened start cap).plan.width ≤ _
    omega

private theorem CountersFit.fetched (fit : CountersFit ledger) (books : Books ledger) (index ack first : UInt64) :
    let after := ledger.step (.fetch index ack first)
    after.plan.decided < 2 ^ 64 ∧ after.plan.empties ≤ after.plan.decided ∧ 0 ∉ after.rows := by
  dsimp only
  rcases Nat.eq_zero_or_pos ledger.plan.width with none | positive
  · rw [books.unwindowed none]
    exact ⟨fit.decided, fit.empties, fit.rows⟩
  · have fetched := books.fetched positive index ack first
    have reach : ledger.reach first < 2 ^ 64 := Nat.max_lt.mpr ⟨fit.decided, first.toNat_lt⟩
    have inside : ledger.plan.decided ≤ ledger.reach first := Nat.le_max_left _ _
    have empties := fetched.empties
    have old := fit.empties
    have small := index.toNat_lt
    have rows : 0 ∉ (ledger.step (.fetch index ack first)).rows := fun zero =>
      (fetched.rows 0 zero).elim fit.rows fun new => absurd new.1 (Nat.not_lt_zero _)
    by_cases far : ledger.bound ack first < index
    · have decided := (fetched.refused far).2
      exact ⟨by omega, by omega, rows⟩
    · have near : index ≤ ledger.bound ack first := by
        rw [UInt64.le_iff_toNat_le]
        exact Nat.le_of_not_lt fun beyond => far (UInt64.lt_iff_toNat_lt.mpr beyond)
      have decided := (fetched.decided near).2
      exact ⟨by omega, by omega, rows⟩

theorem CountersFit.step (fit : CountersFit ledger) (books : Books ledger) (request : Request) :
    CountersFit (ledger.step request) := by
  obtain ⟨cap, growth⟩ := books.step_growth request
  obtain ⟨width, nextGrowth, near⟩ := growth.fits fit.width fit.nextGrowth.1 fit.nextGrowth.2
  have others : (ledger.step request).plan.decided < 2 ^ 64 ∧
      (ledger.step request).plan.empties ≤ (ledger.step request).plan.decided ∧ 0 ∉ (ledger.step request).rows := by
    cases request with
    | fetch index ack first => exact fit.fetched books index ack first
    | answered index => exact ⟨fit.decided, fit.empties, fit.rows⟩
    | emptyHold index now =>
      show (ledger.plan.emptyHold index.toNat now.ms).2.decided < _ ∧
        (ledger.plan.emptyHold index.toNat now.ms).2.empties ≤ (ledger.plan.emptyHold index.toNat now.ms).2.decided ∧ _
      rw [emptyHold_frame]
      exact ⟨fit.decided, fit.empties, fit.rows⟩
    | close => exact ⟨fit.decided, fit.empties, fit.rows⟩
  exact ⟨width, ⟨nextGrowth, cap ▸ near⟩, others.1, others.2.1, others.2.2⟩

theorem CountersFit.run (fit : CountersFit ledger) (books : Books ledger) (requests : List Request) :
    CountersFit (ledger.run requests) := by
  induction requests generalizing ledger with
  | nil => exact fit
  | cons request rest ih => exact ih (fit.step books request) (books.step request)

/-- The plan's counters stay below 64 bits in every run. -/
theorem counters_fit (start cap : UInt64) (requests : List Request) :
    let plan := ((Ledger.opened start cap).run requests).plan
    plan.width < 2 ^ 64 ∧ plan.nextGrowth < 2 ^ 64 ∧ plan.decided < 2 ^ 64 ∧ plan.empties < 2 ^ 64 ∧
      plan.ackedBatches < 2 ^ 64 := by
  have books := (books_opened start cap).run requests
  obtain ⟨width, ⟨growth, _⟩, decided, empties, rows⟩ := (countersFit_opened start cap).run (books_opened start cap) requests
  generalize (Ledger.opened start cap).run requests = ledger at *
  refine ⟨width, by omega, decided, by omega, ?_⟩
  have inside : ledger.acknowledged ⊆ Finset.Icc 1 ledger.plan.decided := by
    intro index acked
    have row := Finset.mem_of_mem_filter _ (books.acknowledged acked)
    rw [Finset.mem_Icc]
    exact ⟨Nat.pos_of_ne_zero fun zero => rows (zero ▸ row), books.rows index row⟩
  have card := Finset.card_le_card inside
  rw [Nat.card_Icc, Nat.add_sub_cancel] at card
  rw [books.counted]
  exact Nat.lt_of_le_of_lt card decided

end DuckAcl.FetchWindow
