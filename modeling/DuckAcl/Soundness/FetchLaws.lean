import DuckAcl.Soundness.FetchRequests

/-! # What a request may cost

A FETCH decides every index up to the one it names, and `MAX_AHEAD` above the ack bounds that. The ack
is the request's own, and the handler does not compare it with what is decided: the bound is one on the
work exactly while no ack is of an index beyond the decided ones.
-/

namespace DuckAcl.FetchWindow

namespace Ledger

variable {ledger : Ledger} {index ack first : UInt64}

/-- The highest ack so far, this request's included, or the inline batches. -/
def top (ledger : Ledger) (ack first : UInt64) : ℕ := max (max ledger.plan.acked ack.toNat) first.toNat

/-- The work of one request is bounded: the bound does not wrap, and the request decides at most
`MAX_AHEAD` indices more, or is refused and decides none. -/
def Bounded (ledger : Ledger) (index ack first : UInt64) : Prop :=
  ledger.top ack first + maxAhead < 2 ^ 64 ∧
    ((ledger.plan.fetch index ack first).1 = .tooFar ∧
        (ledger.step (.fetch index ack first)).plan.decided = ledger.reach first ∨
      (ledger.step (.fetch index ack first)).plan.decided ≤ ledger.reach first + maxAhead)

/-- The bound fits, and the request names an index past it or one near the highest decided. -/
def NamesNear (ledger : Ledger) (index ack first : UInt64) : Prop :=
  ledger.top ack first + maxAhead < 2 ^ 64 ∧
    (ledger.top ack first + maxAhead < index.toNat ∨ index.toNat ≤ ledger.reach first + maxAhead)

/-- No ack so far is of an index beyond those decided, and the bound fits. -/
def AcksReached (ledger : Ledger) (ack first : UInt64) : Prop :=
  ledger.top ack first + maxAhead < 2 ^ 64 ∧ max ledger.plan.acked ack.toNat ≤ ledger.reach first

instance : Decidable (ledger.AcksReached ack first) := inferInstanceAs (Decidable (_ ∧ _))

/-- The bound, when the sum fits. -/
theorem bound_toNat (fits : ledger.top ack first + maxAhead < 2 ^ 64) :
    (ledger.bound ack first).toNat = ledger.top ack first + maxAhead := by
  have ahead : maxAhead < 2 ^ 64 := by decide
  unfold top at fits ⊢
  rw [bound, UInt64.toNat_add, UInt64.toNat_ofNat', UInt64.toNat_ofNat', Nat.mod_eq_of_lt ahead,
    Nat.mod_eq_of_lt (Nat.lt_of_le_of_lt (Nat.le_add_right _ _) fits), Nat.mod_eq_of_lt fits]

theorem bounded_iff (books : Books ledger) (positive : 0 < ledger.plan.width) :
    ledger.Bounded index ack first ↔ ledger.NamesNear index ack first := by
  refine and_congr_right fun fits => ?_
  have fetched := books.fetched positive index ack first
  have bound := bound_toNat fits
  by_cases far : ledger.bound ack first < index
  · have beyond := UInt64.lt_iff_toNat_lt.mp far
    rw [bound] at beyond
    exact iff_of_true (.inl (fetched.refused far)) (.inl beyond)
  · have near : index ≤ ledger.bound ack first := UInt64.le_iff_toNat_le.mpr (by
      rw [UInt64.lt_iff_toNat_lt] at far
      exact Nat.le_of_not_lt far)
    obtain ⟨allowed, decided⟩ := fetched.decided near
    have within := UInt64.le_iff_toNat_le.mp near
    rw [bound] at within
    rw [decided]
    constructor
    · rintro (⟨refused, _⟩ | few)
      · exact absurd refused allowed
      · exact .inr ((Nat.le_max_right _ _).trans few)
    · rintro (beyond | few)
      · exact absurd beyond (Nat.not_lt_of_le within)
      · exact .inr (Nat.max_le.mpr ⟨Nat.le_add_right _ _, few⟩)

/-- Every index may be named when no ack is beyond the decided indices, and only then. -/
theorem namesNear_all_iff :
    (∀ index, ledger.NamesNear index ack first) ↔ ledger.AcksReached ack first := by
  constructor
  · intro all
    have fits := (all 0).1
    refine ⟨fits, ?_⟩
    by_contra beyond
    rw [Nat.not_le] at beyond
    have inline : first.toNat ≤ ledger.reach first := Nat.le_max_right _ _
    have highest : ledger.top ack first = max ledger.plan.acked ack.toNat := Nat.max_eq_left (by omega)
    have named : (UInt64.ofNat (ledger.top ack first + maxAhead)).toNat = ledger.top ack first + maxAhead :=
      UInt64.toNat_ofNat_of_lt' fits
    rcases (all (UInt64.ofNat (ledger.top ack first + maxAhead))).2 with far | near
    · rw [named] at far
      exact Nat.lt_irrefl _ far
    · rw [named, highest] at near
      omega
  · rintro ⟨fits, reached⟩ index
    have inline : first.toNat ≤ ledger.reach first := Nat.le_max_right _ _
    have highest : ledger.top ack first ≤ ledger.reach first := Nat.max_le.mpr ⟨reached, inline⟩
    exact ⟨fits, by omega⟩

end Ledger

/-- One request's work is bounded exactly when the bound fits and the request names an index past it or
near the highest decided; whatever index it names, exactly when no ack is beyond the decided indices. -/
theorem request_work_bounded (start cap : UInt64) (requests : List Request) (windowed : 1 ≤ start) :
    (∀ index ack first, ((Ledger.opened start cap).run requests).Bounded index ack first ↔
        ((Ledger.opened start cap).run requests).NamesNear index ack first) ∧
      ∀ ack first, (∀ index, ((Ledger.opened start cap).run requests).Bounded index ack first) ↔
        ((Ledger.opened start cap).run requests).AcksReached ack first := by
  have books := (books_opened start cap).run requests
  have positive := (books_opened start cap).run_positive (opened_positive windowed cap) requests
  refine ⟨fun index ack first => Ledger.bounded_iff books positive, fun ack first => ?_⟩
  rw [← Ledger.namesNear_all_iff]
  exact forall_congr' fun index => Ledger.bounded_iff books positive

/-- After a FETCH of index 3 the acks are in order up to 3, and index 70000 is too far. -/
theorem request_work_bounded_example :
    1 ≤ (8 : UInt64) ∧
      (((Ledger.opened 8 0).run [.fetch 3 0 0]).Bounded 70000 0 0 ↔
        ((Ledger.opened 8 0).run [.fetch 3 0 0]).NamesNear 70000 0 0) ∧
      ∀ index, ((Ledger.opened 8 0).run [.fetch 3 0 0]).Bounded index 3 0 := by
  obtain ⟨each, all⟩ := request_work_bounded 8 0 [.fetch 3 0 0] (by decide)
  exact ⟨by decide, each 70000 0 0, (all 3 0).mpr (by decide)⟩

/-- The first FETCH of a stream names index 100000 and acknowledges it too: it decides 100000 indices. -/
theorem request_work_unbounded :
    ¬ ∀ (start cap : UInt64) (requests : List Request) (index ack first : UInt64), 1 ≤ start →
      ((Ledger.opened start cap).run requests).Bounded index ack first := by
  intro all
  have bounded := all 8 0 [] 100000 100000 0 (by decide)
  have near := (Ledger.bounded_iff (books_opened 8 0) (opened_positive (by decide) 0)).mp bounded
  exact absurd near.2 (by decide)

/-! ## What an early stop costs -/

namespace Ledger

/-- The window bounds the open indices: they are the decided ones above the ack that carry rows, and no
more than the width until the total is announced. -/
structure Windowed (ledger : Ledger) : Prop where
  above : ledger.plan.openReal = ledger.rowsAbove
  cost : ledger.plan.closed = false → ledger.rowsAbove.card ≤ ledger.plan.width
  cap : ledger.plan.max ≠ 0 → ledger.plan.width ≤ ledger.plan.max
  unanswered : ledger.plan.unanswered ⊆ ledger.rowsAbove
  arrived : ledger.plan.arrived ⊆ ledger.plan.unanswered
  decided : ∀ index ∈ ledger.rowsAbove, index ≤ ledger.plan.decided
  counted : ledger.plan.ackedBatches = (ledger.rows.filter (· ≤ ledger.plan.acked)).card

/-- The window does not shrink, and each doubling had `next_growth` batches with rows acknowledged. -/
def Grows (before after : Ledger) : Prop :=
  before.plan.width ≤ after.plan.width ∧
    Doublings before.plan.max (after.rows.filter (· ≤ after.plan.acked)).card
      (before.plan.width, before.plan.nextGrowth) (after.plan.width, after.plan.nextGrowth)

/-- A request decides something new only while no ack is beyond the decided indices. -/
def AckInReach (ledger : Ledger) : Request → Prop
  | .fetch index ack first =>
    ledger.plan.width = 0 ∨ ledger.bound ack first < index ∨ index.toNat ≤ ledger.reach first ∨
      max ledger.plan.acked ack.toNat ≤ ledger.reach first
  | _ => True

instance (ledger : Ledger) (request : Request) : Decidable (ledger.AckInReach request) :=
  match request with
  | .fetch index ack first => inferInstanceAs (Decidable (ledger.plan.width = 0 ∨ ledger.bound ack first < index ∨
      index.toNat ≤ ledger.reach first ∨ max ledger.plan.acked ack.toNat ≤ ledger.reach first))
  | .answered _ | .emptyHold _ _ | .close => .isTrue trivial

/-- Every request of a sequence meets the condition where it comes. -/
def AcksInReach : Ledger → List Request → Prop
  | _, [] => True
  | ledger, request :: rest => ledger.AckInReach request ∧ AcksInReach (ledger.step request) rest

instance : ∀ (ledger : Ledger) (requests : List Request), Decidable (ledger.AcksInReach requests)
  | _, [] => .isTrue trivial
  | ledger, request :: rest =>
    have := instDecidableAcksInReach (ledger.step request) rest
    inferInstanceAs (Decidable (_ ∧ _))

end Ledger

/-- With the rows acknowledged being those up to the ack, the containers are the ones promised. -/
theorem Books.windowed {ledger : Ledger} (books : Books ledger)
    (acknowledged : ledger.rows.filter (· ≤ ledger.plan.acked) ⊆ ledger.acknowledged) : ledger.Windowed := by
  have same : ledger.acknowledged = ledger.rows.filter (· ≤ ledger.plan.acked) :=
    Finset.Subset.antisymm books.acknowledged acknowledged
  have above : ledger.plan.openReal = ledger.rowsAbove := by
    rw [books.openReal, same]
    ext index
    simp only [Finset.mem_sdiff, Finset.mem_filter, Ledger.rowsAbove]
    constructor
    · rintro ⟨row, notAcked⟩
      exact ⟨row, Nat.lt_of_not_le fun low => notAcked ⟨row, low⟩⟩
    · rintro ⟨row, beyond⟩
      exact ⟨row, fun low => absurd low.2 (Nat.not_le_of_lt beyond)⟩
  refine ⟨above, fun isOpen => above ▸ books.room isOpen, books.cap, ?_,
    books.arrived.trans Finset.inter_subset_left, ?_, same ▸ books.counted⟩
  · rw [← above, books.unanswered, books.openReal]
    exact Finset.sdiff_subset
  · exact fun index member => books.rows index (Finset.mem_of_mem_filter _ member)

theorem Ledger.Windowed.acknowledged {ledger : Ledger} (windowed : ledger.Windowed) (books : Books ledger) :
    ledger.rows.filter (· ≤ ledger.plan.acked) ⊆ ledger.acknowledged := by
  intro index member
  obtain ⟨row, low⟩ := Finset.mem_filter.mp member
  by_contra notAcked
  have opened : index ∈ ledger.plan.openReal := books.openReal ▸ Finset.mem_sdiff.mpr ⟨row, notAcked⟩
  rw [windowed.above] at opened
  exact absurd low (Nat.not_le_of_lt (Finset.mem_filter.mp opened).2)

/-- A request that meets the condition keeps the window's promise. -/
theorem Ledger.Windowed.step {ledger : Ledger} (windowed : ledger.Windowed) (books : Books ledger) {request : Request}
    (meets : ledger.AckInReach request) : (ledger.step request).Windowed := by
  have acknowledged := windowed.acknowledged books
  refine (books.step request).windowed ?_
  cases request with
  | fetch index ack first =>
    rcases Nat.eq_zero_or_pos ledger.plan.width with none | positive
    · rw [books.unwindowed none]
      exact acknowledged
    · have fetched := books.fetched positive index ack first
      intro row member
      obtain ⟨decided, low⟩ := Finset.mem_filter.mp member
      rcases fetched.rows row decided with old | ⟨new, near, named⟩
      · show row ∈ if ledger.plan.acked < (ledger.step (.fetch index ack first)).plan.acked then
            ledger.acknowledged ∪ ledger.rows.filter (· ≤ (ledger.step (.fetch index ack first)).plan.acked)
          else ledger.acknowledged
        split
        · exact Finset.mem_union_right _ (Finset.mem_filter.mpr ⟨old, low⟩)
        · next still =>
          exact acknowledged (Finset.mem_filter.mpr ⟨old, low.trans (Nat.le_of_not_lt still)⟩)
      · rw [fetched.acked] at low
        rcases meets with none | far | same | reached
        · exact absurd none (Nat.pos_iff_ne_zero.mp positive)
        · exact absurd near (by
            rw [UInt64.le_iff_toNat_le]
            exact Nat.not_le_of_lt (UInt64.lt_iff_toNat_lt.mp far))
        · omega
        · omega
  | answered index => exact acknowledged
  | emptyHold index now =>
    show ledger.rows.filter (· ≤ (ledger.plan.emptyHold index.toNat now.ms).2.acked) ⊆ ledger.acknowledged
    rw [emptyHold_frame]
    exact acknowledged
  | close => exact acknowledged

theorem Ledger.Windowed.run {ledger : Ledger} (windowed : ledger.Windowed) (books : Books ledger)
    (requests : List Request) (meets : ledger.AcksInReach requests) : (ledger.run requests).Windowed := by
  induction requests generalizing ledger with
  | nil => exact windowed
  | cons request rest ih => exact ih (windowed.step books meets.1) (books.step request) meets.2

theorem windowed_opened (start cap : UInt64) : (Ledger.opened start cap).Windowed :=
  (books_opened start cap).windowed (Finset.empty_subset _)

/-- In every run whose requests decide something new only while no ack is beyond the decided indices, the
window bounds the open indices, and it grows by doublings that the acknowledged batches have earned. -/
theorem window_bounds_early_stop (start cap : UInt64) (requests : List Request)
    (meets : (Ledger.opened start cap).AcksInReach requests) :
    ((Ledger.opened start cap).run requests).Windowed ∧
      ∀ request, ((Ledger.opened start cap).run requests).AckInReach request →
        ((Ledger.opened start cap).run requests).Grows (((Ledger.opened start cap).run requests).step request) := by
  have books := (books_opened start cap).run requests
  have windowed := (windowed_opened start cap).run (books_opened start cap) requests meets
  refine ⟨windowed, fun request reached => ?_⟩
  have growth := (books.step_growth request).2
  rw [← (books.step request).counted, (windowed.step books reached).counted] at growth
  exact ⟨growth.width_le, growth⟩

/-- A window of one doubles once its first batch is acknowledged. -/
theorem window_bounds_early_stop_example :
    (Ledger.opened 1 0).AcksInReach [.fetch 2 0 0, .answered 1] ∧
      ((Ledger.opened 1 0).run [.fetch 2 0 0, .answered 1]).Windowed ∧
      ((Ledger.opened 1 0).run [.fetch 2 0 0, .answered 1]).Grows
        (((Ledger.opened 1 0).run [.fetch 2 0 0, .answered 1]).step (.fetch 3 1 0)) := by
  have meets : (Ledger.opened 1 0).AcksInReach [.fetch 2 0 0, .answered 1] := by decide
  obtain ⟨windowed, grows⟩ := window_bounds_early_stop 1 0 _ meets
  exact ⟨meets, windowed, grows (.fetch 3 1 0) (by decide)⟩

/-- The first FETCH of a stream names index 1 and acknowledges index 5: index 1 is decided below the ack. -/
theorem window_below_ack :
    ¬ ∀ (start cap : UInt64) (requests : List Request), ((Ledger.opened start cap).run requests).Windowed := by
  intro all
  have subset := (all 8 0 [.fetch 1 5 0]).unanswered
  exact absurd subset (by decide)

end DuckAcl.FetchWindow
