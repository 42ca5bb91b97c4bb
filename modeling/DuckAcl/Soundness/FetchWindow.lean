import DuckAcl.Model.FetchWindow
import Mathlib.Data.List.Count

/-! # The fetch window loses nothing

The answers a plan still holds are those of the indices above the ack; what it decided before is gone
from it. Beside the plan stands the whole history of its decisions, and the invariant ties the two:
the plan's answers are the history's from the ack on, its count of empty batches is the history's, and
the batches of the history are numbered from `first + 1` without a gap.
-/

namespace DuckAcl.FetchWindow

/-- A history with its indices, the first of them after `before`. -/
def numbered : ℕ → List (Option ℕ) → List (ℕ × Option ℕ)
  | _, [] => []
  | before, answer :: rest => (before + 1, answer) :: numbered (before + 1) rest

theorem numbered_append (before : ℕ) (history more : List (Option ℕ)) :
    numbered before (history ++ more) = numbered before history ++ numbered (before + history.length) more := by
  induction history generalizing before with
  | nil => rfl
  | cons answer rest ih =>
    have shift : before + 1 + rest.length = before + (rest.length + 1) := by omega
    simp only [List.cons_append, numbered, ih, List.length_cons, shift]

theorem mem_numbered {before : ℕ} {history : List (Option ℕ)} {entry : ℕ × Option ℕ}
    (member : entry ∈ numbered before history) : before < entry.1 ∧ entry.1 ≤ before + history.length := by
  induction history generalizing before with
  | nil => cases member
  | cons answer rest ih =>
    simp only [List.length_cons]
    rcases List.mem_cons.mp member with rfl | member
    · simp only
      omega
    · have bounds := ih member
      omega

theorem numbered_sorted (before : ℕ) (history : List (Option ℕ)) :
    (numbered before history).Pairwise fun left right => left.1 < right.1 := by
  induction history generalizing before with
  | nil => exact .nil
  | cons answer rest ih =>
    refine List.pairwise_cons.mpr ⟨?_, ih (before + 1)⟩
    intro entry member
    exact (mem_numbered member).1

/-- The answer the history gives an index. -/
theorem find_numbered (before : ℕ) (history : List (Option ℕ)) {index : ℕ} (above : before < index) :
    ((numbered before history).find? fun entry => decide (entry.1 = index)).map Prod.snd = history[index - before - 1]? := by
  induction history generalizing before with
  | nil => rfl
  | cons answer rest ih =>
    by_cases here : before + 1 = index
    · have zero : index - before - 1 = 0 := by omega
      simp [numbered, here, zero]
    · have later : index - before - 1 = index - (before + 1) - 1 + 1 := by omega
      simp only [numbered, List.find?_cons, here, decide_false, later, List.getElem?_cons_succ]
      exact ih (before + 1) (by omega)

/-! ## What one plan holds of a history -/

/-- The plan has made the decisions of the history, and holds those above its ack. -/
structure Holds (first : ℕ) (history : List (Option ℕ)) (plan : Plan) : Prop where
  decided : plan.decided = first + history.length
  acked : plan.acked ≤ plan.decided
  answers : plan.answers = (numbered first history).filter fun entry => decide (plan.acked < entry.1)
  empties : plan.empties = history.count none
  sources : history.filterMap id = List.range' (first + 1) (history.length - plan.empties)
  width : 0 < plan.width

variable {first : ℕ} {history : List (Option ℕ)} {plan : Plan}

theorem forget_frame (plan : Plan) (index : ℕ) (answer : Option ℕ) :
    (plan.forget index answer).acked = plan.acked ∧ (plan.forget index answer).decided = plan.decided ∧
      (plan.forget index answer).empties = plan.empties ∧ (plan.forget index answer).width = plan.width ∧
      (plan.forget index answer).closed = plan.closed := by
  cases answer <;> exact ⟨rfl, rfl, rfl, rfl, rfl⟩

/-- Dropping the answers up to the ack changes nothing else a decision depends on. -/
theorem forgetAcked_frame (answers : List (ℕ × Option ℕ)) (plan : Plan) :
    (Plan.forgetAcked answers plan).acked = plan.acked ∧ (Plan.forgetAcked answers plan).decided = plan.decided ∧
      (Plan.forgetAcked answers plan).empties = plan.empties ∧ (Plan.forgetAcked answers plan).width = plan.width ∧
      (Plan.forgetAcked answers plan).closed = plan.closed := by
  induction answers generalizing plan with
  | nil => exact ⟨rfl, rfl, rfl, rfl, rfl⟩
  | cons entry rest ih =>
    obtain ⟨index, answer⟩ := entry
    simp only [Plan.forgetAcked]
    split
    · obtain ⟨acked, decided, empties, width, closed⟩ := ih (plan.forget index answer)
      obtain ⟨acked', decided', empties', width', closed'⟩ := forget_frame plan index answer
      exact ⟨acked.trans acked', decided.trans decided', empties.trans empties', width.trans width',
        closed.trans closed'⟩
    · exact ⟨rfl, rfl, rfl, rfl, rfl⟩

theorem forgetAcked_answers {answers : List (ℕ × Option ℕ)}
    (sorted : answers.Pairwise fun left right => left.1 < right.1) (plan : Plan) :
    (Plan.forgetAcked answers plan).answers = answers.filter fun entry => decide (plan.acked < entry.1) := by
  induction answers generalizing plan with
  | nil => rfl
  | cons entry rest ih =>
    obtain ⟨index, answer⟩ := entry
    obtain ⟨below, sorted⟩ := List.pairwise_cons.mp sorted
    simp only [Plan.forgetAcked]
    split
    · next reached =>
      have dropped : ¬ plan.acked < index := by omega
      rw [ih sorted, (forget_frame plan index answer).1]
      simp [dropped]
    · next beyond =>
      have kept : plan.acked < index := by omega
      have all : ∀ other ∈ rest, decide (plan.acked < other.1) = true := by
        intro other member
        have := below other member
        simp only at this
        exact decide_eq_true (by omega)
      simp [kept, List.filter_eq_self.mpr all]

private theorem growFor_frame (doublings : ℕ) (plan : Plan) (positive : 0 < plan.width) :
    (plan.growFor doublings).acked = plan.acked ∧ (plan.growFor doublings).decided = plan.decided ∧
      (plan.growFor doublings).empties = plan.empties ∧ (plan.growFor doublings).answers = plan.answers ∧
      (plan.growFor doublings).closed = plan.closed ∧ 0 < (plan.growFor doublings).width := by
  induction doublings generalizing plan with
  | zero => exact ⟨rfl, rfl, rfl, rfl, rfl, positive⟩
  | succ doublings ih =>
    unfold Plan.growFor
    split
    · next growing =>
      have wider : 0 < plan.double.width := by
        simp only [Plan.grows, Bool.and_eq_true, Bool.or_eq_true, decide_eq_true_eq] at growing
        simp only [Plan.double]
        split <;> omega
      exact ih plan.double wider
    · exact ⟨rfl, rfl, rfl, rfl, rfl, positive⟩

/-- A plan that differs by an ack taken holds the same history. -/
private theorem Holds.ofAck (holds : Holds first history plan) {after : Plan} {ack : ℕ} (bound : ack ≤ plan.decided)
    (moved : plan.acked ≤ ack) (acked : after.acked = ack) (decided : after.decided = plan.decided)
    (empties : after.empties = plan.empties) (width : 0 < after.width)
    (answers : after.answers = plan.answers.filter fun entry => decide (ack < entry.1)) : Holds first history after where
  decided := decided.trans holds.decided
  acked := by
    rw [acked, decided]
    exact bound
  answers := by
    rw [answers, holds.answers, List.filter_filter, acked]
    apply List.filter_congr
    intro entry _
    by_cases beyond : ack < entry.1
    · have : plan.acked < entry.1 := by omega
      simp [beyond, this]
    · simp [beyond]
  empties := empties.trans holds.empties
  sources := by
    rw [empties]
    exact holds.sources
  width := width

/-- Taking an ack keeps what the plan holds of its history, from the new ack on. -/
theorem Holds.acknowledge (holds : Holds first history plan) {ack : ℕ} (bound : ack ≤ plan.decided) :
    Holds first history (plan.acknowledge ack) ∧ (plan.acknowledge ack).acked = max plan.acked ack ∧
      (plan.acknowledge ack).closed = plan.closed := by
  unfold Plan.acknowledge
  split
  · next moved =>
    dsimp only
    generalize taken : ({ plan with acked := ack, ackHold := ackHoldMs } : Plan) = marked
    have sorted : plan.answers.Pairwise fun left right => left.1 < right.1 := by
      rw [holds.answers]
      exact (numbered_sorted first history).filter _
    have marks : marked.acked = ack ∧ marked.decided = plan.decided ∧ marked.empties = plan.empties ∧
        marked.width = plan.width ∧ marked.closed = plan.closed := by
      rw [← taken]
      exact ⟨rfl, rfl, rfl, rfl, rfl⟩
    obtain ⟨acked, decided, empties, width, closed⟩ := forgetAcked_frame plan.answers marked
    have answers := forgetAcked_answers sorted marked
    have positive : 0 < (Plan.forgetAcked plan.answers marked).width := by
      rw [width, marks.2.2.2.1]
      exact holds.width
    obtain ⟨acked', decided', empties', answers', closed', width'⟩ := growFor_frame 17 _ positive
    have ackedNow : (Plan.forgetAcked plan.answers marked).grow.acked = ack := (acked'.trans acked).trans marks.1
    refine ⟨holds.ofAck bound (by omega) ackedNow ?_ ?_ width' ?_, ?_, ?_⟩
    · exact (decided'.trans decided).trans marks.2.1
    · exact (empties'.trans empties).trans marks.2.2.1
    · rw [← marks.1]
      exact answers'.trans answers
    · rw [ackedNow]
      omega
    · exact (closed'.trans closed).trans marks.2.2.2.2
  · exact ⟨holds, by omega, rfl⟩

/-- Deciding one more index adds one decision to the history. -/
theorem Holds.decideNext (holds : Holds first history plan) :
    ∃ answer, Holds first (history ++ [answer]) plan.decideNext ∧ (plan.closed = true → answer ≠ none) := by
  have numbering : ∀ answer, numbered first (history ++ [answer]) =
      numbered first history ++ [(plan.decided + 1, answer)] := by
    intro answer
    rw [numbered_append, holds.decided]
    rfl
  have beyond : plan.acked < plan.decided + 1 := Nat.lt_succ_of_le holds.acked
  have empty_le : plan.empties ≤ history.length := by
    rw [holds.empties]
    exact List.count_le_length
  unfold Plan.decideNext
  dsimp only
  split
  · next full =>
    refine ⟨none, ⟨?_, ?_, ?_, ?_, ?_, holds.width⟩, ?_⟩
    · show plan.decided + 1 = _
      rw [holds.decided, List.length_append, List.length_singleton]
      omega
    · show plan.acked ≤ plan.decided + 1
      omega
    · rw [numbering, List.filter_append, ← holds.answers]
      simp [beyond]
    · rw [List.count_append, ← holds.empties]
      simp
    · have same : history.length + 1 - (plan.empties + 1) = history.length - plan.empties := by omega
      rw [List.filterMap_append, holds.sources, List.length_append, List.length_singleton, same]
      simp
    · intro closed
      simp [closed] at full
  · refine ⟨some (plan.decided + 1 - plan.empties), ⟨?_, ?_, ?_, ?_, ?_, holds.width⟩, by simp⟩
    · show plan.decided + 1 = _
      rw [holds.decided, List.length_append, List.length_singleton]
      omega
    · show plan.acked ≤ plan.decided + 1
      omega
    · rw [numbering, List.filter_append, ← holds.answers]
      simp [beyond]
    · rw [List.count_append, ← holds.empties]
      simp
    · have more : history.length + 1 - plan.empties = history.length - plan.empties + 1 := by omega
      have last : plan.decided + 1 - plan.empties = first + 1 + (history.length - plan.empties) := by
        have := holds.decided
        omega
      rw [List.filterMap_append, holds.sources, List.length_append, List.length_singleton, more, List.range'_concat, last]
      simp

/-- Deciding on adds decisions to the history, one for each index. -/
theorem Holds.decideMore (holds : Holds first history plan) (more : ℕ) :
    ∃ added, added.length = more ∧ Holds first (history ++ added) (plan.decideMore more) ∧
      (plan.closed = true → none ∉ added) ∧ (plan.decideMore more).closed = plan.closed ∧
      (plan.decideMore more).acked = plan.acked := by
  induction more generalizing history plan with
  | zero => 
    refine ⟨[], rfl, ?_, by simp, rfl, rfl⟩
    rw [List.append_nil]
    exact holds
  | succ more ih =>
    obtain ⟨answer, holds', real⟩ := holds.decideNext
    have frame : plan.decideNext.closed = plan.closed ∧ plan.decideNext.acked = plan.acked := by
      unfold Plan.decideNext
      dsimp only
      split <;> exact ⟨rfl, rfl⟩
    obtain ⟨added, length, holds'', reals, closed, acked⟩ := ih holds'
    refine ⟨answer :: added, by simp [length], by simpa [Plan.decideMore] using holds'', ?_, ?_, ?_⟩
    · intro isClosed
      rw [List.mem_cons, not_or]
      exact ⟨fun same => real isClosed same.symm, reals (frame.1.trans isClosed)⟩
    · exact closed.trans frame.1
    · exact acked.trans frame.2

/-! ## What a call answers -/

/-- The answer is the one the history has for the index; a refusal says nothing about it. -/
def Agrees (first : ℕ) (history : List (Option ℕ)) (index : ℕ) : Answer → Prop
  | .batch source => first < index ∧ history[index - first - 1]? = some (some source)
  | .empty => first < index ∧ history[index - first - 1]? = some none
  | .gone | .tooFar => True

theorem Agrees.append {index : ℕ} {answer : Answer} (agrees : Agrees first history index answer)
    (added : List (Option ℕ)) : Agrees first (history ++ added) index answer := by
  have kept : ∀ {decision : Option ℕ}, history[index - first - 1]? = some decision →
      (history ++ added)[index - first - 1]? = some decision := by
    intro decision found
    rw [List.getElem?_append_left (List.getElem?_eq_some_iff.mp found).1]
    exact found
  cases answer with
  | batch source => exact ⟨agrees.1, kept agrees.2⟩
  | empty => exact ⟨agrees.1, kept agrees.2⟩
  | gone => trivial
  | tooFar => trivial

/-- An index that was not refused is among those decided. -/
theorem Agrees.decided {index : ℕ} {answer : Answer} (agrees : Agrees first history index answer)
    (notGone : answer ≠ .gone) (notFar : answer ≠ .tooFar) : first < index ∧ index ≤ first + history.length := by
  have bound : ∀ {decision : Option ℕ}, history[index - first - 1]? = some decision → index ≤ first + history.length := by
    intro decision found
    have := (List.getElem?_eq_some_iff.mp found).1
    omega
  cases answer with
  | batch source => exact ⟨agrees.1, bound agrees.2⟩
  | empty => exact ⟨agrees.1, bound agrees.2⟩
  | gone => exact absurd rfl notGone
  | tooFar => exact absurd rfl notFar

/-- Two answers of one history to one index are the same, refusals apart. -/
theorem Agrees.unique {index : ℕ} {one other : Answer} (left : Agrees first history index one)
    (right : Agrees first history index other) (told : one ≠ .gone ∧ one ≠ .tooFar)
    (toldToo : other ≠ .gone ∧ other ≠ .tooFar) : one = other := by
  cases one with
  | batch source =>
    cases other with
    | batch source' =>
      have same := left.2.symm.trans right.2
      simp only [Option.some.injEq] at same
      rw [same]
    | empty => cases left.2.symm.trans right.2
    | gone => exact absurd rfl toldToo.1
    | tooFar => exact absurd rfl toldToo.2
  | empty =>
    cases other with
    | batch source => cases left.2.symm.trans right.2
    | empty => rfl
    | gone => exact absurd rfl toldToo.1
    | tooFar => exact absurd rfl toldToo.2
  | gone => exact absurd rfl told.1
  | tooFar => exact absurd rfl told.2

/-- What the plan has for an index above its ack is what the history has. -/
theorem Holds.answerOf (holds : Holds first history plan) {index : ℕ} (above : first < index)
    (unacked : plan.acked < index) : plan.answerOf index = history[index - first - 1]? := by
  unfold Plan.answerOf
  rw [holds.answers, List.find?_filter, ← find_numbered first history above]
  congr 2
  funext entry
  by_cases here : entry.1 = index
  · simp [here, unacked]
  · simp [here]

/-- What the plan has for an index at all is what the history has. -/
private theorem Holds.of_answerOf (holds : Holds first history plan) {index : ℕ} {decision : Option ℕ}
    (found : plan.answerOf index = some decision) :
    first < index ∧ history[index - first - 1]? = some decision := by
  have bounds : first < index ∧ plan.acked < index := by
    unfold Plan.answerOf at found
    obtain ⟨entry, at_, _⟩ := Option.map_eq_some_iff.mp found
    have here : entry.1 = index := by simpa using List.find?_some at_
    have member := List.mem_of_find?_eq_some at_
    rw [holds.answers, List.mem_filter] at member
    exact ⟨here ▸ (mem_numbered member.1).1, here ▸ of_decide_eq_true member.2⟩
  refine ⟨bounds.1, ?_⟩
  rw [← holds.answerOf bounds.1 bounds.2]
  exact found

private theorem Holds.answer (holds : Holds first history plan) (index : ℕ) :
    Agrees first history index (plan.answer index).1 ∧ Holds first history (plan.answer index).2 := by
  unfold Plan.answer
  split
  · exact ⟨trivial, holds⟩
  · next found => exact ⟨holds.of_answerOf found, holds⟩
  · next source found =>
    refine ⟨holds.of_answerOf found, ?_⟩
    dsimp only
    split
    · exact ⟨holds.decided, holds.acked, holds.answers, holds.empties, holds.sources, holds.width⟩
    · exact holds

private theorem answer_frame (plan : Plan) (index : ℕ) :
    (plan.answer index).2.closed = plan.closed ∧ (plan.answer index).2.acked = plan.acked ∧
      (plan.answer index).2.decided = plan.decided ∧ (plan.answer index).2.answers = plan.answers := by
  unfold Plan.answer
  split
  · exact ⟨rfl, rfl, rfl, rfl⟩
  · exact ⟨rfl, rfl, rfl, rfl⟩
  · dsimp only
    split <;> exact ⟨rfl, rfl, rfl, rfl⟩

/-- What stands in the plan above the last index decided before is what was decided since. -/
private theorem Holds.newlyDecided {added : List (Option ℕ)} (holds : Holds first (history ++ added) plan)
    (acked : plan.acked ≤ first + history.length) :
    Session.newlyDecided plan (first + history.length) = added := by
  have none : ∀ entry ∈ numbered first history, ¬ first + history.length < entry.1 := by
    intro entry member
    have := mem_numbered member
    omega
  have all : ∀ entry ∈ numbered (first + history.length) added, first + history.length < entry.1 := by
    intro entry member
    exact (mem_numbered member).1
  have decisions : ∀ (before : ℕ) (history : List (Option ℕ)), (numbered before history).map Prod.snd = history := by
    intro before history
    induction history generalizing before with
    | nil => rfl
    | cons answer rest ih => simp [numbered, ih]
  unfold Session.newlyDecided
  rw [holds.answers, List.filter_filter, numbered_append, List.filter_append]
  rw [List.filter_eq_nil_iff.mpr, List.filter_eq_self.mpr, List.nil_append, decisions]
  · intro entry member
    have := all entry member
    simp only [Bool.and_eq_true, decide_eq_true_eq]
    omega
  · intro entry member
    have := none entry member
    simp [this]

/-- The indices decided stay within reach of the ack. -/
def Near (first : ℕ) (plan : Plan) : Prop :=
  plan.decided ≤ max plan.acked first + maxAhead

private theorem Holds.inlined_eq (holds : Holds first history plan) : plan.inlined first = plan := by
  have same : max plan.decided first = plan.decided := by
    have := holds.decided
    omega
  unfold Plan.inlined
  rw [same]

/-- `Decide` adds decisions to the history and answers from it. -/
theorem Holds.decide (holds : Holds first history plan) (near : Near first plan) {ack : ℕ}
    (bound : ack ≤ plan.decided) (index : ℕ) :
    ∃ added, Holds first (history ++ added) (plan.decide index ack first).2 ∧ Near first (plan.decide index ack first).2 ∧
      Session.newlyDecided (plan.decide index ack first).2 plan.decided = added ∧
      Agrees first (history ++ added) index (plan.decide index ack first).1 ∧
      (plan.closed = true → none ∉ added) ∧ (plan.decide index ack first).2.closed = plan.closed := by
  obtain ⟨acknowledged, acked, closed⟩ := holds.acknowledge bound
  have decided : (plan.acknowledge ack).decided = plan.decided := acknowledged.decided.trans holds.decided.symm
  have windowed : plan.width ≠ 0 := Nat.pos_iff_ne_zero.mp holds.width
  have ackedBelow : (plan.acknowledge ack).acked ≤ first + history.length := by
    rw [← holds.decided, ← decided]
    exact acknowledged.acked
  have reach : max plan.acked first ≤ max (plan.acknowledge ack).acked first := by omega
  unfold Near at near
  simp only [Plan.decide, windowed, ↓reduceIte, holds.inlined_eq, Plan.decideWithin]
  split
  · have unchanged : Holds first (history ++ []) (plan.acknowledge ack) := by
      rw [List.append_nil]
      exact acknowledged
    refine ⟨[], unchanged, ?_, ?_, trivial, by simp, closed⟩
    · unfold Near
      rw [decided]
      exact Nat.le_trans near (Nat.add_le_add_right reach maxAhead)
    · rw [holds.decided]
      exact unchanged.newlyDecided ackedBelow
  · next within =>
    have reached : index ≤ max (plan.acknowledge ack).acked first + maxAhead := Nat.not_lt.mp within
    obtain ⟨added, length, held, reals, closed', acked'⟩ :=
      acknowledged.decideMore (index - (plan.acknowledge ack).decided)
    obtain ⟨agrees, answered⟩ := held.answer index
    obtain ⟨closed'', acked'', decided'', _⟩ :=
      answer_frame ((plan.acknowledge ack).decideMore (index - (plan.acknowledge ack).decided)) index
    refine ⟨added, answered, ?_, ?_, agrees, fun isClosed => reals (closed.trans isClosed), ?_⟩
    · unfold Near
      rw [acked'', decided'', acked', held.decided, List.length_append, length, ← Nat.add_assoc, ← holds.decided, decided]
      omega
    · rw [holds.decided]
      apply answered.newlyDecided
      rw [acked'', acked']
      exact ackedBelow
    · exact (closed''.trans closed').trans closed

/-- An index that is decided and not acknowledged is answered, and not refused. -/
theorem Holds.decide_told (holds : Holds first history plan) (near : Near first plan) {ack index : ℕ}
    (bound : ack ≤ plan.decided) (above : first < index) (reached : index ≤ plan.decided)
    (unacked : max plan.acked ack < index) :
    Agrees first history index (plan.decide index ack first).1 ∧
      (plan.decide index ack first).1 ≠ .gone ∧ (plan.decide index ack first).1 ≠ .tooFar := by
  obtain ⟨acknowledged, acked, closed⟩ := holds.acknowledge bound
  have decided : (plan.acknowledge ack).decided = plan.decided := acknowledged.decided.trans holds.decided.symm
  have windowed : plan.width ≠ 0 := Nat.pos_iff_ne_zero.mp holds.width
  have within : ¬ max (plan.acknowledge ack).acked first + maxAhead < index := by
    unfold Near at near
    omega
  have nothing : index - (plan.acknowledge ack).decided = 0 := by omega
  have found : ∃ decision, history[index - first - 1]? = some decision := by
    have inside : index - first - 1 < history.length := by
      have := holds.decided
      omega
    exact ⟨_, List.getElem?_eq_getElem inside⟩
  obtain ⟨decision, found⟩ := found
  have has : (plan.acknowledge ack).answerOf index = some decision := by
    rw [acknowledged.answerOf above (acked ▸ unacked)]
    exact found
  simp only [Plan.decide, windowed, ↓reduceIte, holds.inlined_eq, Plan.decideWithin, within, nothing, Plan.decideMore,
    Plan.answer, has]
  cases decision with
  | none => exact ⟨⟨above, found⟩, by simp, by simp⟩
  | some source => exact ⟨⟨above, found⟩, by simp, by simp⟩

/-! ## Sessions -/

namespace Session

/-- The plan holds the session's history, and every answer given agrees with it. -/
structure Sound (first : ℕ) (session : Session) : Prop where
  holds : Holds first session.history (session.plan.inlined first)
  near : Near first (session.plan.inlined first)
  log : ∀ entry ∈ session.log, Agrees first session.history entry.1 entry.2

/-- A plan that has been asked nothing yet. -/
def opened (start cap : ℕ) : Session := { plan := Plan.new start cap }

theorem sound_opened (first : ℕ) {start : ℕ} (positive : 1 ≤ start) (cap : ℕ) : (opened start cap).Sound first where
  holds := by
    have width : 0 < (Plan.new start cap).width := by
      simp only [Plan.new]
      split <;> omega
    refine ⟨?_, ?_, rfl, rfl, rfl, width⟩
    · show max 0 first = first + 0
      omega
    · exact Nat.zero_le _
  near := by
    show max 0 first ≤ max 0 first + maxAhead
    omega
  log := by simp [opened]

variable {session : Session}

/-- A call that changes nothing a decision depends on. -/
private theorem Sound.frame (sound : session.Sound first) {plan : Plan} (decided : plan.decided = session.plan.decided)
    (acked : plan.acked = session.plan.acked) (answers : plan.answers = session.plan.answers)
    (empties : plan.empties = session.plan.empties) (width : plan.width = session.plan.width) :
    { session with plan := plan }.Sound first where
  holds := by
    obtain ⟨holds, _, _⟩ := sound
    obtain ⟨decided', acked', answers', empties', sources', width'⟩ := holds
    simp only [Plan.inlined] at decided' acked' answers' empties' sources' width'
    refine ⟨?_, ?_, ?_, ?_, ?_, ?_⟩ <;> simp only [Plan.inlined, decided, acked, answers, empties, width]
    all_goals assumption
  near := by
    have near := sound.near
    simp only [Near, Plan.inlined, decided, acked] at near ⊢
    exact near
  log := sound.log

private theorem decide_inlined {plan : Plan} (windowed : plan.width ≠ 0) (index ack : ℕ) :
    plan.decide index ack first = (plan.inlined first).decide index ack first := by
  have same : (plan.inlined first).inlined first = plan.inlined first := by
    simp [Plan.inlined]
  have windowedToo : (plan.inlined first).width ≠ 0 := windowed
  simp only [Plan.decide, windowed, windowedToo, same, ↓reduceIte]

private theorem emptyHold_frame (plan : Plan) (index now : ℕ) :
    (plan.emptyHold index now).2.decided = plan.decided ∧ (plan.emptyHold index now).2.acked = plan.acked ∧
      (plan.emptyHold index now).2.answers = plan.answers ∧ (plan.emptyHold index now).2.empties = plan.empties ∧
      (plan.emptyHold index now).2.width = plan.width ∧ (plan.emptyHold index now).2.closed = plan.closed := by
  unfold Plan.emptyHold
  dsimp only
  split_ifs <;> exact ⟨rfl, rfl, rfl, rfl, rfl, rfl⟩

/-- One call keeps the session sound; it adds decisions to the history, and no empty ones once the
plan is closed. -/
theorem Sound.step (sound : session.Sound first) {call : Call} (acks : session.AckDecided first call) :
    (session.step first call).Sound first ∧ ∃ added, (session.step first call).history = session.history ++ added ∧
      (session.plan.closed = true → none ∉ added ∧ (session.step first call).plan.closed = true) := by
  cases call with
  | decide index ack =>
    obtain ⟨added, held, near, newly, agrees, reals, closed⟩ := sound.holds.decide sound.near acks index
    have windowed : session.plan.width ≠ 0 := Nat.pos_iff_ne_zero.mp sound.holds.width
    rw [← decide_inlined windowed] at held near newly agrees closed
    have whole : ((session.plan.decide index ack first).2).inlined first = (session.plan.decide index ack first).2 :=
      held.inlined_eq
    have history : (session.step first (.decide index ack)).history = session.history ++ added := by
      show session.history ++ newlyDecided _ _ = _
      rw [← newly]
      rfl
    refine ⟨⟨?_, ?_, ?_⟩, added, history, fun isClosed => ⟨reals isClosed, ?_⟩⟩
    · rw [history]
      show Holds first _ (((session.plan.decide index ack first).2).inlined first)
      rw [whole]
      exact held
    · show Near first (((session.plan.decide index ack first).2).inlined first)
      rw [whole]
      exact near
    · rw [history]
      intro entry member
      rcases List.mem_cons.mp member with rfl | member
      · exact agrees
      · exact (sound.log entry member).append added
    · exact closed.trans isClosed
  | answered index =>
    exact ⟨sound.frame rfl rfl rfl rfl rfl, [], by simp [Session.step], fun isClosed => ⟨by simp, isClosed⟩⟩
  | emptyHold index now =>
    obtain ⟨decided, acked, answers, empties, width, closed⟩ := emptyHold_frame session.plan index now
    exact ⟨sound.frame decided acked answers empties width, [], by simp [Session.step],
      fun isClosed => ⟨by simp, closed.trans isClosed⟩⟩
  | close =>
    exact ⟨sound.frame rfl rfl rfl rfl rfl, [], by simp [Session.step], fun isClosed => ⟨by simp, rfl⟩⟩

/-- A whole run keeps it sound, and a closed plan decides no empty batch again. -/
theorem Sound.run (sound : session.Sound first) :
    ∀ {calls : List Call}, AcksDecided first session calls →
      (session.run first calls).Sound first ∧ ∃ added, (session.run first calls).history = session.history ++ added ∧
        (session.plan.closed = true → none ∉ added) := by
  intro calls
  induction calls generalizing session with
  | nil => exact fun _ => ⟨sound, [], by simp [Session.run], by simp⟩
  | cons call rest ih =>
    intro acks
    obtain ⟨stepped, added, history, closed⟩ := sound.step acks.1
    obtain ⟨ran, more, history', closed'⟩ := ih stepped acks.2
    refine ⟨ran, added ++ more, ?_, ?_⟩
    · rw [← List.append_assoc, ← history]
      exact history'
    · intro isClosed
      rw [List.mem_append, not_or]
      exact ⟨(closed isClosed).1, closed' (closed isClosed).2⟩

theorem acksDecided_append {calls later : List Call} :
    AcksDecided first session (calls ++ later) ↔
      AcksDecided first session calls ∧ AcksDecided first (session.run first calls) later := by
  induction calls generalizing session with
  | nil => simp [AcksDecided, Session.run]
  | cons call rest ih =>
    simp only [List.cons_append, AcksDecided, ih, and_assoc]
    rfl

/-! ## Totals -/

/-- An index is answered with a batch or an empty one when `produced` batches follow the inline ones;
an index past them gets the terminal answer. -/
def carries (first produced : ℕ) : Option ℕ → Bool
  | none => true
  | some source => decide (source ≤ first + produced)

/-- The answer is a batch that was produced, or an empty one. -/
def given (first produced : ℕ) : Answer → Bool
  | .batch source => decide (source ≤ first + produced)
  | .empty => true
  | .gone | .tooFar => false

/-- The indices that were answered with a batch or an empty one. -/
def answeredIndices (first produced : ℕ) (session : Session) : Finset ℕ :=
  ((session.log.filter fun entry => given first produced entry.2).map Prod.fst).toFinset

/-- The indices whose decision is a batch produced or an empty one. -/
def carriedIndices (first produced : ℕ) (history : List (Option ℕ)) : List ℕ :=
  ((numbered first history).filter fun entry => carries first produced entry.2).map Prod.fst

/-- Every index decided above the inline ones has been asked for while it was not acknowledged. -/
def AskedDensely (first : ℕ) (session : Session) : Prop :=
  ∀ index, first < index → index ≤ max session.plan.decided first →
    ∃ answer, (index, answer) ∈ session.log ∧ answer ≠ .gone ∧ answer ≠ .tooFar

/-! ## The window -/

/-- What the plan has told so far: the decisions of the indices above the inline ones, in order, the
batches among them numbered on from the inline ones, the rest empty and counted, and every answer
given or asked for again from these. -/
structure InOrder (first : ℕ) (session : Session) : Prop where
  decided : max session.plan.decided first = first + session.history.length
  sources : ∃ rows, session.history.filterMap id = List.range' (first + 1) rows
  empties : session.plan.emptyBatches = session.history.count none
  answered : ∀ entry ∈ session.log, Agrees first session.history entry.1 entry.2
  asked : ∀ index ack, first < index → index ≤ max session.plan.decided first →
    ack ≤ max session.plan.decided first → max session.plan.acked ack < index →
    Agrees first session.history index (session.plan.decide index ack first).1 ∧
      (session.plan.decide index ack first).1 ≠ .gone ∧ (session.plan.decide index ack first).1 ≠ .tooFar
  repeated : ∀ index answer ack, (index, answer) ∈ session.log → answer ≠ .gone → answer ≠ .tooFar →
    ack ≤ max session.plan.decided first → max session.plan.acked ack < index →
    (session.plan.decide index ack first).1 = answer

/-- The total a terminal answer announces, in a session that goes on to another: the count of empty
batches stays, and with the batches produced it is the number of indices that carry a batch or an
empty one, of which those asked for have been answered so. -/
structure TotalHolds (first : ℕ) (session final : Session) : Prop where
  empties : final.plan.emptyBatches = session.plan.emptyBatches
  total : ∀ produced index source, (index, .batch source) ∈ session.log → first + produced < source →
    final.history.countP (carries first produced) = produced + session.plan.emptyBatches ∧
      (answeredIndices first produced final).card ≤ produced + session.plan.emptyBatches ∧
      (final.AskedDensely first →
        (answeredIndices first produced final).card = produced + session.plan.emptyBatches)

/-- After one inline batch and with a window of two, index 5 is asked for first: 2 and 3 carry rows, 4
and 5 are empty. The stream ends after batch 2, so index 3 gets the terminal answer. -/
def outOfOrder : List Call :=
  [.decide 5 1, .decide 2 1, .answered 2, .emptyHold 5 0, .decide 3 1, .answered 3, .close]

end Session

end DuckAcl.FetchWindow
