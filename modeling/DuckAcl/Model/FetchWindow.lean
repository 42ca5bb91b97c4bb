import Mathlib.Data.Finset.Card

/-! # The fetch window

A client keeps many FETCHes in flight. `AclFetchWindowPlan` (`acl_quack_fetch_window.hpp`) decides
which answer each index gets: at most a window's worth of indices above the client's ack carry rows,
the others are answered by an empty batch, and the produced batches move to the indices after it. The
plan is decided in index order, whatever order the FETCHes arrive in. The caller holds the stream's
lock, so one call is one step.

Indices are natural numbers here: they count the batches of one stream, and an ack is of a batch the
client has. `EMPTY_MARK`, which is no batch's number, is `none`.
-/

namespace DuckAcl

namespace FetchWindow

/-- `MAX_AHEAD`: how far above its ack a FETCH may name an index. -/
def maxAhead : ℕ := 65536

/-- `ACK_HOLD_MS` and `ACK_HOLD_MAX_MS`. -/
def ackHoldMs : ℕ := 20

def ackHoldMaxMs : ℕ := 500

/-- The answer for an index: a produced batch, an empty one, or a refusal. -/
inductive Answer where
  | batch (source : ℕ)
  | empty
  /-- Acknowledged long ago. -/
  | gone
  /-- Further above the ack than any client reads ahead; nothing is decided. -/
  | tooFar
deriving DecidableEq, Repr

/-- Whether an empty answer waits, and for what. -/
inductive Hold where
  | none
  | production
  | acknowledgement
deriving DecidableEq, Repr

/-- `AclFetchWindowPlan`. -/
structure Plan where
  width : ℕ
  max : ℕ
  /-- The acknowledged batches with rows at which the window doubles next. -/
  nextGrowth : ℕ
  ackedBatches : ℕ := 0
  /-- `1..decided` have their answer. -/
  decided : ℕ := 0
  /-- The highest ack seen. -/
  acked : ℕ := 0
  empties : ℕ := 0
  closed : Bool := false
  /-- Indices above the ack that carry rows. -/
  openReal : Finset ℕ := ∅
  /-- The answers above the ack, by index. -/
  answers : List (ℕ × Option ℕ) := []
  /-- Indices carrying rows that are decided and not yet answered. -/
  unanswered : Finset ℕ := ∅
  /-- Indices carrying rows whose own FETCH has arrived, and is not answered yet. -/
  arrived : Finset ℕ := ∅
  /-- When an empty index was first held on a timer, and for how long. -/
  heldSince : List (ℕ × ℕ × ℕ) := []
  ackHold : ℕ := ackHoldMs
deriving DecidableEq

namespace Plan

/-- The constructor: a start of 0 is no window, a maximum of 0 no cap. -/
def new (start cap : ℕ) : Plan :=
  let width := if cap = 0 then start else min start cap
  { width := width, max := cap, nextGrowth := width }

/-- One acknowledged answer leaves the plan. -/
def forget (plan : Plan) (index : ℕ) : Option ℕ → Plan
  | some _ =>
    { plan with
      openReal := plan.openReal.erase index
      ackedBatches := plan.ackedBatches + 1
      unanswered := plan.unanswered.erase index
      arrived := plan.arrived.erase index
      heldSince := plan.heldSince.filter fun held => held.1 ≠ index }
  | none => { plan with heldSince := plan.heldSince.filter fun held => held.1 ≠ index }

/-- The loop over the answers up to the ack, which stand in index order. -/
def forgetAcked : List (ℕ × Option ℕ) → Plan → Plan
  | [], plan => { plan with answers := [] }
  | (index, answer) :: rest, plan =>
    if index ≤ plan.acked then forgetAcked rest (plan.forget index answer)
    else { plan with answers := (index, answer) :: rest }

/-- A window's worth of batches has been acknowledged, and the window may still grow. -/
def grows (plan : Plan) : Bool :=
  decide (plan.nextGrowth ≤ plan.ackedBatches) && decide (plan.width < maxAhead) &&
    (decide (plan.max = 0) || decide (plan.width < plan.max))

/-- One doubling, up to the cap. -/
def double (plan : Plan) : Plan :=
  let width := if plan.max = 0 then plan.width * 2 else min (plan.width * 2) plan.max
  { plan with width := width, nextGrowth := plan.nextGrowth + width }

/-- The growth loop. A window of at least one is past `MAX_AHEAD` after 17 doublings. -/
def growFor : ℕ → Plan → Plan
  | 0, plan => plan
  | doublings + 1, plan => if plan.grows then growFor doublings plan.double else plan

def grow (plan : Plan) : Plan := plan.growFor 17

/-- The part of `Decide` that takes the request's ack. -/
def acknowledge (plan : Plan) (ack : ℕ) : Plan :=
  if plan.acked < ack then
    let acked := { plan with acked := ack, ackHold := ackHoldMs }
    (forgetAcked acked.answers acked).grow
  else plan

/-- The next index gets its answer: a batch with rows while the window has room, or once a terminal
answer has announced the total. The produced batches keep their order. -/
def decideNext (plan : Plan) : Plan :=
  let next := plan.decided + 1
  if plan.closed = false ∧ plan.width ≤ plan.openReal.card then
    { plan with answers := plan.answers ++ [(next, none)], empties := plan.empties + 1, decided := next }
  else
    { plan with
      answers := plan.answers ++ [(next, some (next - plan.empties))]
      openReal := insert next plan.openReal
      unanswered := insert next plan.unanswered
      decided := next }

/-- The loop that decides every index up to the one named. -/
def decideMore : ℕ → Plan → Plan
  | 0, plan => plan
  | more + 1, plan => decideMore more plan.decideNext

/-- What the plan has for an index. -/
def answerOf (plan : Plan) (index : ℕ) : Option (Option ℕ) :=
  (plan.answers.find? fun entry => decide (entry.1 = index)).map Prod.snd

/-- The end of `Decide`: the answer for an index that has been decided. A batch whose FETCH is here
waits for the producer only. -/
def answer (plan : Plan) (index : ℕ) : Answer × Plan :=
  match plan.answerOf index with
  | none => (.gone, plan)
  | some none => (.empty, plan)
  | some (some source) =>
    (.batch source, if index ∈ plan.unanswered then { plan with arrived := insert index plan.arrived } else plan)

/-- The rest of `Decide` once the ack is taken: an index past the farthest one allowed is refused. -/
def decideWithin (plan : Plan) (farthest index : ℕ) : Answer × Plan :=
  if farthest < index then (.tooFar, plan) else (plan.decideMore (index - plan.decided)).answer index

/-- The batches PREPARE answered inline count as decided. -/
def inlined (plan : Plan) (first : ℕ) : Plan :=
  { plan with decided := Max.max plan.decided first }

/-- `Decide`: the answer for `index`, with the request's ack and the batches PREPARE answered inline. -/
def decide (plan : Plan) (index ack first : ℕ) : Answer × Plan :=
  if plan.width = 0 then (.batch index, plan)
  else
    let acked := (plan.inlined first).acknowledge ack
    acked.decideWithin (Max.max acked.acked first + maxAhead) index

/-- `Answered`: the index's batch was served, or the terminal sent. -/
def answered (plan : Plan) (index : ℕ) : Plan :=
  { plan with unanswered := plan.unanswered.erase index, arrived := plan.arrived.erase index }

/-- `EmptyHold`: whether an empty index may be answered now. -/
def emptyHold (plan : Plan) (index now : ℕ) : Hold × Plan :=
  if ∀ real ∈ plan.openReal, index < real then
    (.none, { plan with heldSince := plan.heldSince.filter fun held => held.1 ≠ index })
  else if (∃ real ∈ plan.unanswered, real < index) ∧
      ∀ real ∈ plan.unanswered, real < index → real ∈ plan.arrived then
    (.production, plan)
  else
    -- the hold's length is fixed when it starts
    let found := plan.heldSince.find? fun held => Decidable.decide (held.1 = index)
    let (since, length) : ℕ × ℕ := (found.map Prod.snd).getD (now, plan.ackHold)
    if since + length ≤ now then
      (.none,
        { plan with
          heldSince := plan.heldSince.filter fun held => held.1 ≠ index
          ackHold := min (length * 2) ackHoldMaxMs })
    else
      (.acknowledgement,
        { plan with
          heldSince := if found.isSome then plan.heldSince else (index, now, plan.ackHold) :: plan.heldSince })

/-- `Close`: a terminal answer is being sent. -/
def close (plan : Plan) : Plan :=
  { plan with closed := true }

/-- `EmptyBatches`. -/
def emptyBatches (plan : Plan) : ℕ := plan.empties

end Plan

/-- One call of the plan. -/
inductive Call where
  | decide (index ack : ℕ)
  | answered (index : ℕ)
  | emptyHold (index now : ℕ)
  | close
deriving DecidableEq, Repr

/-- The plan and, beside it, what it was asked and what it has decided: `history` holds the answers of
the indices `first + 1, first + 2, ...` in order. -/
structure Session where
  plan : Plan
  history : List (Option ℕ) := []
  log : List (ℕ × Answer) := []

namespace Session

/-- What a plan has decided above an index. -/
def newlyDecided (plan : Plan) (decided : ℕ) : List (Option ℕ) :=
  (plan.answers.filter fun entry => Decidable.decide (decided < entry.1)).map Prod.snd

/-- One call. -/
def step (first : ℕ) (session : Session) : Call → Session
  | .decide index ack =>
    let (answer, plan) := session.plan.decide index ack first
    { plan := plan
      history := session.history ++ newlyDecided plan (max session.plan.decided first)
      log := (index, answer) :: session.log }
  | .answered index => { session with plan := session.plan.answered index }
  | .emptyHold index now => { session with plan := (session.plan.emptyHold index now).2 }
  | .close => { session with plan := session.plan.close }

/-- A sequence of calls. -/
def run (first : ℕ) (session : Session) (calls : List Call) : Session :=
  calls.foldl (step first) session

/-- The ack of a request is at most the highest index decided. -/
def AckDecided (first : ℕ) (session : Session) : Call → Prop
  | .decide _ ack => ack ≤ max session.plan.decided first
  | _ => True

/-- Every request of a sequence of calls acknowledges only what is decided. -/
def AcksDecided (first : ℕ) : Session → List Call → Prop
  | _, [] => True
  | session, call :: rest => session.AckDecided first call ∧ AcksDecided first (session.step first call) rest

instance (first : ℕ) (session : Session) (call : Call) : Decidable (session.AckDecided first call) :=
  match call with
  | .decide _ ack => inferInstanceAs (Decidable (ack ≤ max session.plan.decided first))
  | .answered _ | .emptyHold _ _ | .close => .isTrue trivial

/-- Whether the acks of a sequence of calls are in order can be computed. -/
def decideAcks (first : ℕ) : ∀ (session : Session) (calls : List Call), Decidable (AcksDecided first session calls)
  | _, [] => .isTrue trivial
  | session, call :: rest =>
    have : Decidable (AcksDecided first (session.step first call) rest) := decideAcks first _ rest
    inferInstanceAs (Decidable (_ ∧ _))

instance (first : ℕ) (session : Session) (calls : List Call) : Decidable (AcksDecided first session calls) :=
  decideAcks first session calls

end Session

end FetchWindow

end DuckAcl
