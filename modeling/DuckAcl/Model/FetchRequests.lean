import DuckAcl.Model.FetchWindow
import Mathlib.Data.Finset.Basic

/-! # The requests of a fetch window

The FETCH handler (`acl_embed_server.cpp`) passes the client's index and ack on as they come, each with
the batches PREPARE answered inline added: any 64-bit value reaches `Decide`. The one sum of the plan
that such a value can take past 64 bits is the bound of `MAX_AHEAD`, which is computed here the way the
code computes it; `counters_fit` shows that the plan's counters stay below it. The clock is the steady
one, whose nanoseconds are a signed 64-bit count, so a reading in milliseconds leaves room for the
length of a hold.
-/

namespace DuckAcl.FetchWindow

/-- A reading of the steady clock. -/
structure ClockReading where
  nanos : ℕ
  fits : nanos < 9223372036854775808
deriving DecidableEq

/-- `duration_cast<milliseconds>`. -/
def ClockReading.ms (reading : ClockReading) : ℕ := reading.nanos / 1000000

namespace Plan

/-- `MaxValue<idx_t>(acked, first) + MAX_AHEAD`. -/
def farthest (plan : Plan) (first : UInt64) : UInt64 :=
  UInt64.ofNat (Max.max plan.acked first.toNat) + UInt64.ofNat maxAhead

/-- The plan once a request's inline batches and its ack are taken. -/
def taken (plan : Plan) (ack first : UInt64) : Plan :=
  (plan.inlined first.toNat).acknowledge ack.toNat

/-- `Decide` of the values a request carries. -/
def fetch (plan : Plan) (index ack first : UInt64) : Answer × Plan :=
  if plan.width = 0 then (.batch index.toNat, plan)
  else (plan.taken ack first).decideWithin ((plan.taken ack first).farthest first).toNat index.toNat

end Plan

/-- One call of the plan by the handler. -/
inductive Request where
  | fetch (index ack first : UInt64)
  | answered (index : UInt64)
  | emptyHold (index : UInt64) (now : ClockReading)
  | close
deriving DecidableEq

/-- The reading a call comes with. -/
def Request.reading : Request → Option ClockReading
  | .emptyHold _ now => some now
  | .fetch _ _ _ | .answered _ | .close => none

/-- The plan and, beside it, what became of the indices: those decided to carry rows, those an ack
covered after they were decided, those answered, and those some FETCH has named. -/
structure Ledger where
  plan : Plan
  rows : Finset ℕ := ∅
  acknowledged : Finset ℕ := ∅
  served : Finset ℕ := ∅
  named : Finset ℕ := ∅
deriving DecidableEq

namespace Ledger

/-- The plan as the stream's first FETCH makes it. -/
def opened (start cap : UInt64) : Ledger :=
  { plan := .new start.toNat cap.toNat }

/-- The indices a plan has decided to carry rows above an index. -/
def newRows (plan : Plan) (decided : ℕ) : Finset ℕ :=
  ((plan.answers.filter fun entry => decide (decided < entry.1) && entry.2.isSome).map Prod.fst).toFinset

/-- One call. -/
def step (ledger : Ledger) : Request → Ledger
  | .fetch index ack first =>
    let plan := (ledger.plan.fetch index ack first).2
    { plan := plan
      rows := ledger.rows ∪ newRows plan (max ledger.plan.decided first.toNat)
      acknowledged :=
        if ledger.plan.acked < plan.acked then ledger.acknowledged ∪ ledger.rows.filter (· ≤ plan.acked)
        else ledger.acknowledged
      served := ledger.served
      named := insert index.toNat ledger.named }
  | .answered index =>
    { ledger with
      plan := ledger.plan.answered index.toNat
      served := if index.toNat ∈ ledger.rows then insert index.toNat ledger.served else ledger.served }
  | .emptyHold index now => { ledger with plan := (ledger.plan.emptyHold index.toNat now.ms).2 }
  | .close => { ledger with plan := ledger.plan.close }

/-- A sequence of calls. -/
def run (ledger : Ledger) (requests : List Request) : Ledger :=
  requests.foldl step ledger

@[simp] theorem run_nil (ledger : Ledger) : ledger.run [] = ledger := rfl

theorem run_append (ledger : Ledger) (requests later : List Request) :
    ledger.run (requests ++ later) = (ledger.run requests).run later := List.foldl_append

theorem run_snoc (ledger : Ledger) (requests : List Request) (request : Request) :
    ledger.run (requests ++ [request]) = (ledger.run requests).step request := by
  rw [run_append]
  rfl

/-- The indices above the ack that carry rows. -/
def rowsAbove (ledger : Ledger) : Finset ℕ := ledger.rows.filter (ledger.plan.acked < ·)

/-- The indices that carry rows, not acknowledged and not answered. -/
def waiting (ledger : Ledger) : Finset ℕ := (ledger.rows \ ledger.acknowledged) \ ledger.served

/-- The readings of the clock do not go back. -/
def ClockForward (requests : List Request) : Prop :=
  (requests.filterMap Request.reading).Pairwise fun earlier later => earlier.ms ≤ later.ms

instance (requests : List Request) : Decidable (ClockForward requests) := inferInstanceAs (Decidable (List.Pairwise _ _))

end Ledger

end DuckAcl.FetchWindow
