import DuckAcl.Library.Runs

/-! # The stream budget

A quack statement's stream holds memory while its producer runs. `StreamBudget` (`acl_stream_budget.hpp`)
reserves a stream's worst case and lets one statement of the waiting line in at a time: the highest
priority after aging, then the lowest ticket. `AclQuackStreamSlot` (`acl_quack_door.cpp`) reserves in its
constructor and releases in its destructor.

A step is a section under the budget's lock: from the entry of `Acquire`, or from a wake-up in its loop, to
the next wait or to the return, or a whole `Release`. The clock moves inside a section too, so every
reading of it is an input of its own. Sizes, tickets and times are the source's 64-bit words; a signed sum
that does not fit is taken in two's complement.
-/

namespace DuckAcl

/-- `Waiter`: `arrived` is a `steady_clock` reading in nanoseconds. -/
structure StreamWaiter where
  ticket : UInt64
  priority : Int64
  arrived : Int64
deriving DecidableEq, Repr

/-- What `StreamBudget` guards by its lock, and `age_step` in milliseconds. -/
structure StreamBudget where
  ageStep : Int64 := 5000
  reserved : UInt64 := 0
  producing : UInt64 := 0
  refused : Int64 := 0
  nextTicket : UInt64 := 0
  waiting : List StreamWaiter := []
deriving DecidableEq, Repr

/-- A call of `Acquire` in progress: its arguments, and what it computed on entry. `timeout` is in
seconds, as the slot reads it. -/
structure StreamCaller where
  bytes : UInt64
  budget : UInt64
  timeout : UInt64
  waiter : StreamWaiter
  deadline : Int64
deriving DecidableEq, Repr

/-- What a section of `Acquire` reads, in this order. -/
structure StreamMoments where
  /-- the clock in the loop's test -/
  tested : Int64
  interrupted : Bool
  /-- the clock compared with the deadline -/
  timed : Int64
  /-- the clock in the test after the loop -/
  decided : Int64
deriving DecidableEq, Repr

/-- How a section of `Acquire` ends. -/
inductive StreamVerdict where
  | waits
  | admitted
  | refused (wasInterrupted : Bool)
deriving DecidableEq, Repr

namespace StreamBudget

/-- The step of the aging: `age_step`, or one millisecond. -/
def step (budget : StreamBudget) : Int64 := if 0 < budget.ageStep then budget.ageStep else 1

/-- A waiter's priority after aging. -/
def effective (budget : StreamBudget) (now : Int64) (waiter : StreamWaiter) : Int64 :=
  waiter.priority + (now - waiter.arrived) / 1000000 / budget.step

/-- The loop body of `HeadLocked`, over the head and its priority so far. -/
def overtake (budget : StreamBudget) (now : Int64) (best : Option (UInt64 × Int64)) (waiter : StreamWaiter) :
    Option (UInt64 × Int64) :=
  let effective := budget.effective now waiter
  match best with
  | none => some (waiter.ticket, effective)
  | some (head, most) =>
    if most < effective ∨ (effective = most ∧ waiter.ticket < head) then some (waiter.ticket, effective)
    else some (head, most)

/-- `HeadLocked`: 0 when nobody waits. -/
def headLocked (budget : StreamBudget) (now : Int64) : UInt64 :=
  match budget.waiting.foldl (budget.overtake now) none with
  | none => 0
  | some (head, _) => head

/-- `LeaveLocked`. -/
def leaveLocked (budget : StreamBudget) (ticket : UInt64) : StreamBudget :=
  { budget with waiting := budget.waiting.eraseP (·.ticket = ticket) }

/-- The entry of `Acquire`: a ticket, a place at the end of the line, and a deadline. The conversions of
the timeout to milliseconds and on to the clock's nanoseconds multiply. -/
def enter (budget : StreamBudget) (bytes limit timeout : UInt64) (priority arrived : Int64) :
    StreamBudget × StreamCaller :=
  let waiter : StreamWaiter := { ticket := budget.nextTicket, priority := priority, arrived := arrived }
  ({ budget with nextTicket := budget.nextTicket + 1, waiting := budget.waiting ++ [waiter] },
    { bytes := bytes, budget := limit, timeout := timeout, waiter := waiter,
      deadline := arrived + timeout.toInt64 * 1000 * 1000000 })

/-- `fits`. -/
def fits (budget : StreamBudget) (caller : StreamCaller) (now : Int64) : Bool :=
  budget.headLocked now = caller.waiter.ticket ∧
    (caller.budget = 0 ∨ budget.reserved = 0 ∨ budget.reserved + caller.bytes ≤ caller.budget)

/-- One pass of the loop of `Acquire`: whether it is left, and then `was_interrupted`. -/
def leavesLoop (budget : StreamBudget) (caller : StreamCaller) (moments : StreamMoments) : Option Bool :=
  if budget.fits caller moments.tested then some false
  else if moments.interrupted then some true
  else if caller.deadline ≤ moments.timed then some false
  else none

/-- A pass of the loop and, when it is left, the test after it. -/
def verdict (budget : StreamBudget) (caller : StreamCaller) (moments : StreamMoments) : StreamVerdict :=
  match budget.leavesLoop caller moments with
  | none => .waits
  | some wasInterrupted => if budget.fits caller moments.decided then .admitted else .refused wasInterrupted

/-- What the section leaves behind. -/
def conclude (budget : StreamBudget) (caller : StreamCaller) : StreamVerdict → StreamBudget
  | .waits => budget
  | .admitted =>
    { budget.leaveLocked caller.waiter.ticket with
      reserved := budget.reserved + caller.bytes, producing := budget.producing + 1 }
  | .refused wasInterrupted =>
    { budget.leaveLocked caller.waiter.ticket with
      refused := if wasInterrupted then budget.refused else budget.refused + 1 }

/-- `Release`. -/
def release (budget : StreamBudget) (bytes : UInt64) : StreamBudget :=
  { budget with
    reserved := if bytes ≤ budget.reserved then budget.reserved - bytes else 0
    producing := if 0 < budget.producing then budget.producing - 1 else budget.producing }

end StreamBudget

/-! ## What a slot asks for -/

/-- The settings a slot reads, `none` where one is unset or NULL, and what DuckDB and quack answer: the
operator memory limit, and quack's default for the producer buffer. -/
structure StreamSettings where
  reserveBytes : Option UInt64 := some 0
  producerBuffer : Option UInt64
  windowMax : Option UInt64 := some 0
  clientDepth : Option UInt64 := some 64
  targetBatch : Option UInt64 := some 8388608
  nodeBudget : Option UInt64 := some 0
  queueTimeout : Option UInt64 := some 25
  operatorMemoryLimit : UInt64
  producerDefault : UInt64
deriving DecidableEq, Repr

/-- The part of `ResourceLimits` a slot reads. -/
structure StreamLimits where
  windowMax : Option UInt64 := none
  batchBytes : Option UInt64 := none
  queuePriority : Int64 := 0
deriving DecidableEq, Repr

namespace StreamSettings

/-- The producer buffer, as the server caps it. -/
def producer (settings : StreamSettings) : UInt64 :=
  let producer := settings.producerBuffer.getD settings.producerDefault
  let memoryCap := settings.operatorMemoryLimit / 4
  if 0 < producer ∧ 0 < memoryCap then min producer memoryCap else producer

/-- The batches in flight: the window's cap, or the client's read-ahead. -/
def window (settings : StreamSettings) (limits : Option StreamLimits) : UInt64 :=
  let cap := (limits.bind StreamLimits.windowMax).getD (settings.windowMax.getD 0)
  let depth := if cap = 0 then settings.clientDepth.getD 64 else cap
  if depth = 0 then 64 else depth

def batch (settings : StreamSettings) (limits : Option StreamLimits) : UInt64 :=
  (limits.bind StreamLimits.batchBytes).getD (settings.targetBatch.getD 8388608)

/-- `AclQuackStreamReserve`. -/
def streamReserve (settings : StreamSettings) (limits : Option StreamLimits) : UInt64 :=
  let fixed := settings.reserveBytes.getD 0
  if 0 < fixed then fixed else settings.producer + settings.window limits * settings.batch limits

/-- `AclNodeStreamBudget`. -/
def nodeStreamBudget (settings : StreamSettings) : UInt64 :=
  let budget := settings.nodeBudget.getD 0
  if 0 < budget then budget else settings.operatorMemoryLimit / 2

def streamQueueTimeout (settings : StreamSettings) : UInt64 := settings.queueTimeout.getD 25

end StreamSettings

def StreamLimits.priorityOf (limits : Option StreamLimits) : Int64 := (limits.map StreamLimits.queuePriority).getD 0

/-! ## The node -/

/-- The budget with the slots under construction, which wait, and the bytes of the live ones. -/
structure StreamNode where
  budget : StreamBudget := {}
  /-- no later reading of the clock is before this one -/
  clock : Int64 := 0
  callers : List StreamCaller := []
  live : List UInt64 := []
deriving DecidableEq, Repr

inductive StreamEvent where
  /-- a slot's constructor, to its first wait -/
  | construct (settings : StreamSettings) (limits : Option StreamLimits) (arrived : Int64) (moments : StreamMoments)
  /-- a waiting constructor goes on -/
  | wake (caller : ℕ) (moments : StreamMoments)
  | destroy (slot : ℕ)
deriving DecidableEq, Repr

namespace StreamNode

/-- A section of a constructor's `Acquire`. An admitted slot lives with its `bytes`, a refused one throws. -/
def acquire (node : StreamNode) (index : ℕ) (caller : StreamCaller) (moments : StreamMoments) : StreamNode :=
  let verdict := node.budget.verdict caller moments
  { budget := node.budget.conclude caller verdict
    clock := moments.decided
    callers := if verdict = .waits then node.callers else node.callers.eraseIdx index
    live := if verdict = .admitted then node.live ++ [caller.bytes] else node.live }

/-- The constructor up to its place in the line. -/
def enter (node : StreamNode) (settings : StreamSettings) (limits : Option StreamLimits) (arrived : Int64) :
    StreamNode × StreamCaller :=
  let (budget, caller) := node.budget.enter (settings.streamReserve limits) settings.nodeStreamBudget
    settings.streamQueueTimeout (StreamLimits.priorityOf limits) arrived
  ({ node with budget := budget, clock := arrived, callers := node.callers ++ [caller] }, caller)

/-- The destructor. -/
def destroy (node : StreamNode) (slot : ℕ) (bytes : UInt64) : StreamNode :=
  { node with
    budget := if 0 < bytes then node.budget.release bytes else node.budget
    live := node.live.eraseIdx slot }

end StreamNode

/-- A section's readings of the clock are in order, from the given one on. -/
def StreamMoments.From (clock : Int64) (moments : StreamMoments) : Prop :=
  clock ≤ moments.tested ∧ moments.tested ≤ moments.timed ∧ moments.timed ≤ moments.decided

instance (clock : Int64) (moments : StreamMoments) : Decidable (moments.From clock) :=
  inferInstanceAs (Decidable (_ ∧ _))

/-- One step of the node. -/
def StreamNode.step (node : StreamNode) : StreamEvent → Option StreamNode
  | .construct settings limits arrived moments =>
    if node.clock ≤ arrived ∧ moments.From arrived then
      let (entered, caller) := node.enter settings limits arrived
      some (entered.acquire node.callers.length caller moments)
    else none
  | .wake index moments =>
    match node.callers[index]? with
    | none => none
    | some caller => if moments.From node.clock then some (node.acquire index caller moments) else none
  | .destroy slot =>
    match node.live[slot]? with
    | none => none
    | some bytes => some (node.destroy slot bytes)

/-- A node nobody streams from yet. -/
def StreamNode.start (ageStep : Int64) : StreamNode := { budget := { ageStep := ageStep } }

end DuckAcl
