import DuckAcl.Library.Entries
import DuckAcl.Library.Runs
import DuckAcl.Library.Text

/-! # The audit pipeline

`Emit` queues an event for the thread that runs `Run`, which hands it to the sinks; `Flush` waits for that
thread and `Stop` ends it (`acl_audit.cpp`). A denial past its source's rate is marked unrecorded and still
queued: it is only counted. Here a step is one locked section, the section that ends a wait, or one call of
`Handle`. The settings an `Emit` reads, the clock, whether the platform starts the thread and whether a wait
timed out are inputs of the step.

The fields of an event are those the pipeline itself reads. Counters are natural numbers.
-/

namespace DuckAcl

/-- `AuditEvent`. The number of the `Emit` call is history: the source has no such field. -/
structure AuditEvent where
  call : ℕ := 0
  recorded : Bool := true
  allowed : Bool := true
  kind : Text := []
  detail : Text := []
  door : Text := []
  session : Text := []
  issuer : Text := []
  subject : Text := []
  roles : List Text := []
  seq : ℕ := 0
  tsUs : ℤ := 0
deriving DecidableEq, Repr

/-- The `where` of `acl.audit.dropped`. -/
inductive AuditDrop where
  | rateLimit
  | queue
deriving DecidableEq, Repr

/-- The thread that runs `Run`. -/
inductive AuditWorker where
  /-- not started -/
  | absent
  /-- before the locked section that takes an event -/
  | waiting
  /-- with an event, before or in `Handle` -/
  | holding (event : AuditEvent)
  /-- `Handle` returned and `handled` is not counted yet -/
  | told (event : AuditEvent)
  | returned
deriving DecidableEq, Repr

/-- What the pipeline's locks guard. -/
structure AuditPipeline where
  queue : List AuditEvent := []
  seq : ℕ := 0
  dropped : ℕ := 0
  handled : ℕ := 0
  enqueued : ℕ := 0
  stopping : Bool := false
  abandon : Bool := false
  worker : AuditWorker := .absent
  /-- `worker.joinable()` -/
  joinable : Bool := false
  /-- `denial_buckets`: a source's second, and its denials in it -/
  denialBuckets : Entries Text (ℤ × ℤ) := .empty

/-! ## The denial rate -/

/-- The source a denial is counted under. -/
def AuditEvent.denialSource (event : AuditEvent) : Text :=
  if event.session ≠ [] then "session:".toList ++ event.session
  else if event.subject ≠ [] ∨ event.roles ≠ [] then
    "principal:".toList ++ event.issuer ++ "|".toList ++ event.subject ++ "|".toList ++ [','].intercalate event.roles
  else
    let source := "door:".toList ++ event.door
    if event.kind = "door".toList ∧ "observe_".toList.isPrefixOf event.detail then source ++ ":observe".toList
    else if event.kind = "policy".toList ∧ event.detail = "source_unreadable".toList then source ++ ":listing".toList
    else source

namespace AuditPipeline

/-- `AdmitDenial`. -/
def admitDenial (pipeline : AuditPipeline) (event : AuditEvent) (perSecond second : ℤ) : AuditPipeline × Bool :=
  if perSecond ≤ 0 then (pipeline, true)
  else
    -- bounded: a flood of sources starts over
    let buckets := if 4096 < pipeline.denialBuckets.list.length then .empty else pipeline.denialBuckets
    let bucket := (buckets.find event.denialSource).getD (0, 0)
    let count := (if bucket.1 ≠ second then 0 else bucket.2) + 1
    ({ pipeline with denialBuckets := buckets.put event.denialSource (second, count) }, count ≤ perSecond)

/-- The part of `Emit` before its locked section: the event as it goes on, and whether the rate limit
counted it. -/
def limit (pipeline : AuditPipeline) (event : AuditEvent) (perSecond second : ℤ) : AuditPipeline × AuditEvent × Bool :=
  if !event.allowed && event.recorded then
    let (pipeline, admitted) := pipeline.admitDenial event perSecond second
    if admitted then (pipeline, event, false)
    else ({ pipeline with dropped := pipeline.dropped + 1 }, { event with recorded := false }, true)
  else (pipeline, event, false)

/-! ## The queue -/

/-- How the locked section of `Emit` ends. -/
inductive EmitOutcome where
  /-- the pipeline is stopping -/
  | ignored
  /-- the queue is full, or its thread did not start -/
  | dropped
  | queued (event : AuditEvent)
deriving DecidableEq, Repr

/-- What `Emit` returns. -/
def EmitOutcome.assigned : EmitOutcome → ℕ
  | .queued event => event.seq
  | _ => 0

/-- The locked section of `Emit`. -/
def enqueue (pipeline : AuditPipeline) (event : AuditEvent) (cap now : ℤ) (starts : Bool) :
    AuditPipeline × EmitOutcome :=
  if pipeline.stopping then (pipeline, .ignored)
  else if 0 < cap ∧ cap ≤ pipeline.queue.length then ({ pipeline with dropped := pipeline.dropped + 1 }, .dropped)
  else
    let event := { event with tsUs := now, seq := pipeline.seq + 1 }
    if pipeline.joinable ∨ starts then
      ({ pipeline with
          seq := pipeline.seq + 1
          queue := pipeline.queue ++ [event]
          enqueued := pipeline.enqueued + 1
          worker := if pipeline.joinable then pipeline.worker else .waiting
          joinable := true },
        .queued event)
    else ({ pipeline with seq := pipeline.seq + 1, dropped := pipeline.dropped + 1 }, .dropped)

/-- The events the thread drops when `Stop` gave up on them. -/
def abandoned (pipeline : AuditPipeline) : List AuditEvent := if pipeline.abandon then pipeline.queue else []

/-- The locked section of `Run` that takes an event. -/
def take (pipeline : AuditPipeline) : AuditPipeline :=
  let left := if pipeline.abandon then [] else pipeline.queue
  { pipeline with
    dropped := pipeline.dropped + pipeline.abandoned.length
    queue := left.tail
    worker := left.head?.elim .returned .holding }

end AuditPipeline

/-! ## The calls -/

/-- An `Emit` before its locked section. -/
structure EmitCall where
  event : AuditEvent
  cap : ℤ
deriving DecidableEq, Repr

/-- A waiting `Flush`: its target and, as history, the calls whose events were queued before it. -/
structure FlushCall where
  target : ℕ
  before : List ℕ
deriving DecidableEq, Repr

/-- A `Stop`. -/
inductive StopCall where
  | waits
  | joins
deriving DecidableEq, Repr

/-- The pipeline with the calls in progress. What follows them is history: the calls of `Emit` and those
that passed a recorded event, the calls whose event was queued, the events handled, the additions to
`acl.audit.dropped`, what the calls returned, and the calls before each `Flush` that returned true. -/
structure AuditState where
  pipeline : AuditPipeline := {}
  emits : List EmitCall := []
  flushes : List FlushCall := []
  stops : List StopCall := []
  calls : ℕ := 0
  asked : List ℕ := []
  entered : List ℕ := []
  log : List AuditEvent := []
  drops : List (ℕ × AuditDrop) := []
  results : List (ℕ × ℕ) := []
  drained : List (List ℕ) := []

inductive AuditAction where
  /-- a call of `Emit`, up to its locked section -/
  | emit (event : AuditEvent) (cap perSecond second : ℤ)
  | enqueue (emit : ℕ) (now : ℤ) (starts : Bool)
  | take
  | handle
  | count
  | flush
  | flushWakes (flush : ℕ) (timedOut : Bool)
  | stop
  | stopWakes (stop : ℕ) (timedOut : Bool)
  /-- the end of `Stop`; `own` on the pipeline's thread -/
  | join (stop : ℕ) (own : Bool)

namespace AuditState

/-- A new call of `Emit`. -/
def emit (state : AuditState) (event : AuditEvent) (cap perSecond second : ℤ) : AuditState :=
  let (pipeline, limited, counted) := state.pipeline.limit { event with call := state.calls } perSecond second
  { state with
    pipeline := pipeline
    emits := state.emits ++ [{ event := limited, cap := cap }]
    calls := state.calls + 1
    asked := if event.recorded then state.asked ++ [state.calls] else state.asked
    drops := if counted then state.drops ++ [(state.calls, .rateLimit)] else state.drops }

/-- The locked section of the `Emit` at an index. -/
def enqueue (state : AuditState) (index : ℕ) (emit : EmitCall) (now : ℤ) (starts : Bool) : AuditState :=
  let (pipeline, outcome) := state.pipeline.enqueue emit.event emit.cap now starts
  { state with
    pipeline := pipeline
    emits := state.emits.eraseIdx index
    entered := if let .queued event := outcome then state.entered ++ [event.call] else state.entered
    drops := if outcome = .dropped then state.drops ++ [(emit.event.call, .queue)] else state.drops
    results := state.results ++ [(emit.event.call, outcome.assigned)] }

def take (state : AuditState) : AuditState :=
  { state with
    pipeline := state.pipeline.take
    drops := state.drops ++ state.pipeline.abandoned.map fun event => (event.call, .queue) }

/-- The predicate `Flush` waits for. -/
def flushed (state : AuditState) (flush : FlushCall) : Bool :=
  flush.target ≤ state.pipeline.handled || state.pipeline.stopping

/-- A new `Flush`. -/
def newFlush (state : AuditState) : FlushCall := { target := state.pipeline.enqueued, before := state.entered }

/-- The end of the waiting of `Stop`, under the lock. -/
def giveUp (state : AuditState) : AuditState := { state with pipeline := { state.pipeline with abandon := true } }

/-- One step. -/
def step (state : AuditState) : AuditAction → Option AuditState
  | .emit event cap perSecond second => some (state.emit event cap perSecond second)
  | .enqueue index now starts => state.emits[index]?.map fun emit => state.enqueue index emit now starts
  | .take =>
    if state.pipeline.worker = .waiting ∧ (state.pipeline.queue ≠ [] ∨ state.pipeline.stopping = true) then
      some state.take
    else none
  | .handle =>
    match state.pipeline.worker with
    | .holding event =>
      some { state with pipeline := { state.pipeline with worker := .told event }, log := state.log ++ [event] }
    | _ => none
  | .count =>
    match state.pipeline.worker with
    | .told _ =>
      some { state with pipeline := { state.pipeline with worker := .waiting, handled := state.pipeline.handled + 1 } }
    | _ => none
  | .flush =>
    if state.flushed state.newFlush then some { state with drained := state.drained ++ [state.newFlush.before] }
    else some { state with flushes := state.flushes ++ [state.newFlush] }
  | .flushWakes index timedOut =>
    match state.flushes[index]? with
    | none => none
    | some flush =>
      if state.flushed flush then
        some { state with flushes := state.flushes.eraseIdx index, drained := state.drained ++ [flush.before] }
      else if timedOut then some { state with flushes := state.flushes.eraseIdx index }
      else some state
  | .stop =>
    let stopping := { state with pipeline := { state.pipeline with stopping := true } }
    if state.pipeline.joinable ∧ state.pipeline.queue ≠ [] then some { stopping with stops := state.stops ++ [.waits] }
    else some { stopping.giveUp with stops := state.stops ++ [.joins] }
  | .stopWakes index timedOut =>
    if state.stops[index]? = some .waits then
      if state.pipeline.queue = [] ∨ timedOut then some { state.giveUp with stops := state.stops.set index .joins }
      else some state
    else none
  | .join index own =>
    if state.stops[index]? = some .joins ∧ (state.pipeline.joinable → own ∨ state.pipeline.worker = .returned) then
      some
        { state with
          pipeline := { state.pipeline with joinable := false }
          stops := state.stops.eraseIdx index }
    else none

end AuditState

end DuckAcl
