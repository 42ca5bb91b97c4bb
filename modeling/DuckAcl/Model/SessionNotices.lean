import Mathlib
import DuckAcl.Library.Runs
import DuckAcl.Library.Text

/-! # Telling the observers

`SessionNotifier` tells every observer of a session's open and of its close (`acl_session_hooks.cpp`). An
open is told outside any lock; while it is, a close of the session waits in `deferred`. Any thread may
flush the queued closes. A call is a task here, taken further one atomic step at a time: one locked
section, or one call of an observer. `hooks->Observers()` answers the observers registered at that moment.
-/

namespace DuckAcl

/-- A queued close: the session, and how it ended. -/
abbrev CloseNotice := Text × Text

/-- What an observer is told. -/
inductive SessionNotice (α : Type) where
  | opened (observer : α) (session : Text)
  | closed (observer : α) (close : CloseNotice)
deriving DecidableEq

/-- What `SessionNotifier` guards by its lock. -/
structure SessionNotifier where
  opening : List Text := []
  deferred : List CloseNotice := []
  closes : List CloseNotice := []

namespace SessionNotifier

/-- `BeginOpen`. -/
def beginOpen (notifier : SessionNotifier) (session : Text) : SessionNotifier :=
  { notifier with opening := notifier.opening.insert session }

/-- `QueueClose`. -/
def queueClose (notifier : SessionNotifier) (close : CloseNotice) : SessionNotifier :=
  if close.1 ∈ notifier.opening then
    -- its open is being delivered: the close follows it
    { notifier with deferred := close :: notifier.deferred.filter (·.1 ≠ close.1) }
  else { notifier with closes := notifier.closes ++ [close] }

/-- The locked section of `Opened`, after every observer was told. -/
def openTold (notifier : SessionNotifier) (session : Text) : SessionNotifier where
  opening := notifier.opening.filter (· ≠ session)
  deferred := notifier.deferred.filter (·.1 ≠ session)
  closes := notifier.closes ++ notifier.deferred.filter (·.1 = session)

/-- The locked section of `Flush`. -/
def swapCloses (notifier : SessionNotifier) : SessionNotifier := { notifier with closes := [] }

end SessionNotifier

/-- A call in progress. -/
inductive NoticeTask (α : Type) where
  /-- `Opened`, with the observers still to be told -/
  | telling (session : Text) (left : List α)
  /-- `Flush`, before its locked section -/
  | flush
  /-- `Flush` with the closes it took, before it asks for the observers -/
  | taken (due : List CloseNotice)
  /-- `Flush`, with the calls still to be made -/
  | closing (left : List (α × CloseNotice))
deriving DecidableEq

/-- A call that has returned. -/
def NoticeTask.returned {α : Type} : NoticeTask α → Bool
  | .closing [] => true
  | _ => false

/-- The notifier with the calls in progress. The lists after them are the history: the sessions begun,
those whose open was told or is being told, the closes queued, and what the observers heard. -/
structure NoticeState (α : Type) where
  notifier : SessionNotifier := {}
  tasks : List (NoticeTask α) := []
  begun : List Text := []
  told : List Text := []
  queued : List CloseNotice := []
  /-- a close was queued, and no `Flush` was called since -/
  unflushed : Bool := false
  log : List (SessionNotice α) := []

/-- A step of some thread. -/
inductive NoticeEvent (α : Type) where
  | beginOpen (session : Text)
  | opened (session : Text) (observers : List α)
  | queueClose (close : CloseNotice)
  | flush
  /-- the call takes its next step; `observers` are those registered then -/
  | advance (task : ℕ) (observers : List α)

section

variable {α : Type} [DecidableEq α]

/-- The observers registered at some moment: each of those that stay registered, once. -/
def Registered (staying observers : List α) : Prop := ∀ observer ∈ staying, observers.count observer = 1

instance (staying observers : List α) : Decidable (Registered staying observers) :=
  inferInstanceAs (Decidable (∀ observer ∈ staying, _))

/-- The next step of a call, with what it tells. -/
def NoticeTask.next (notifier : SessionNotifier) (observers : List α) :
    NoticeTask α → SessionNotifier × NoticeTask α × List (SessionNotice α)
  | .telling session (observer :: left) => (notifier, .telling session left, [.opened observer session])
  | .telling session [] => (notifier.openTold session, .flush, [])
  | .flush => (notifier.swapCloses, .taken notifier.closes, [])
  | .taken due => (notifier, .closing (due.flatMap fun close => observers.map fun observer => (observer, close)), [])
  | .closing ((observer, close) :: left) => (notifier, .closing left, [.closed observer close])
  | .closing [] => (notifier, .closing [], [])

/-- One step. The store begins and tells the open of a session once, in that order, and queues its close
at most once, after it began. -/
def NoticeState.step (staying : List α) (state : NoticeState α) : NoticeEvent α → Option (NoticeState α)
  | .beginOpen session =>
    if session ∈ state.begun then none
    else some { state with notifier := state.notifier.beginOpen session, begun := session :: state.begun }
  | .opened session observers =>
    if session ∈ state.begun ∧ session ∉ state.told ∧ Registered staying observers then
      some { state with tasks := state.tasks ++ [.telling session observers], told := session :: state.told }
    else none
  | .queueClose close =>
    if close.1 ∈ state.begun ∧ close.1 ∉ state.queued.map Prod.fst then
      some
        { state with
          notifier := state.notifier.queueClose close
          queued := close :: state.queued
          unflushed := true }
    else none
  | .flush => some { state with tasks := state.tasks ++ [.flush], unflushed := false }
  | .advance index observers =>
    match state.tasks[index]? with
    | none => none
    | some task =>
      if task.returned ∨ ¬ Registered staying observers then none
      else
        let (notifier, after, told) := task.next state.notifier observers
        some { state with notifier, tasks := state.tasks.set index after, log := state.log ++ told }

end

end DuckAcl
