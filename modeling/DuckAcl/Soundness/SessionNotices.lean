import Mathlib.Data.List.Count
import DuckAcl.Library.Bags
import DuckAcl.Model.SessionNotices

/-! # Every session is told of once, its open before its close

Each queued close is in exactly one place: waiting for the session's open, queued, taken by a flush, or
told. A flush takes the queue whole, so no two flushes tell one close. A close leaves `deferred`, or is
queued at all, only when the open was told to every observer that stays.
-/

namespace DuckAcl

variable {α : Type} [DecidableEq α]

/-! ## What a call still tells -/

/-- How many times a call in progress still tells a notice. -/
def NoticeTask.owes (notice : SessionNotice α) (task : NoticeTask α) : ℕ :=
  match notice, task with
  | .opened observer session, .telling current left => if current = session then left.count observer else 0
  | .closed _ close, .taken due => due.count close
  | .closed observer close, .closing left => left.count (observer, close)
  | _, _ => 0

/-- How many times the calls in progress still tell a notice. -/
def NoticeState.owed (state : NoticeState α) (notice : SessionNotice α) : ℕ :=
  (state.tasks.map (NoticeTask.owes notice)).sum

theorem count_flatMap_pairs (due : List CloseNotice) (observers : List α) (observer : α) (close : CloseNotice) :
    (due.flatMap fun close => observers.map fun observer => (observer, close)).count (observer, close) =
      observers.count observer * due.count close := by
  have row : ∀ other : CloseNotice, (observers.map fun observer => (observer, other)).count (observer, close) =
      if other = close then observers.count observer else 0 := by
    intro other
    split_ifs with same
    · subst same
      exact List.count_map_of_injective observers _ (fun _ _ equal => (Prod.mk.inj equal).1) observer
    · refine List.count_eq_zero.mpr fun member => ?_
      obtain ⟨_, _, equal⟩ := List.mem_map.mp member
      exact same (Prod.mk.inj equal).2
  induction due with
  | nil => simp
  | cons other rest ih =>
    rw [List.flatMap_cons, List.count_append, ih, row, List.count_cons]
    by_cases same : other = close <;> simp [same, Nat.mul_add, Nat.add_comm]

/-! ## The invariant -/

/-- Every observer that stays was told that the session opened. -/
def Heard (staying : List α) (log : List (SessionNotice α)) (session : Text) : Prop :=
  ∀ observer ∈ staying, .opened observer session ∈ log

omit [DecidableEq α] in
theorem Heard.append {staying : List α} {log : List (SessionNotice α)} {session : Text} (heard : Heard staying log session)
    (more : List (SessionNotice α)) : Heard staying (log ++ more) session :=
  fun observer stays => List.mem_append_left _ (heard observer stays)

/-- What a call in progress may tell: closes of sessions whose open was heard, and the open of a session
to those who did not hear it. -/
def NoticeTask.Orderly (staying : List α) (log : List (SessionNotice α)) : NoticeTask α → Prop
  | .telling session left => ∀ observer ∈ staying, observer ∈ left ∨ .opened observer session ∈ log
  | .flush => True
  | .taken due => ∀ close ∈ due, Heard staying log close.1
  | .closing left => ∀ entry ∈ left, Heard staying log entry.2.1

omit [DecidableEq α] in
theorem NoticeTask.Orderly.append {staying : List α} {log : List (SessionNotice α)} {task : NoticeTask α}
    (orderly : task.Orderly staying log) (more : List (SessionNotice α)) : task.Orderly staying (log ++ more) := by
  cases task with
  | telling session left => exact fun observer stays => (orderly observer stays).imp_right (List.mem_append_left _)
  | flush => trivial
  | taken due => exact fun close member => (orderly close member).append more
  | closing left => exact fun entry member => (orderly entry member).append more

/-- What holds in every state of every run. -/
structure NoticeState.Orderly (staying : List α) (state : NoticeState α) : Prop where
  opens : ∀ observer ∈ staying, ∀ session,
    state.log.count (.opened observer session) + state.owed (.opened observer session) = state.told.count session
  closes : ∀ observer ∈ staying, ∀ close, state.log.count (.closed observer close) + state.owed (.closed observer close) +
    state.notifier.closes.count close + state.notifier.deferred.count close = state.queued.count close
  toldOnce : state.told.Nodup
  queuedOnce : (state.queued.map Prod.fst).Nodup
  deferredQueued : ∀ close ∈ state.notifier.deferred, close ∈ state.queued
  waiting : ∀ close ∈ state.notifier.deferred, close.1 ∈ state.notifier.opening
  heard : ∀ session ∈ state.begun, session ∉ state.notifier.opening → Heard staying state.log session
  heardCloses : ∀ close ∈ state.notifier.closes, Heard staying state.log close.1
  tasks : ∀ task ∈ state.tasks, task.Orderly staying state.log
  telling : ∀ session ∈ state.told, session ∈ state.notifier.opening → ∃ left, .telling session left ∈ state.tasks
  toldBegun : ∀ session ∈ state.told, session ∈ state.begun
  flushed : state.notifier.closes ≠ [] → state.unflushed = true ∨ .flush ∈ state.tasks
  order : ∀ place observer close, state.log[place]? = some (.closed observer close) →
    Heard staying (state.log.take place) close.1

theorem NoticeState.orderly_initial (staying : List α) : NoticeState.Orderly staying {} := by
  constructor <;> simp [NoticeState.owed]

/-! ## Steps outside the calls -/

section

variable {staying : List α} {state next : NoticeState α}

private theorem orderly_beginOpen {session : Text} (orderly : state.Orderly staying) (fresh : session ∉ state.begun) :
    NoticeState.Orderly staying
      { state with notifier := state.notifier.beginOpen session, begun := session :: state.begun } where
  opens := orderly.opens
  closes := orderly.closes
  toldOnce := orderly.toldOnce
  queuedOnce := orderly.queuedOnce
  deferredQueued := orderly.deferredQueued
  waiting := fun close member => List.mem_insert_iff.mpr (.inr (orderly.waiting close member))
  heard := by
    intro other begun closed
    obtain ⟨differs, closed⟩ := not_or.mp (mt List.mem_insert_iff.mpr closed)
    exact orderly.heard other ((List.mem_cons.mp begun).resolve_left differs) closed
  heardCloses := orderly.heardCloses
  tasks := orderly.tasks
  telling := by
    intro other told opening
    rcases List.mem_insert_iff.mp opening with rfl | opening
    · exact absurd (orderly.toldBegun other told) fresh
    · exact orderly.telling other told opening
  toldBegun := fun other told => List.mem_cons_of_mem _ (orderly.toldBegun other told)
  flushed := orderly.flushed
  order := orderly.order

private theorem orderly_opened {session : Text} {observers : List α} (orderly : state.Orderly staying)
    (begun : session ∈ state.begun) (fresh : session ∉ state.told) (registered : Registered staying observers) :
    NoticeState.Orderly staying
      { state with tasks := state.tasks ++ [.telling session observers], told := session :: state.told } where
  opens := by
    intro observer stays other
    have before := orderly.opens observer stays other
    simp only [NoticeState.owed, List.map_append, List.map_singleton, List.sum_append, List.sum_singleton,
      NoticeTask.owes, List.count_cons, registered observer stays, beq_iff_eq] at before ⊢
    omega
  closes := by
    intro observer stays close
    have before := orderly.closes observer stays close
    simpa [NoticeState.owed, NoticeTask.owes] using before
  toldOnce := List.nodup_cons.mpr ⟨fresh, orderly.toldOnce⟩
  queuedOnce := orderly.queuedOnce
  deferredQueued := orderly.deferredQueued
  waiting := orderly.waiting
  heard := orderly.heard
  heardCloses := orderly.heardCloses
  tasks := by
    intro task member
    rcases List.mem_append.mp member with old | new
    · exact orderly.tasks task old
    · obtain rfl := List.mem_singleton.mp new
      intro observer stays
      exact .inl (List.count_pos_iff.mp (by rw [registered observer stays]; exact Nat.one_pos))
  telling := by
    intro other told opening
    rcases List.mem_cons.mp told with rfl | told
    · exact ⟨observers, List.mem_append_right _ List.mem_cons_self⟩
    · obtain ⟨left, member⟩ := orderly.telling other told opening
      exact ⟨left, List.mem_append_left _ member⟩
  toldBegun := by
    intro other told
    rcases List.mem_cons.mp told with rfl | told
    · exact begun
    · exact orderly.toldBegun other told
  flushed := fun some => (orderly.flushed some).imp_right (List.mem_append_left _)
  order := orderly.order

private theorem orderly_flush (orderly : state.Orderly staying) :
    NoticeState.Orderly staying { state with tasks := state.tasks ++ [.flush], unflushed := false } where
  opens := by
    intro observer stays session
    simpa [NoticeState.owed, NoticeTask.owes] using orderly.opens observer stays session
  closes := by
    intro observer stays close
    simpa [NoticeState.owed, NoticeTask.owes] using orderly.closes observer stays close
  toldOnce := orderly.toldOnce
  queuedOnce := orderly.queuedOnce
  deferredQueued := orderly.deferredQueued
  waiting := orderly.waiting
  heard := orderly.heard
  heardCloses := orderly.heardCloses
  tasks := by
    intro task member
    rcases List.mem_append.mp member with old | new
    · exact orderly.tasks task old
    · obtain rfl := List.mem_singleton.mp new
      trivial
  telling := by
    intro other told opening
    obtain ⟨left, member⟩ := orderly.telling other told opening
    exact ⟨left, List.mem_append_left _ member⟩
  toldBegun := orderly.toldBegun
  flushed := fun _ => .inr (List.mem_append_right _ List.mem_cons_self)
  order := orderly.order

private theorem orderly_queueClose {close : CloseNotice} (orderly : state.Orderly staying)
    (begun : close.1 ∈ state.begun) (fresh : close.1 ∉ state.queued.map Prod.fst) :
    NoticeState.Orderly staying
      { state with
        notifier := state.notifier.queueClose close
        queued := close :: state.queued
        unflushed := true } := by
  have kept : state.notifier.deferred.filter (·.1 ≠ close.1) = state.notifier.deferred := by
    refine List.filter_eq_self.mpr fun other member => ?_
    simp only [ne_eq, decide_not, Bool.not_eq_true', decide_eq_false_iff_not]
    intro same
    exact fresh (same ▸ List.mem_map_of_mem (orderly.deferredQueued other member))
  have once : ((close :: state.queued).map Prod.fst).Nodup := List.nodup_cons.mpr ⟨fresh, orderly.queuedOnce⟩
  by_cases opening : close.1 ∈ state.notifier.opening
  · have queued : state.notifier.queueClose close =
        { state.notifier with deferred := close :: state.notifier.deferred } := by
      rw [SessionNotifier.queueClose, if_pos opening, kept]
    rw [queued]
    exact
      { opens := orderly.opens
        closes := by
          intro observer stays other
          have before := orderly.closes observer stays other
          simp only [NoticeState.owed, List.count_cons] at before ⊢
          omega
        toldOnce := orderly.toldOnce
        queuedOnce := once
        deferredQueued := by
          intro other member
          rcases List.mem_cons.mp member with rfl | member
          · exact List.mem_cons_self
          · exact List.mem_cons_of_mem _ (orderly.deferredQueued other member)
        waiting := by
          intro other member
          rcases List.mem_cons.mp member with rfl | member
          · exact opening
          · exact orderly.waiting other member
        heard := orderly.heard
        heardCloses := orderly.heardCloses
        tasks := orderly.tasks
        telling := orderly.telling
        toldBegun := orderly.toldBegun
        flushed := fun _ => .inl rfl
        order := orderly.order }
  · have queued : state.notifier.queueClose close = { state.notifier with closes := state.notifier.closes ++ [close] } := by
      rw [SessionNotifier.queueClose, if_neg opening]
    rw [queued]
    exact
      { opens := orderly.opens
        closes := by
          intro observer stays other
          have before := orderly.closes observer stays other
          simp only [NoticeState.owed, List.count_cons, List.count_append, List.count_nil] at before ⊢
          omega
        toldOnce := orderly.toldOnce
        queuedOnce := once
        deferredQueued := fun other member => List.mem_cons_of_mem _ (orderly.deferredQueued other member)
        waiting := orderly.waiting
        heard := orderly.heard
        heardCloses := by
          intro other member
          rcases List.mem_append.mp member with old | new
          · exact orderly.heardCloses other old
          · rw [List.mem_singleton.mp new]
            exact orderly.heard close.1 begun opening
        tasks := orderly.tasks
        telling := orderly.telling
        toldBegun := orderly.toldBegun
        flushed := fun _ => .inl rfl
        order := orderly.order }

/-! ## Steps of a call -/

omit [DecidableEq α] in
private theorem tasks_set {index : ℕ} {after : NoticeTask α} {told : List (SessionNotice α)}
    (tasks : ∀ task ∈ state.tasks, task.Orderly staying state.log) (orderly : after.Orderly staying (state.log ++ told)) :
    ∀ task ∈ state.tasks.set index after, task.Orderly staying (state.log ++ told) := by
  intro task member
  rcases List.mem_or_eq_of_mem_set member with old | rfl
  · exact (tasks task old).append told
  · exact orderly

private theorem owed_set {index : ℕ} {before after : NoticeTask α} (found : state.tasks[index]? = some before)
    (notice : SessionNotice α) :
    NoticeState.owed { state with tasks := state.tasks.set index after } notice + before.owes notice =
      state.owed notice + after.owes notice :=
  sum_map_set (NoticeTask.owes notice) found after

omit [DecidableEq α] in
private theorem order_append {told : List (SessionNotice α)} (single : told.length ≤ 1)
    (order : ∀ place observer close, state.log[place]? = some (.closed observer close) →
      Heard staying (state.log.take place) close.1)
    (new : ∀ observer close, told = [.closed observer close] → Heard staying state.log close.1) :
    ∀ place observer close, (state.log ++ told)[place]? = some (.closed observer close) →
      Heard staying ((state.log ++ told).take place) close.1 := by
  intro place observer close found
  by_cases old : place < state.log.length
  · rw [List.getElem?_append_left old] at found
    rw [List.take_append_of_le_length old.le]
    exact order place observer close found
  · rw [List.getElem?_append_right (by omega)] at found
    have last : place - state.log.length = 0 := by
      have := (List.getElem?_eq_some_iff.mp found).1
      omega
    rw [last] at found
    have whole : told = [.closed observer close] := by
      match told, single, found with
      | [notice], _, found => simpa using found
    rw [show place = state.log.length by omega, List.take_left]
    exact new observer close whole

private theorem orderly_tell {index : ℕ} {session : Text} {observer : α} {left : List α} (orderly : state.Orderly staying)
    (found : state.tasks[index]? = some (.telling session (observer :: left))) :
    NoticeState.Orderly staying
      { state with
        tasks := state.tasks.set index (.telling session left)
        log := state.log ++ [.opened observer session] } := by
  have task := orderly.tasks _ (List.mem_of_getElem? found)
  exact
    { opens := by
        intro other stays which
        have before := orderly.opens other stays which
        have moved := @owed_set α _ state index _ (.telling session left) found (.opened other which)
        simp only [NoticeState.owed, NoticeTask.owes, List.count_cons, List.count_append, List.count_nil] at before moved ⊢
        by_cases same : session = which
        · subst same
          by_cases hears : observer = other
          · subst hears
            simp at before moved ⊢
            omega
          · simp [hears] at before moved ⊢
            omega
        · simp [same] at before moved ⊢
          omega
      closes := by
        intro other stays close
        have before := orderly.closes other stays close
        have moved := @owed_set α _ state index _ (.telling session left) found (.closed other close)
        simp only [NoticeState.owed, NoticeTask.owes, List.count_append, Nat.add_zero] at before moved ⊢
        simp at before moved ⊢
        omega
      toldOnce := orderly.toldOnce
      queuedOnce := orderly.queuedOnce
      deferredQueued := orderly.deferredQueued
      waiting := orderly.waiting
      heard := fun other begun closed => (orderly.heard other begun closed).append _
      heardCloses := fun close member => (orderly.heardCloses close member).append _
      tasks := by
        refine tasks_set orderly.tasks fun other stays => ?_
        rcases task other stays with waits | heard
        · rcases List.mem_cons.mp waits with rfl | later
          · exact .inr (List.mem_append_right _ List.mem_cons_self)
          · exact .inl later
        · exact .inr (List.mem_append_left _ heard)
      telling := by
        intro other told opening
        obtain ⟨waits, member⟩ := orderly.telling other told opening
        rcases mem_set_of_mem found member (.telling session left) with stays | same
        · exact ⟨waits, stays⟩
        · cases same
          exact ⟨left, mem_set_new found _⟩
      toldBegun := orderly.toldBegun
      flushed := by
        intro some
        refine (orderly.flushed some).imp_right fun member => ?_
        exact (mem_set_of_mem found member _).resolve_right nofun
      order := order_append (by simp) orderly.order (by simp) }

private theorem orderly_openTold {index : ℕ} {session : Text} (orderly : state.Orderly staying)
    (found : state.tasks[index]? = some (.telling session [])) :
    NoticeState.Orderly staying
      { state with notifier := state.notifier.openTold session, tasks := state.tasks.set index .flush } := by
  have told : Heard staying state.log session := by
    intro observer stays
    exact (orderly.tasks _ (List.mem_of_getElem? found) observer stays).resolve_left nofun
  have split : ∀ close : CloseNotice, (state.notifier.deferred.filter (·.1 ≠ session)).count close +
      (state.notifier.deferred.filter (·.1 = session)).count close = state.notifier.deferred.count close := by
    intro close
    by_cases same : close.1 = session
    · have gone : (state.notifier.deferred.filter (·.1 ≠ session)).count close = 0 :=
        List.count_eq_zero.mpr (by simp [same])
      have kept : (state.notifier.deferred.filter (·.1 = session)).count close = state.notifier.deferred.count close :=
        List.count_filter (by simp [same])
      omega
    · have gone : (state.notifier.deferred.filter (·.1 = session)).count close = 0 :=
        List.count_eq_zero.mpr (by simp [same])
      have kept : (state.notifier.deferred.filter (·.1 ≠ session)).count close = state.notifier.deferred.count close :=
        List.count_filter (by simp [same])
      omega
  exact
    { opens := by
        intro other stays which
        have before := orderly.opens other stays which
        have moved := @owed_set α _ state index _ .flush found (.opened other which)
        simp only [NoticeState.owed, NoticeTask.owes, List.count_nil, ite_self] at before moved ⊢
        omega
      closes := by
        intro other stays close
        have before := orderly.closes other stays close
        have moved := @owed_set α _ state index _ .flush found (.closed other close)
        have same := split close
        simp only [NoticeState.owed, NoticeTask.owes, SessionNotifier.openTold, List.count_append] at before moved ⊢
        omega
      toldOnce := orderly.toldOnce
      queuedOnce := orderly.queuedOnce
      deferredQueued := fun close member => orderly.deferredQueued close (List.mem_filter.mp member).1
      waiting := by
        intro close member
        obtain ⟨member, differs⟩ := List.mem_filter.mp member
        exact List.mem_filter.mpr ⟨orderly.waiting close member, differs⟩
      heard := by
        intro other begun closed
        by_cases same : other = session
        · subst same
          exact told
        · refine orderly.heard other begun fun opening => closed ?_
          exact List.mem_filter.mpr ⟨opening, by simpa using same⟩
      heardCloses := by
        intro close member
        rcases List.mem_append.mp member with old | waited
        · exact orderly.heardCloses close old
        · have same := (List.mem_filter.mp waited).2
          simp only [decide_eq_true_eq] at same
          rw [same]
          exact told
      tasks := by
        intro task member
        rcases List.mem_or_eq_of_mem_set member with old | rfl
        · exact orderly.tasks task old
        · trivial
      telling := by
        intro other isTold opening
        obtain ⟨opening, differs⟩ := List.mem_filter.mp opening
        obtain ⟨waits, member⟩ := orderly.telling other isTold opening
        rcases mem_set_of_mem found member .flush with stays | same
        · exact ⟨waits, stays⟩
        · cases same
          simp at differs
      toldBegun := orderly.toldBegun
      flushed := fun _ => .inr (mem_set_new found _)
      order := orderly.order }

private theorem orderly_swap {index : ℕ} (orderly : state.Orderly staying) (found : state.tasks[index]? = some .flush) :
    NoticeState.Orderly staying
      { state with
        notifier := state.notifier.swapCloses
        tasks := state.tasks.set index (.taken state.notifier.closes) } where
  opens := by
    intro other stays which
    have before := orderly.opens other stays which
    have moved := @owed_set α _ state index _ (.taken state.notifier.closes) found (.opened other which)
    simp only [NoticeState.owed, NoticeTask.owes] at before moved ⊢
    omega
  closes := by
    intro other stays close
    have before := orderly.closes other stays close
    have moved := @owed_set α _ state index _ (.taken state.notifier.closes) found (.closed other close)
    simp only [NoticeState.owed, NoticeTask.owes, SessionNotifier.swapCloses, List.count_nil] at before moved ⊢
    omega
  toldOnce := orderly.toldOnce
  queuedOnce := orderly.queuedOnce
  deferredQueued := orderly.deferredQueued
  waiting := orderly.waiting
  heard := orderly.heard
  heardCloses := fun _ member => nomatch member
  tasks := by
    intro task member
    rcases List.mem_or_eq_of_mem_set member with old | rfl
    · exact orderly.tasks task old
    · exact orderly.heardCloses
  telling := by
    intro other told opening
    obtain ⟨waits, member⟩ := orderly.telling other told opening
    exact ⟨waits, (mem_set_of_mem found member _).resolve_right nofun⟩
  toldBegun := orderly.toldBegun
  flushed := fun some => absurd rfl some
  order := orderly.order

private theorem orderly_observers {index : ℕ} {due : List CloseNotice} {observers : List α} (orderly : state.Orderly staying)
    (found : state.tasks[index]? = some (.taken due)) (registered : Registered staying observers) :
    NoticeState.Orderly staying
      { state with
        tasks := state.tasks.set index
          (.closing (due.flatMap fun close => observers.map fun observer => (observer, close))) } where
  opens := by
    intro other stays which
    have before := orderly.opens other stays which
    have moved := @owed_set α _ state index _
      (.closing (due.flatMap fun close => observers.map fun observer => (observer, close))) found (.opened other which)
    simp only [NoticeState.owed, NoticeTask.owes] at before moved ⊢
    omega
  closes := by
    intro other stays close
    have before := orderly.closes other stays close
    have moved := @owed_set α _ state index _
      (.closing (due.flatMap fun close => observers.map fun observer => (observer, close))) found (.closed other close)
    simp only [NoticeState.owed, NoticeTask.owes, count_flatMap_pairs, registered other stays] at before moved ⊢
    omega
  toldOnce := orderly.toldOnce
  queuedOnce := orderly.queuedOnce
  deferredQueued := orderly.deferredQueued
  waiting := orderly.waiting
  heard := orderly.heard
  heardCloses := orderly.heardCloses
  tasks := by
    intro task member
    rcases List.mem_or_eq_of_mem_set member with old | rfl
    · exact orderly.tasks task old
    · intro entry inside
      obtain ⟨close, isDue, inside⟩ := List.mem_flatMap.mp inside
      obtain ⟨_, _, rfl⟩ := List.mem_map.mp inside
      exact orderly.tasks _ (List.mem_of_getElem? found) close isDue
  telling := by
    intro other told opening
    obtain ⟨waits, member⟩ := orderly.telling other told opening
    exact ⟨waits, (mem_set_of_mem found member _).resolve_right nofun⟩
  toldBegun := orderly.toldBegun
  flushed := fun some => (orderly.flushed some).imp_right fun member =>
    (mem_set_of_mem found member _).resolve_right nofun
  order := orderly.order

private theorem orderly_close {index : ℕ} {observer : α} {close : CloseNotice} {left : List (α × CloseNotice)}
    (orderly : state.Orderly staying) (found : state.tasks[index]? = some (.closing ((observer, close) :: left))) :
    NoticeState.Orderly staying
      { state with
        tasks := state.tasks.set index (.closing left)
        log := state.log ++ [.closed observer close] } := by
  have task := orderly.tasks _ (List.mem_of_getElem? found)
  exact
    { opens := by
        intro other stays which
        have before := orderly.opens other stays which
        have moved := @owed_set α _ state index _ (.closing left) found (.opened other which)
        simp only [NoticeState.owed, NoticeTask.owes, List.count_append] at before moved ⊢
        simp at before moved ⊢
        omega
      closes := by
        intro other stays which
        have before := orderly.closes other stays which
        have moved := @owed_set α _ state index _ (.closing left) found (.closed other which)
        simp only [NoticeState.owed, NoticeTask.owes, List.count_append, List.count_cons, List.count_nil] at before moved ⊢
        by_cases same : (observer, close) = (other, which)
        · cases same
          simp at before moved ⊢
          omega
        · have differs : ¬ SessionNotice.closed observer close = .closed other which := by
            rintro ⟨⟩
            exact same rfl
          simp [same, differs] at before moved ⊢
          omega
      toldOnce := orderly.toldOnce
      queuedOnce := orderly.queuedOnce
      deferredQueued := orderly.deferredQueued
      waiting := orderly.waiting
      heard := fun other begun closed => (orderly.heard other begun closed).append _
      heardCloses := fun other member => (orderly.heardCloses other member).append _
      tasks := tasks_set orderly.tasks fun entry member => (task entry (List.mem_cons_of_mem _ member)).append _
      telling := by
        intro other told opening
        obtain ⟨waits, member⟩ := orderly.telling other told opening
        exact ⟨waits, (mem_set_of_mem found member _).resolve_right nofun⟩
      toldBegun := orderly.toldBegun
      flushed := fun some => (orderly.flushed some).imp_right fun member =>
        (mem_set_of_mem found member _).resolve_right nofun
      order := by
        refine order_append (by simp) orderly.order fun other which same => ?_
        cases same
        exact task (observer, close) List.mem_cons_self }

/-- Every step keeps what holds in every state. -/
theorem NoticeState.Orderly.step {event : NoticeEvent α} (orderly : state.Orderly staying)
    (stepped : state.step staying event = some next) : next.Orderly staying := by
  cases event with
  | beginOpen session =>
    simp only [NoticeState.step] at stepped
    split_ifs at stepped with begun
    cases stepped
    exact orderly_beginOpen orderly begun
  | opened session observers =>
    simp only [NoticeState.step] at stepped
    split_ifs at stepped with allowed
    cases stepped
    exact orderly_opened orderly allowed.1 allowed.2.1 allowed.2.2
  | queueClose close =>
    simp only [NoticeState.step] at stepped
    split_ifs at stepped with allowed
    cases stepped
    exact orderly_queueClose orderly allowed.1 allowed.2
  | flush =>
    cases stepped
    exact orderly_flush orderly
  | advance index observers =>
    simp only [NoticeState.step] at stepped
    split at stepped
    · cases stepped
    · rename_i task found
      split_ifs at stepped with stuck
      obtain ⟨running, registered⟩ := not_or.mp stuck
      cases stepped
      match task, found, running with
      | .telling session (observer :: left), found, _ => exact orderly_tell orderly found
      | .telling session [], found, _ => simpa [NoticeTask.next] using orderly_openTold orderly found
      | .flush, found, _ => simpa [NoticeTask.next] using orderly_swap orderly found
      | .taken due, found, _ =>
        simpa [NoticeTask.next] using orderly_observers orderly found (not_not.mp registered)
      | .closing ((observer, close) :: left), found, _ => exact orderly_close orderly found
      | .closing [], found, running => exact absurd rfl running

theorem NoticeState.orderly_run {events : List (NoticeEvent α)} {last : NoticeState α}
    (ran : Runs.run (NoticeState.step staying) {} events = some last) : last.Orderly staying :=
  Runs.run_keeps (NoticeState.step staying) (fun _ _ => True) (fun orderly _ stepped => orderly.step stepped)
    (NoticeState.orderly_initial staying) (Runs.along_true _ _ _) ran

/-- In every run, an observer that stays registered hears of each session's open and of each queued close
at most once, and of nothing else; every observer that stays hears of the open before anyone hears of the
close; and once every call returned and a flush followed the last queued close, no close of a session
whose open was told is deferred and each was heard of exactly once. -/
theorem notices_once_in_order (staying : List α) (events : List (NoticeEvent α)) (last : NoticeState α)
    (ran : Runs.run (NoticeState.step staying) {} events = some last) :
    (∀ place observer close, last.log[place]? = some (.closed observer close) →
      ∀ other ∈ staying, .opened other close.1 ∈ last.log.take place) ∧
    (∀ observer ∈ staying, ∀ close, last.log.count (.closed observer close) ≤ 1 ∧
      (.closed observer close ∈ last.log → close ∈ last.queued)) ∧
    (∀ observer ∈ staying, ∀ session, last.log.count (.opened observer session) ≤ 1) ∧
    ((∀ task ∈ last.tasks, task.returned = true) → last.unflushed = false →
      ∀ close ∈ last.queued, close.1 ∈ last.told →
        close ∉ last.notifier.deferred ∧ ∀ observer ∈ staying, last.log.count (.closed observer close) = 1) := by
  have orderly := NoticeState.orderly_run ran
  have queuedOnce : ∀ close, last.queued.count close ≤ 1 :=
    fun close => List.nodup_iff_count_le_one.mp orderly.queuedOnce.of_map close
  refine ⟨orderly.order, ?_, ?_, ?_⟩
  · intro observer stays close
    have counted := orderly.closes observer stays close
    have once := queuedOnce close
    refine ⟨by omega, fun heard => ?_⟩
    have positive := List.count_pos_iff.mpr heard
    exact List.count_pos_iff.mp (by omega)
  · intro observer stays session
    have counted := orderly.opens observer stays session
    have once := List.nodup_iff_count_le_one.mp orderly.toldOnce session
    omega
  · intro returned flushed close queued told
    have noTask : ∀ task ∈ last.tasks, task = .closing [] := by
      intro task member
      match task, returned task member with
      | .closing [], _ => rfl
    have closed : close.1 ∉ last.notifier.opening := by
      intro opening
      obtain ⟨left, member⟩ := orderly.telling close.1 told opening
      cases noTask _ member
    have notDeferred : close ∉ last.notifier.deferred := fun member => closed (orderly.waiting close member)
    have emptied : last.notifier.closes = [] := by
      by_contra some
      rcases orderly.flushed some with unflushed | member
      · rw [flushed] at unflushed
        cases unflushed
      · cases noTask _ member
    refine ⟨notDeferred, fun observer stays => ?_⟩
    have counted := orderly.closes observer stays close
    have nothing : last.owed (.closed observer close) = 0 := by
      refine List.sum_eq_zero_iff_forall_eq_nat.mpr fun count member => ?_
      obtain ⟨task, isTask, rfl⟩ := List.mem_map.mp member
      rw [noTask task isTask]
      rfl
    have given := List.count_pos_iff.mpr queued
    have once := queuedOnce close
    have gone := List.count_eq_zero.mpr notDeferred
    rw [emptied, List.count_nil] at counted
    omega

end

/-- A session that ends while its open is being told, with one observer. -/
theorem notices_once_in_order_late : ∃ last : NoticeState ℕ,
    Runs.run (NoticeState.step [7]) {} [.beginOpen "s".toList, .opened "s".toList [7], .queueClose ("s".toList, "end".toList),
      .flush, .advance 1 [7], .advance 0 [7], .advance 0 [7], .advance 0 [7], .advance 0 [7], .advance 0 [7],
      .advance 1 [7]] = some last ∧
      last.log = [.opened 7 "s".toList, .closed 7 ("s".toList, "end".toList)] ∧
      last.log.count (.closed 7 ("s".toList, "end".toList)) = 1 := by
  refine ⟨_, rfl, rfl, ?_⟩
  have facts := notices_once_in_order [7] _ _ (rfl : Runs.run (NoticeState.step [7]) {} [.beginOpen "s".toList,
    .opened "s".toList [7], .queueClose ("s".toList, "end".toList), .flush, .advance 1 [7], .advance 0 [7],
    .advance 0 [7], .advance 0 [7], .advance 0 [7], .advance 0 [7], .advance 1 [7]] = some _)
  exact (facts.2.2.2 (by decide) rfl _ (by decide) (by decide)).2 7 (by decide)

end DuckAcl
