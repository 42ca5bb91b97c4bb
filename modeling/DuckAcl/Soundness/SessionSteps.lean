import DuckAcl.Model.Sessions

/-! # What one session operation does

Every removal of a session is a call of `sessionClosed` while the session and the bindings are still
there, followed by its erasure. Here the sessions an operation removes are its departures, and one
statement says for all operations what they leave: the seats of the other sessions and of the one
seated, one close for each departure, and the external ids whose view-as session left.
-/

namespace DuckAcl.SessionStore

variable {P : Type}

/-- A session that leaves the map, and how it ended. -/
structure Departure (P : Type) where
  handle : Text
  session : Session P
  how : Text

/-- The entries an operation removes, in the order in which it removes them. -/
def leaving (how : Text) : Option (Text × Session P) → List (Departure P)
  | some entry => [⟨entry.1, entry.2, how⟩]
  | none => []

/-- The entry of a handle. -/
def entryOf (store : SessionStore P) (handle : Text) : Option (Text × Session P) :=
  (store.sessions.find handle).map fun session => (handle, session)

/-- The session died: its token expired, or nobody used it. -/
def expired (reading : Reading) (session : Session P) : Bool :=
  reading.expBinds && decide (0 < session.expiresAt) && decide (session.expiresAt + reading.skew < reading.now)

def stale (reading : Reading) (session : Session P) : Bool :=
  decide (0 < reading.idle) && decide (session.lastUsed + reading.idle < reading.now)

def dead (reading : Reading) (session : Session P) : Bool := expired reading session || stale reading session

/-- The departure of a dead session. -/
def deadDeparture (reading : Reading) (entry : Text × Session P) : Option (Departure P) :=
  if dead reading entry.2 then
    some ⟨entry.1, entry.2, if expired reading entry.2 then "expired".toList else "idle".toList⟩
  else none

/-- The reading of a sweep that an operation runs. -/
def sweepOf (store : SessionStore P) : SessionCall P → Option Reading
  | .openBody request => if store.openSweeps request then some request.reading else none
  | .sweep reading => some reading
  | _ => none

def departures (store : SessionStore P) : SessionCall P → List (Departure P)
  | .openBody request =>
    if store.openSweeps request then store.sessions.list.filterMap (deadDeparture request.reading) else []
  | .endBound externalId how _ => leaving how ((store.sessionBindings.find externalId).bind store.entryOf)
  | .principal handle reading => ((store.entryOf handle).bind (deadDeparture reading)).toList
  | .touch _ _ => []
  | .sql _ _ _ _ => []
  | .sweep reading => store.sessions.list.filterMap (deadDeparture reading)
  | .kill id _ => leaving "killed".toList (store.sessions.list.find? fun entry => decide (entry.2.id = id))
  | .close handle _ => leaving "client".toList (store.entryOf handle)
  | .bind externalId handle _ =>
    leaving "client".toList
      (((store.sessionBindings.find externalId).filter fun previous => decide (previous ≠ handle)).bind store.entryOf)
  | .closeAll _ => store.sessions.list.map fun entry => ⟨entry.1, entry.2, "door_stopped".toList⟩
  | .viewAs _ _ => []
  | .setTrace _ _ _ => []

/-- The clock an operation read. -/
def clockOf : SessionCall P → Int
  | .openBody request => request.reading.now
  | .endBound _ _ now => now
  | .principal _ reading => reading.now
  | .touch _ reading => reading.now
  | .sql _ _ _ reading => reading.now
  | .sweep reading => reading.now
  | .kill _ now => now
  | .close _ now => now
  | .bind _ _ now => now
  | .closeAll now => now
  | .viewAs _ _ => 0
  | .setTrace _ _ _ => 0

/-- The session an operation seats. -/
def seated (store : SessionStore P) : SessionCall P → Option (Text × Session P)
  | .openBody request =>
    match (store.sweptForOpen request).openRefusal request with
    | some _ => none
    | none => some (request.handle, request.session)
  | _ => none

/-- What the caps count of an entry: whose it is and which group pays for it. -/
def seat (entry : Text × Session P) : Text × Text := (entry.1, entry.2.limits.charged)

def seats (store : SessionStore P) : List (Text × Text) := store.sessions.list.map seat

def openedHandle? : SessionEvent P → Option Text
  | .opened handle _ _ _ _ => some handle
  | _ => none

/-- A close event's handle, and the id and the end that go to the queue. -/
def closing? : SessionEvent P → Option (Text × Text × Text)
  | .closed handle _ _ id _ how _ => some (handle, id, how)
  | _ => none

def openedHandles (events : List (SessionEvent P)) : List Text := events.filterMap openedHandle?

def closings (events : List (SessionEvent P)) : List (Text × Text × Text) := events.filterMap closing?

def closedHandles (events : List (SessionEvent P)) : List Text := (closings events).map Prod.fst

def Departure.closing (departure : Departure P) : Text × Text × Text :=
  (departure.handle, departure.session.id, departure.how)

/-! ## Closing -/

/-- Whether an external id is bound to a departing view-as session. -/
def Viewed (bindings : Entries Text Text) (leavers : List (Departure P)) (externalId : Text) : Prop :=
  ∃ departure ∈ leavers, departure.session.viewAs ≠ [] ∧ bindings.find externalId = some departure.handle

theorem find_noteViewAsEnded (bindings : List (Text × Text)) (handle externalId : Text) (now : Int)
    (ended : Entries Text Int) :
    (noteViewAsEnded bindings handle now ended).find externalId =
      if (externalId, handle) ∈ bindings then some now else ended.find externalId := by
  induction bindings generalizing ended with
  | nil => simp [noteViewAsEnded]
  | cons binding rest ih =>
    rcases binding with ⟨name, bound⟩
    have unrolled : noteViewAsEnded ((name, bound) :: rest) handle now ended =
        noteViewAsEnded rest handle now (if bound = handle then ended.put name now else ended) := rfl
    rw [unrolled, ih]
    by_cases later : (externalId, handle) ∈ rest
    · rw [if_pos later, if_pos (List.mem_cons_of_mem _ later)]
    · rw [if_neg later]
      simp only [List.mem_cons, later, or_false, Prod.mk.injEq]
      by_cases here : bound = handle
      · rw [if_pos here, Entries.find_put]
        simp only [here, and_true]
      · rw [if_neg here, if_neg]
        exact fun same => here same.2.symm

/-- Close sessions one after another, with nothing erased yet. -/
def closeEach (store : SessionStore P) (leavers : List (Departure P)) (now : Int) : SessionStore P :=
  leavers.foldl (fun closed departure => closed.sessionClosed departure.handle departure.session departure.how now) store

/-- What closing sessions leaves, the sessions themselves being stored still. -/
structure Closed (store : SessionStore P) (leavers : List (Departure P)) (now : Int) (next : SessionStore P) : Prop where
  bindings : next.sessionBindings = store.sessionBindings
  swept : next.lastSweep = store.lastSweep
  queued : next.queuedCloses = store.queuedCloses ++ leavers.map fun departure => departure.closing.2
  closed : closings next.events = closings store.events ++ leavers.map Departure.closing
  opened : openedHandles next.events = openedHandles store.events
  viewed : ∀ externalId, Viewed store.sessionBindings leavers externalId →
    next.viewAsEnded.find externalId = some now
  kept : ∀ externalId, ¬ Viewed store.sessionBindings leavers externalId →
    next.viewAsEnded.find externalId = store.viewAsEnded.find externalId

theorem closeEach_sessions (store : SessionStore P) (leavers : List (Departure P)) (now : Int) :
    (store.closeEach leavers now).sessions = store.sessions := by
  induction leavers generalizing store with
  | nil => rfl
  | cons departure rest ih => exact ih _

theorem closeEach_closed (store : SessionStore P) (leavers : List (Departure P)) (now : Int)
    (stored : ∀ departure ∈ leavers, store.sessions.has departure.handle = true) :
    Closed store leavers now (store.closeEach leavers now) := by
  induction leavers generalizing store with
  | nil =>
    refine ⟨rfl, rfl, (List.append_nil _).symm, (List.append_nil _).symm, rfl, ?_, fun _ _ => rfl⟩
    rintro externalId ⟨departure, absent, -⟩
    cases absent
  | cons departure rest ih =>
    have here := stored departure List.mem_cons_self
    have next := ih (store.sessionClosed departure.handle departure.session departure.how now)
      fun other member => stored other (List.mem_cons_of_mem _ member)
    refine ⟨next.bindings, next.swept, ?_, ?_, ?_, ?_, ?_⟩
    · exact next.queued.trans (List.append_assoc _ _ _)
    · refine next.closed.trans ?_
      simp only [closings, sessionClosed, List.filterMap_append, List.map_cons, List.append_assoc]
      rfl
    · refine next.opened.trans ?_
      simp only [openedHandles, sessionClosed, List.filterMap_append]
      exact List.append_nil _
    · rintro externalId ⟨leaver, member, viewing, bound⟩
      by_cases later : Viewed store.sessionBindings rest externalId
      · exact next.viewed externalId later
      · refine (next.kept externalId later).trans ?_
        rcases List.mem_cons.mp member with rfl | member
        · simp only [sessionClosed, ne_eq, viewing, not_false_eq_true, here, and_self, ↓reduceIte,
            find_noteViewAsEnded, Entries.find_eq_some.mp bound]
        · exact (later ⟨leaver, member, viewing, bound⟩).elim
    · intro externalId free
      have later : ¬ Viewed store.sessionBindings rest externalId :=
        fun left => left.elim fun leaver of => free ⟨leaver, List.mem_cons_of_mem _ of.1, of.2⟩
      refine (next.kept externalId later).trans ?_
      simp only [sessionClosed]
      split
      · next viewing =>
        rw [find_noteViewAsEnded, if_neg]
        exact fun bound => free ⟨departure, List.mem_cons_self, viewing.1, Entries.find_eq_some.mpr bound⟩
      · rfl

/-- Close each session and erase it before the next one. -/
def leaveEach (store : SessionStore P) (leavers : List (Departure P)) (now : Int) : SessionStore P :=
  leavers.foldl (fun left departure =>
    (left.sessionClosed departure.handle departure.session departure.how now).eraseSession departure.handle) store

private theorem sessionClosed_eraseSession (store : SessionStore P) {handle other : Text} (apart : other ≠ handle)
    (session : Session P) (how : Text) (now : Int) :
    (store.eraseSession handle).sessionClosed other session how now =
      (store.sessionClosed other session how now).eraseSession handle := by
  have same : (store.sessions.drop handle).has other = store.sessions.has other := by
    rw [Entries.has, Entries.find_drop, if_neg apart, Entries.has]
  simp only [sessionClosed, eraseSession, same]

private theorem closeEach_eraseSession (store : SessionStore P) {handle : Text} (leavers : List (Departure P))
    (apart : ∀ departure ∈ leavers, departure.handle ≠ handle) (now : Int) :
    (store.eraseSession handle).closeEach leavers now = (store.closeEach leavers now).eraseSession handle := by
  induction leavers generalizing store with
  | nil => rfl
  | cons departure rest ih =>
    have moved := sessionClosed_eraseSession store (apart departure List.mem_cons_self) departure.session
      departure.how now
    simp only [closeEach, List.foldl_cons] at ih ⊢
    rw [moved]
    exact ih _ fun other member => apart other (List.mem_cons_of_mem _ member)

/-- A handle that departs. -/
def departs (leavers : List (Departure P)) (handle : Text) : Bool :=
  leavers.any fun departure => decide (departure.handle = handle)

theorem departs_iff {leavers : List (Departure P)} {handle : Text} :
    departs leavers handle = true ↔ handle ∈ leavers.map Departure.handle := by
  simp only [departs, List.any_eq_true, decide_eq_true_eq, List.mem_map]

theorem leaveEach_eq (store : SessionStore P) (leavers : List (Departure P)) (now : Int)
    (apart : (leavers.map Departure.handle).Nodup) :
    store.leaveEach leavers now =
      { store.closeEach leavers now with sessions := store.sessions.keep fun entry => !departs leavers entry.1 } := by
  induction leavers generalizing store with
  | nil =>
    rcases store with ⟨⟨list, distinct⟩, _, _, _, _, _⟩
    simp only [leaveEach, List.foldl_nil, closeEach, departs, List.any_nil, Bool.not_false, Entries.keep,
      List.filter_true]
  | cons departure rest ih =>
    obtain ⟨fresh, apart⟩ := List.nodup_cons.mp apart
    have others : ∀ other ∈ rest, other.handle ≠ departure.handle :=
      fun other member same => fresh (List.mem_map.mpr ⟨other, member, same⟩)
    have unrolled : store.leaveEach (departure :: rest) now =
        ((store.sessionClosed departure.handle departure.session departure.how now).eraseSession
          departure.handle).leaveEach rest now := rfl
    rw [unrolled, ih _ apart, closeEach_eraseSession _ rest others]
    simp only [eraseSession, Entries.drop, Entries.keep, sessionClosed, List.filter_filter]
    have test : (fun entry : Text × Session P => !departs rest entry.1 && decide (entry.1 ≠ departure.handle)) =
        fun entry => !departs (departure :: rest) entry.1 := by
      funext entry
      simp only [departs, List.any_cons, Bool.not_or, ne_eq, decide_not, Bool.and_comm, eq_comm]
    simp only [test]
    rfl

/-! ## Departures -/

theorem entryOf_eq_some {store : SessionStore P} {handle : Text} {entry : Text × Session P} :
    store.entryOf handle = some entry ↔ entry.1 = handle ∧ entry ∈ store.sessions.list := by
  rcases entry with ⟨name, session⟩
  simp only [entryOf, Option.map_eq_some_iff, Prod.mk.injEq]
  constructor
  · rintro ⟨held, found, rfl, rfl⟩
    exact ⟨rfl, Entries.find_eq_some.mp found⟩
  · rintro ⟨rfl, member⟩
    exact ⟨session, Entries.find_eq_some.mpr member, rfl, rfl⟩

/-- Departures of stored sessions, each one once. -/
structure Leavers (store : SessionStore P) (leavers : List (Departure P)) : Prop where
  distinct : (leavers.map Departure.handle).Nodup
  stored : ∀ departure ∈ leavers, (departure.handle, departure.session) ∈ store.sessions.list

theorem Leavers.has {store : SessionStore P} {leavers : List (Departure P)} (leaving : Leavers store leavers) :
    ∀ departure ∈ leavers, store.sessions.has departure.handle = true := by
  intro departure member
  exact Entries.has_iff.mpr (List.mem_map.mpr ⟨_, leaving.stored departure member, rfl⟩)

private theorem leavers_nil (store : SessionStore P) : Leavers store [] :=
  ⟨List.nodup_nil, fun _ absent => (List.not_mem_nil absent).elim⟩

private theorem leavers_leaving {store : SessionStore P} {how : Text} {given : Option (Text × Session P)}
    (stored : ∀ entry, given = some entry → entry ∈ store.sessions.list) : Leavers store (leaving how given) := by
  cases found : given with
  | none => exact leavers_nil store
  | some entry =>
    refine ⟨List.nodup_singleton _, ?_⟩
    intro departure member
    obtain rfl := List.mem_singleton.mp member
    exact stored entry found

private theorem leavers_filterMap {store : SessionStore P} (depart : Text × Session P → Option (Departure P))
    (same : ∀ entry departure, depart entry = some departure → (departure.handle, departure.session) = entry) :
    Leavers store (store.sessions.list.filterMap depart) := by
  constructor
  · have inside : ((store.sessions.list.filterMap depart).map Departure.handle).Sublist store.sessions.keys := by
      rw [Entries.keys]
      induction store.sessions.list with
      | nil => exact List.Sublist.slnil
      | cons entry rest ih =>
        rw [List.filterMap_cons]
        cases found : depart entry with
        | none => exact ih.cons _
        | some departure =>
          have named : departure.handle = entry.1 := congrArg Prod.fst (same entry departure found)
          simp only [List.map_cons, named]
          exact ih.cons_cons _
    exact inside.nodup store.sessions.distinct
  · intro departure member
    obtain ⟨entry, stored, found⟩ := List.mem_filterMap.mp member
    rw [same entry departure found]
    exact stored

theorem deadDeparture_eq_some {reading : Reading} {entry : Text × Session P} {departure : Departure P}
    (found : deadDeparture reading entry = some departure) :
    (departure.handle, departure.session) = entry ∧ dead reading entry.2 = true := by
  unfold deadDeparture at found
  split at found
  · next died =>
    cases found
    exact ⟨rfl, died⟩
  · cases found

theorem departures_leavers (store : SessionStore P) (call : SessionCall P) : Leavers store (departures store call) := by
  have died : ∀ reading, Leavers store (store.sessions.list.filterMap (deadDeparture reading)) :=
    fun reading => leavers_filterMap _ fun _ _ found => (deadDeparture_eq_some found).1
  have held : ∀ handle entry, store.entryOf handle = some entry → entry ∈ store.sessions.list :=
    fun _ _ found => (entryOf_eq_some.mp found).2
  cases call with
  | openBody request =>
    simp only [departures]
    split
    · exact died _
    · exact leavers_nil store
  | endBound externalId how now =>
    refine leavers_leaving fun entry found => ?_
    obtain ⟨handle, -, found⟩ := Option.bind_eq_some_iff.mp found
    exact held handle entry found
  | principal handle reading =>
    simp only [departures]
    cases found : (store.entryOf handle).bind (deadDeparture reading) with
    | none => exact leavers_nil store
    | some departure =>
      obtain ⟨entry, stored, gone⟩ := Option.bind_eq_some_iff.mp found
      refine ⟨List.nodup_singleton _, ?_⟩
      intro other member
      obtain rfl := List.mem_singleton.mp member
      rw [(deadDeparture_eq_some gone).1]
      exact held handle entry stored
  | touch handle reading => exact leavers_nil store
  | sql handle sql carried reading => exact leavers_nil store
  | sweep reading => exact died _
  | kill id now => exact leavers_leaving fun _ found => List.mem_of_find?_eq_some found
  | close handle now => exact leavers_leaving fun entry found => held handle entry found
  | bind externalId handle now =>
    refine leavers_leaving fun entry found => ?_
    obtain ⟨previous, -, found⟩ := Option.bind_eq_some_iff.mp found
    exact held previous entry found
  | closeAll now =>
    have listed : departures store (.closeAll now) = store.sessions.list.filterMap fun entry =>
        some ⟨entry.1, entry.2, "door_stopped".toList⟩ := by
      rw [List.filterMap_eq_map']
      rfl
    rw [listed]
    refine leavers_filterMap _ fun entry departure found => ?_
    cases found
    rfl
  | viewAs id role => exact leavers_nil store
  | setTrace id name value => exact leavers_nil store

/-! ## One operation -/

/-- What an operation leaves, by its departures, its clock, the sweep it ran and the session it seated. -/
structure Performs (store : SessionStore P) (leavers : List (Departure P)) (now : Int) (sweep : Option Reading)
    (seated : Option (Text × Session P)) (next : SessionStore P) : Prop where
  seats : next.seats = (seated.map seat).toList ++ store.seats.filter fun held => !departs leavers held.1
  queued : next.queuedCloses = store.queuedCloses ++ leavers.map fun departure => departure.closing.2
  closed : closings next.events = closings store.events ++ leavers.map Departure.closing
  opened : openedHandles next.events = openedHandles store.events ++ (seated.map Prod.fst).toList
  viewed : ∀ externalId, Viewed store.sessionBindings leavers externalId → next.viewAsEnded.find externalId = some now
  kept : ∀ externalId, ¬ Viewed store.sessionBindings leavers externalId →
    next.viewAsEnded.find externalId = (store.viewAsEnded.find externalId).filter fun ended =>
      sweep.all fun reading => !decide (ended + viewAsEndedSeconds < reading.now)

abbrev Performed (store : SessionStore P) (call : SessionCall P) (next : SessionStore P) : Prop :=
  Performs store (departures store call) (clockOf call) (sweepOf store call) (seated store call) next

/-- The store once the departing sessions have left. -/
def left (store : SessionStore P) (call : SessionCall P) : SessionStore P :=
  store.leaveEach (departures store call) (clockOf call)

theorem left_closed (store : SessionStore P) (call : SessionCall P) :
    Closed store (departures store call) (clockOf call) (left store call) := by
  have leaving := departures_leavers store call
  rw [left, leaveEach_eq _ _ _ leaving.distinct]
  exact { closeEach_closed store _ (clockOf call) leaving.has with }

theorem left_sessions (store : SessionStore P) (call : SessionCall P) :
    (left store call).sessions = store.sessions.keep fun entry => !departs (departures store call) entry.1 := by
  rw [left, leaveEach_eq _ _ _ (departures_leavers store call).distinct]

theorem left_seats (store : SessionStore P) (call : SessionCall P) :
    (left store call).seats = store.seats.filter fun held => !departs (departures store call) held.1 := by
  rw [seats, left_sessions, seats, List.filter_map]
  rfl

/-- An operation that neither sweeps nor seats does no more to the seats and the records than its departures. -/
theorem performed_of_left {store : SessionStore P} {call : SessionCall P} {next : SessionStore P}
    (unswept : sweepOf store call = none) (unseated : seated store call = none)
    (sameSeats : next.seats = (left store call).seats) (sameQueue : next.queuedCloses = (left store call).queuedCloses)
    (sameEvents : next.events = (left store call).events)
    (sameEnded : next.viewAsEnded = (left store call).viewAsEnded) : Performed store call next := by
  have closed := left_closed store call
  refine ⟨?_, ?_, ?_, ?_, ?_, ?_⟩
  · rw [sameSeats, left_seats, unseated]
    rfl
  · rw [sameQueue, closed.queued]
  · rw [sameEvents, closed.closed]
  · rw [sameEvents, closed.opened, unseated]
    exact (List.append_nil _).symm
  · intro externalId viewed
    rw [sameEnded, closed.viewed externalId viewed]
  · intro externalId free
    rw [sameEnded, closed.kept externalId free, unswept]
    cases store.viewAsEnded.find externalId with
    | none => rfl
    | some ended => rfl

/-- An operation no session leaves by, and that changes no seat, changes nothing that is recorded. -/
theorem performed_of_alter {store : SessionStore P} {call : SessionCall P} (sessions : Entries Text (Session P))
    (unswept : sweepOf store call = none) (unseated : seated store call = none) (staying : departures store call = [])
    (same : sessions.list.map seat = store.seats) : Performed store call { store with sessions := sessions } := by
  have stays : left store call = store := by
    rw [left, staying]
    rfl
  refine performed_of_left unswept unseated ?_ ?_ ?_ ?_
  all_goals rw [stays]
  exact same

/-- Bumping a session moves no seat. -/
private theorem seats_bump (store : SessionStore P) (handle : Text) (now : Int) :
    (store.sessions.alter handle fun held => { held with lastUsed := now }).list.map seat = store.seats :=
  Entries.map_alter _ _ _ seat fun _ _ => rfl

theorem judged (reading : Reading) (session : Session P) {β : Type} (died died' lives : β) :
    (if reading.expBinds && decide (0 < session.expiresAt) &&
        decide (session.expiresAt + reading.skew < reading.now) then died
      else if decide (0 < reading.idle) && decide (session.lastUsed + reading.idle < reading.now) then died'
      else lives) = if dead reading session then (if expired reading session then died else died') else lives := by
  have first : (reading.expBinds && decide (0 < session.expiresAt) &&
      decide (session.expiresAt + reading.skew < reading.now)) = expired reading session := rfl
  have second : (decide (0 < reading.idle) && decide (session.lastUsed + reading.idle < reading.now)) =
      stale reading session := rfl
  rw [first, second, dead]
  cases expired reading session <;> cases stale reading session <;> rfl

theorem performed_principal (store : SessionStore P) (handle : Text) (reading : Reading) :
    Performed store (.principal handle reading) (store.sessionPrincipal handle reading).1 := by
  unfold sessionPrincipal
  cases found : store.sessions.find handle with
  | none =>
    refine performed_of_alter store.sessions rfl rfl ?_ rfl
    simp only [departures, entryOf, found, Option.map_none, Option.bind_none, Option.toList_none]
  | some session =>
    dsimp only
    rw [judged]
    have entry : store.entryOf handle = some (handle, session) := by simp only [entryOf, found, Option.map_some]
    by_cases died : dead reading session = true
    · have leaves : left store (.principal handle reading) = (store.sessionClosed handle session
          (if expired reading session then "expired".toList else "idle".toList) reading.now).eraseSession handle := by
        simp only [left, departures, entry, Option.bind_some, deadDeparture, died, if_true, Option.toList_some,
          leaveEach, List.foldl_cons, List.foldl_nil, clockOf]
      rw [if_pos died]
      refine performed_of_left rfl rfl ?_ ?_ ?_ ?_
      all_goals
        rw [leaves]
        split <;> rfl
    · rw [if_neg died]
      refine performed_of_alter _ rfl rfl ?_ (seats_bump store handle reading.now)
      simp only [departures, entry, Option.bind_some, deadDeparture, died, Bool.false_eq_true, if_false,
        Option.toList_none]

theorem performed_touch (store : SessionStore P) (handle : Text) (reading : Reading) :
    Performed store (.touch handle reading) (store.sessionTouch handle reading).1 := by
  unfold sessionTouch
  cases found : store.sessions.find handle with
  | none => exact performed_of_alter store.sessions rfl rfl rfl rfl
  | some session =>
    dsimp only
    rw [judged]
    split_ifs
    · exact performed_of_alter store.sessions rfl rfl rfl rfl
    · exact performed_of_alter store.sessions rfl rfl rfl rfl
    · exact performed_of_alter _ rfl rfl rfl (seats_bump store handle reading.now)

theorem performed_sql (store : SessionStore P) (handle sql : Text) (carried : Carried) (reading : Reading) :
    Performed store (.sql handle sql carried reading) (store.sessionSql handle sql carried reading).1 := by
  unfold sessionSql
  cases found : store.sessions.find handle with
  | none => exact performed_of_alter store.sessions rfl rfl rfl rfl
  | some session =>
    dsimp only
    rw [judged]
    split_ifs
    · exact performed_of_alter store.sessions rfl rfl rfl rfl
    · exact performed_of_alter store.sessions rfl rfl rfl rfl
    · exact performed_of_alter _ rfl rfl rfl (seats_bump store handle reading.now)

/-- Bindings hold no seat and no record. -/
private theorem performed_of_rebound {store : SessionStore P} {call : SessionCall P} {next : SessionStore P}
    (unswept : sweepOf store call = none) (unseated : seated store call = none)
    (rebound : ∃ bindings, next = { left store call with sessionBindings := bindings }) : Performed store call next := by
  obtain ⟨bindings, rfl⟩ := rebound
  exact performed_of_left unswept unseated rfl rfl rfl rfl

theorem performed_endBound (store : SessionStore P) (externalId how : Text) (now : Int) :
    Performed store (.endBound externalId how now) (store.sessionEndBound externalId how now) := by
  refine performed_of_rebound rfl rfl ?_
  unfold sessionEndBound left
  cases bound : store.sessionBindings.find externalId with
  | none => exact ⟨store.sessionBindings, by simp only [departures, bound, Option.bind_none, leaving, leaveEach, List.foldl_nil]⟩
  | some handle =>
    simp only [departures, bound, Option.bind_some, entryOf]
    cases found : store.sessions.find handle with
    | none => exact ⟨_, rfl⟩
    | some session => exact ⟨_, rfl⟩

theorem performed_kill (store : SessionStore P) (id : Text) (now : Int) :
    Performed store (.kill id now) (store.sessionKill id now).1 := by
  refine performed_of_rebound rfl rfl ?_
  unfold sessionKill left
  simp only [departures]
  cases found : store.sessions.list.find? fun entry => decide (entry.2.id = id) with
  | none => exact ⟨_, rfl⟩
  | some entry => exact ⟨_, rfl⟩

theorem performed_close (store : SessionStore P) (handle : Text) (now : Int) :
    Performed store (.close handle now) (store.sessionClose handle now) := by
  refine performed_of_rebound rfl rfl ?_
  unfold sessionClose left
  simp only [departures, entryOf]
  cases found : store.sessions.find handle with
  | none => exact ⟨_, rfl⟩
  | some session => exact ⟨_, rfl⟩

theorem performed_bind (store : SessionStore P) (externalId handle : Text) (now : Int) :
    Performed store (.bind externalId handle now) (store.sessionBind externalId handle now) := by
  refine performed_of_rebound rfl rfl ?_
  unfold sessionBind left
  simp only [departures]
  cases bound : store.sessionBindings.find externalId with
  | none => exact ⟨_, rfl⟩
  | some previous =>
    by_cases other : previous ≠ handle
    · simp only [Option.filter_some, decide_eq_true other, if_true, Option.bind_some, entryOf, if_pos other]
      cases found : store.sessions.find previous with
      | none => exact ⟨_, rfl⟩
      | some replaced => exact ⟨_, rfl⟩
    · simp only [Option.filter_some, decide_eq_false other, Bool.false_eq_true, if_false, Option.bind_none,
        if_neg other]
      exact ⟨_, rfl⟩

theorem performed_closeAll (store : SessionStore P) (now : Int) :
    Performed store (.closeAll now) (store.sessionCloseAll now).1 := by
  have leaving := departures_leavers store (.closeAll now)
  have closes : store.sessions.list.foldl
      (fun closed entry => closed.sessionClosed entry.1 entry.2 "door_stopped".toList now) store =
      store.closeEach (departures store (.closeAll now)) now := by
    simp only [closeEach, departures, List.foldl_map]
  have leaves : left store (.closeAll now) = { store.closeEach (departures store (.closeAll now)) now with
      sessions := store.sessions.keep fun entry => !departs (departures store (.closeAll now)) entry.1 } :=
    leaveEach_eq _ _ _ leaving.distinct
  refine performed_of_left rfl rfl ?_ ?_ ?_ ?_
  · rw [left_seats, List.filter_eq_nil_iff.mpr]
    · rfl
    · intro held member
      obtain ⟨entry, stored, rfl⟩ := List.mem_map.mp member
      simp only [Bool.not_eq_true, Bool.not_eq_false']
      exact departs_iff.mpr (List.mem_map.mpr ⟨_, List.mem_map.mpr ⟨entry, stored, rfl⟩, rfl⟩)
  all_goals
    rw [leaves]
    simp only [sessionCloseAll, closes]

theorem performed_viewAs (store : SessionStore P) (id role : Text) :
    Performed store (.viewAs id role) (store.sessionViewAs id role).1 := by
  unfold sessionViewAs alterById
  cases store.sessions.list.find? fun entry => decide (entry.2.id = id) with
  | none => exact performed_of_alter store.sessions rfl rfl rfl rfl
  | some entry => exact performed_of_alter _ rfl rfl rfl (Entries.map_alter _ _ _ seat fun _ _ => rfl)

/-- A setting moves no seat. -/
private theorem traceSetter_seat {name : Text} {set : Text → Session P → Session P}
    (named : traceSetter name = some set) (value handle : Text) (session : Session P) :
    seat (handle, set value session) = seat (handle, session) := by
  unfold traceSetter at named
  split_ifs at named
  all_goals
    cases named
    rfl

theorem performed_setTrace (store : SessionStore P) (id name value : Text) :
    Performed store (.setTrace id name value) (store.setSessionTrace id name value).1 := by
  unfold setSessionTrace
  cases store.sessions.list.find? fun entry => decide (entry.2.id = id) with
  | none => exact performed_of_alter store.sessions rfl rfl rfl rfl
  | some entry =>
    cases named : traceSetter (P := P) name with
    | none => exact performed_of_alter store.sessions rfl rfl rfl rfl
    | some set =>
      exact performed_of_alter _ rfl rfl rfl
        (Entries.map_alter _ _ _ seat fun handle session => traceSetter_seat named value handle session)

/-! ## Sweeping and opening -/

private theorem sweepEntry_eq (reading : Reading) (swept : SessionStore P × Nat) (entry : Text × Session P) :
    (sweepEntry reading swept entry).1 =
      match deadDeparture reading entry with
      | some departure =>
        (swept.1.sessionClosed departure.handle departure.session departure.how reading.now).eraseSession departure.handle
      | none => swept.1 := by
  simp only [sweepEntry, deadDeparture]
  have first : (reading.expBinds && decide (0 < entry.2.expiresAt) &&
      decide (entry.2.expiresAt + reading.skew < reading.now)) = expired reading entry.2 := rfl
  have second : (decide (0 < reading.idle) && decide (entry.2.lastUsed + reading.idle < reading.now)) =
      stale reading entry.2 := rfl
  rw [first, second]
  have judgement : (expired reading entry.2 || stale reading entry.2) = dead reading entry.2 := rfl
  by_cases died : dead reading entry.2 = true
  · rw [if_pos (judgement.trans died), if_pos died]
  · rw [if_neg (judgement ▸ died), if_neg died]

private theorem sweepEntries_eq (reading : Reading) (entries : List (Text × Session P)) (swept : SessionStore P × Nat) :
    (entries.foldl (sweepEntry reading) swept).1 =
      swept.1.leaveEach (entries.filterMap (deadDeparture reading)) reading.now := by
  induction entries generalizing swept with
  | nil => rfl
  | cons entry rest ih =>
    rw [List.foldl_cons, ih, sweepEntry_eq]
    cases found : deadDeparture reading entry with
    | none => rw [List.filterMap_cons_none found]
    | some departure =>
      rw [List.filterMap_cons_some found]
      rfl

/-- The sweep drops the dead sessions, the bindings of sessions that are not there, and the records of a
day ago. -/
theorem sweepLocked_eq (store : SessionStore P) (reading : Reading) :
    (store.sweepLocked reading).1 =
      { left store (.sweep reading) with
        sessionBindings := store.sessionBindings.keep fun binding =>
          (left store (.sweep reading)).sessions.has binding.2
        viewAsEnded := (left store (.sweep reading)).viewAsEnded.keep fun ended =>
          !decide (ended.2 + viewAsEndedSeconds < reading.now)
        lastSweep := reading.now } := by
  have leaves : (store.sessions.list.foldl (sweepEntry reading) (store, 0)).1 = left store (.sweep reading) :=
    sweepEntries_eq reading _ _
  simp only [sweepLocked, leaves, (left_closed store (.sweep reading)).bindings]

theorem performed_sweep (store : SessionStore P) (reading : Reading) :
    Performed store (.sweep reading) (store.sweepLocked reading).1 := by
  have closed := left_closed store (.sweep reading)
  rw [sweepLocked_eq]
  refine ⟨left_seats store (.sweep reading), closed.queued, closed.closed, ?_, ?_, ?_⟩
  · exact closed.opened.trans (List.append_nil _).symm
  · intro externalId viewed
    have today : ¬ reading.now + viewAsEndedSeconds < reading.now := by
      simp only [viewAsEndedSeconds]
      omega
    simp only [Entries.find_keep, closed.viewed externalId viewed, clockOf, Option.filter_some, today, decide_false,
      Bool.not_false, if_true]
  · intro externalId free
    simp only [Entries.find_keep, closed.kept externalId free, sweepOf, Option.all_some]

private theorem performs_unswept (store : SessionStore P) (now : Int) : Performs store [] now none none store := by
  refine ⟨?_, (List.append_nil _).symm, (List.append_nil _).symm, (List.append_nil _).symm, ?_, ?_⟩
  · simp [departs]
  · rintro externalId ⟨departure, absent, -⟩
    cases absent
  · intro externalId _
    cases store.viewAsEnded.find externalId with
    | none => rfl
    | some ended => rfl

/-- An open sweeps, or leaves the store as it is. -/
theorem performs_sweptForOpen (store : SessionStore P) (request : OpenRequest P) :
    Performs store (departures store (.openBody request)) request.reading.now (sweepOf store (.openBody request)) none
      (store.sweptForOpen request) := by
  by_cases sweeps : store.openSweeps request = true
  · simp only [departures, sweepOf, sweptForOpen, sweeps, if_true]
    exact performed_sweep store request.reading
  · simp only [departures, sweepOf, sweptForOpen, sweeps, Bool.false_eq_true, if_false]
    exact performs_unswept store request.reading.now

theorem keys_seats (store : SessionStore P) : store.seats.map Prod.fst = store.sessions.keys := by
  rw [seats, List.map_map]
  rfl

theorem sweptForOpen_keys {store : SessionStore P} {request : OpenRequest P} {handle : Text}
    (stored : handle ∈ (store.sweptForOpen request).sessions.keys) : handle ∈ store.sessions.keys := by
  rw [← keys_seats, (performs_sweptForOpen store request).seats] at stored
  obtain ⟨held, member, rfl⟩ := List.mem_map.mp stored
  rw [← keys_seats]
  exact List.mem_map_of_mem (List.mem_filter.mp member).1

theorem performed_openBody {store : SessionStore P} {request : OpenRequest P}
    (fresh : request.handle ∉ store.sessions.keys) :
    Performed store (.openBody request) (store.sessionOpenBody request).1 := by
  have swept := performs_sweptForOpen store request
  unfold sessionOpenBody Performed
  simp only [seated, clockOf]
  cases refused : (store.sweptForOpen request).openRefusal request with
  | some refusal =>
    refine ⟨swept.seats, swept.queued, ?_, ?_, swept.viewed, swept.kept⟩
    · simp only [closings, List.filterMap_append] at *
      exact (List.append_nil _).trans swept.closed
    · simp only [openedHandles, List.filterMap_append] at *
      exact (List.append_nil _).trans swept.opened
  | none =>
    have absent : request.handle ∉ (store.sweptForOpen request).sessions.keys := fun found =>
      fresh (sweptForOpen_keys found)
    refine ⟨?_, swept.queued, ?_, ?_, swept.viewed, swept.kept⟩
    · have others := swept.seats
      simp only [seats, Entries.put, Entries.drop_of_absent absent, List.map_cons, Option.map_none, Option.toList_none,
        List.nil_append] at others ⊢
      rw [others]
      rfl
    · have closed := swept.closed
      simp only [closings, List.filterMap_append] at closed ⊢
      exact (List.append_nil _).trans closed
    · have opened := swept.opened
      simp only [openedHandles, List.filterMap_append, Option.map_none, Option.toList_none, List.append_nil] at opened ⊢
      rw [opened]
      rfl

/-- What every operation leaves, handles being minted once. -/
theorem performed {store : SessionStore P} {call : SessionCall P}
    (fresh : ∀ handle ∈ minted call, handle ∉ store.sessions.keys) : Performed store call (store.perform call) := by
  cases call with
  | openBody request => exact performed_openBody (fresh request.handle rfl)
  | endBound externalId how now => exact performed_endBound store externalId how now
  | principal handle reading => exact performed_principal store handle reading
  | touch handle reading => exact performed_touch store handle reading
  | sql handle sql carried reading => exact performed_sql store handle sql carried reading
  | sweep reading => exact performed_sweep store reading
  | kill id now => exact performed_kill store id now
  | close handle now => exact performed_close store handle now
  | bind externalId handle now => exact performed_bind store externalId handle now
  | closeAll now => exact performed_closeAll store now
  | viewAs id role => exact performed_viewAs store id role
  | setTrace id name value => exact performed_setTrace store id name value

/-! ## Runs -/

@[simp] theorem performAll_nil (store : SessionStore P) : store.performAll [] = store := rfl

theorem performAll_append (store : SessionStore P) (first second : List (SessionCall P)) :
    store.performAll (first ++ second) = (store.performAll first).performAll second :=
  List.foldl_append

theorem performAll_concat (store : SessionStore P) (calls : List (SessionCall P)) (call : SessionCall P) :
    store.performAll (calls ++ [call]) = (store.performAll calls).perform call :=
  List.foldl_append

theorem MintedOnce.left {first second : List (SessionCall P)} (once : MintedOnce (first ++ second)) :
    MintedOnce first := by
  simp only [MintedOnce, List.filterMap_append] at once
  exact ⟨once.1.of_append_left, fun found => once.2 (List.mem_append_left _ found)⟩

theorem seated_minted {store : SessionStore P} {call : SessionCall P} {entry : Text × Session P}
    (seats : seated store call = some entry) : minted call = some entry.1 := by
  cases call with
  | openBody request =>
    simp only [seated] at seats
    split at seats
    · cases seats
    · cases seats
      rfl
  | _ => cases seats

/-- A handle about to be minted is not one that was minted before. -/
theorem MintedOnce.fresh {calls : List (SessionCall P)} {call : SessionCall P} (once : MintedOnce (calls ++ [call]))
    {handle : Text} (mint : handle ∈ minted call) : handle ∉ calls.filterMap minted := by
  intro found
  have apart := once.1
  rw [List.filterMap_append] at apart
  have again : handle ∈ [call].filterMap minted := List.mem_filterMap.mpr ⟨call, List.mem_singleton_self _, mint⟩
  exact List.disjoint_of_nodup_append apart found again

theorem minted_append_left {calls : List (SessionCall P)} {call : SessionCall P} {handle : Text}
    (before : handle ∈ calls.filterMap minted) : handle ∈ (calls ++ [call]).filterMap minted := by
  rw [List.filterMap_append]
  exact List.mem_append_left _ before

/-- A stored session is one an operation of the run minted a handle for. -/
theorem stored_minted {calls : List (SessionCall P)} (once : MintedOnce calls) :
    ∀ handle ∈ (init.performAll calls).sessions.keys, handle ∈ calls.filterMap minted := by
  induction calls using List.reverseRecOn with
  | nil => exact fun _ absent => absent
  | append_singleton calls call ih =>
    have before := ih once.left
    have done := performed fun handle mint found => once.fresh mint (before handle found)
    intro handle stored
    rw [performAll_concat, ← keys_seats, done.seats, List.map_append, List.mem_append] at stored
    rcases stored with new | old
    · rw [List.filterMap_append]
      apply List.mem_append_right
      cases seats : seated (init.performAll calls) call with
      | none => simp [seats] at new
      | some entry =>
        simp only [seats, Option.map_some, Option.toList_some, List.map_cons, List.map_nil, List.mem_singleton] at new
        exact List.mem_filterMap.mpr ⟨call, List.mem_singleton_self _, new ▸ seated_minted seats⟩
    · obtain ⟨held, member, rfl⟩ := List.mem_map.mp old
      apply minted_append_left
      refine before _ ?_
      rw [← keys_seats]
      exact List.mem_map_of_mem (List.mem_filter.mp member).1

/-- What each operation of a run leaves. -/
theorem performed_run {calls : List (SessionCall P)} {call : SessionCall P} (once : MintedOnce (calls ++ [call])) :
    Performed (init.performAll calls) call (init.performAll (calls ++ [call])) := by
  rw [performAll_concat]
  exact performed fun handle mint found => once.fresh mint (stored_minted once.left handle found)

end DuckAcl.SessionStore
