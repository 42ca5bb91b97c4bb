import DuckAcl.Soundness.SessionSteps

/-! # One session, one life

The three judgements of a session, that it is there, that its token holds and that it is in use, are
written out six times, and each time they are the same. A session that leaves the map is closed once,
by the operation that removes it, and since a handle is minted once it never comes back.
-/

namespace DuckAcl.SessionStore

variable {P : Type}

/-! ## The judgements -/

theorem sessionAlive_iff {store : SessionStore P} {handle : Text} {reading : Reading} :
    store.sessionAlive handle reading = true ↔
      ∃ session, store.sessions.find handle = some session ∧ dead reading session = false := by
  unfold sessionAlive
  cases found : store.sessions.find handle with
  | none => simp
  | some session =>
    dsimp only
    rw [judged, ite_self]
    cases died : dead reading session <;> simp [died]

theorem sessionSql_ne_nil {store : SessionStore P} {handle sql : Text} {carried : Carried} {reading : Reading} :
    (store.sessionSql handle sql carried reading).2 ≠ [] ↔ store.sessionAlive handle reading = true := by
  rw [sessionAlive_iff]
  unfold sessionSql
  cases found : store.sessions.find handle with
  | none => simp
  | some session =>
    dsimp only
    rw [judged, ite_self]
    cases died : dead reading session <;> simp [died]

theorem sessionTouch_iff {store : SessionStore P} {handle : Text} {reading : Reading} :
    (store.sessionTouch handle reading).2 = true ↔ store.sessionAlive handle reading = true := by
  rw [sessionAlive_iff]
  unfold sessionTouch
  cases found : store.sessions.find handle with
  | none => simp
  | some session =>
    dsimp only
    rw [judged, ite_self]
    cases died : dead reading session <;> simp [died]

theorem sessionPrincipal_iff {store : SessionStore P} {handle : Text} {reading : Reading} :
    (∃ principal, (store.sessionPrincipal handle reading).2 = .ok principal) ↔
      store.sessionAlive handle reading = true := by
  rw [sessionAlive_iff]
  unfold sessionPrincipal
  cases found : store.sessions.find handle with
  | none => simp
  | some session =>
    dsimp only
    rw [judged]
    cases died : dead reading session with
    | true => cases expired reading session <;> simp [died]
    | false => simp [died]

theorem sessionReason_iff {store : SessionStore P} {handle : Text} {reading : Reading} :
    store.sessionReason handle reading = "live".toList ↔ store.sessionAlive handle reading = true := by
  rw [sessionAlive_iff]
  unfold sessionReason
  cases found : store.sessions.find handle with
  | none => simp
  | some session =>
    dsimp only
    rw [judged]
    cases died : dead reading session with
    | true => cases expired reading session <;> simp [died]
    | false => simp [died]

/-- A stored session departs by a sweep if it is dead. -/
theorem departs_dead {store : SessionStore P} {handle : Text} {session : Session P} {reading : Reading}
    (found : store.sessions.find handle = some session) :
    departs (store.sessions.list.filterMap (deadDeparture reading)) handle = dead reading session := by
  have stored := Entries.find_eq_some.mp found
  rw [Bool.eq_iff_iff, departs_iff, List.mem_map]
  constructor
  · rintro ⟨departure, member, named⟩
    obtain ⟨entry, held, gone⟩ := List.mem_filterMap.mp member
    obtain ⟨same, died⟩ := deadDeparture_eq_some gone
    have other : (handle, entry.2) ∈ store.sessions.list := by
      have named' : entry.1 = handle := by rw [← same]; exact named
      rw [← named']
      exact held
    have equal : some entry.2 = some session := (Entries.find_eq_some.mpr other).symm.trans found
    rw [← Option.some.inj equal]
    exact died
  · intro died
    have gone : deadDeparture reading (handle, session) = some ⟨handle, session,
        if expired reading session then "expired".toList else "idle".toList⟩ := if_pos died
    exact ⟨_, List.mem_filterMap.mpr ⟨_, stored, gone⟩, rfl⟩

theorem sweepLocked_has {store : SessionStore P} {handle : Text} {reading : Reading} :
    (store.sweepLocked reading).1.sessions.has handle = true ↔ store.sessionAlive handle reading = true := by
  rw [sessionAlive_iff, sweepLocked_eq]
  dsimp only
  rw [left_sessions, Entries.has, Entries.find_keep, Option.isSome_iff_exists]
  constructor
  · rintro ⟨session, kept⟩
    obtain ⟨found, stays⟩ := Option.filter_eq_some_iff.mp kept
    refine ⟨session, found, ?_⟩
    rw [← departs_dead found]
    simpa only [departures, Bool.not_eq_true'] using stays
  · rintro ⟨session, found, lives⟩
    refine ⟨session, Option.filter_eq_some_iff.mpr ⟨found, ?_⟩⟩
    have stays : departs (departures store (.sweep reading)) handle = dead reading session := departs_dead found
    simp only [stays, lives, Bool.not_false]

/-- The six judgements of a handle agree. -/
def JudgementsAgree (store : SessionStore P) (handle : Text) (reading : Reading) : Prop :=
  (∀ sql carried, (store.sessionSql handle sql carried reading).2 ≠ [] ↔ store.sessionAlive handle reading = true) ∧
    ((store.sessionTouch handle reading).2 = true ↔ store.sessionAlive handle reading = true) ∧
    ((∃ principal, (store.sessionPrincipal handle reading).2 = .ok principal) ↔
      store.sessionAlive handle reading = true) ∧
    (store.sessionReason handle reading = "live".toList ↔ store.sessionAlive handle reading = true) ∧
    ((store.sweepLocked reading).1.sessions.has handle = true ↔ store.sessionAlive handle reading = true)

theorem judgementsAgree (store : SessionStore P) (handle : Text) (reading : Reading) :
    JudgementsAgree store handle reading :=
  ⟨fun _ _ => sessionSql_ne_nil, sessionTouch_iff, sessionPrincipal_iff, sessionReason_iff, sweepLocked_has⟩

/-! ## Leaving -/

/-- An operation closes once each session it removes, and no other. -/
def ClosesWhatLeaves (store next : SessionStore P) : Prop :=
  ∃ ends : List (Text × Text × Text), closings next.events = closings store.events ++ ends ∧
    next.queuedCloses = store.queuedCloses ++ ends.map Prod.snd ∧ (ends.map Prod.fst).Nodup ∧
    ∀ handle, handle ∈ ends.map Prod.fst ↔ handle ∈ store.sessions.keys ∧ handle ∉ next.sessions.keys

theorem departs_stored {store : SessionStore P} {call : SessionCall P} {handle : Text}
    (gone : departs (departures store call) handle = true) : handle ∈ store.sessions.keys := by
  obtain ⟨departure, member, rfl⟩ := List.mem_map.mp (departs_iff.mp gone)
  exact List.mem_map_of_mem ((departures_leavers store call).stored departure member)

private theorem keys_performed {store next : SessionStore P} {call : SessionCall P} (done : Performed store call next) :
    next.sessions.keys = ((seated store call).map Prod.fst).toList ++
      store.sessions.keys.filter fun handle => !departs (departures store call) handle := by
  rw [← keys_seats, done.seats, List.map_append, ← keys_seats, List.filter_map]
  cases seated store call with
  | none => rfl
  | some entry => rfl

private theorem closing_handles (leavers : List (Departure P)) :
    (leavers.map Departure.closing).map Prod.fst = leavers.map Departure.handle := by
  rw [List.map_map]
  rfl

/-- The departures of an operation are the sessions it removes. -/
theorem departs_iff_leaves {store next : SessionStore P} {call : SessionCall P}
    (fresh : ∀ handle ∈ minted call, handle ∉ store.sessions.keys) (done : Performed store call next) {handle : Text} :
    departs (departures store call) handle = true ↔ handle ∈ store.sessions.keys ∧ handle ∉ next.sessions.keys := by
  rw [keys_performed done, List.mem_append, List.mem_filter]
  constructor
  · intro gone
    have stored := departs_stored gone
    refine ⟨stored, ?_⟩
    rintro (new | ⟨-, stays⟩)
    · cases seats : seated store call with
      | none => simp [seats] at new
      | some entry =>
        simp only [seats, Option.map_some, Option.toList_some, List.mem_singleton] at new
        exact fresh entry.1 (seated_minted seats) (new ▸ stored)
    · simp [gone] at stays
  · rintro ⟨stored, absent⟩
    by_contra stays
    simp only [Bool.not_eq_true] at stays
    exact absent (Or.inr ⟨stored, by simp [stays]⟩)

theorem closesWhatLeaves {store next : SessionStore P} {call : SessionCall P}
    (fresh : ∀ handle ∈ minted call, handle ∉ store.sessions.keys) (done : Performed store call next) :
    ClosesWhatLeaves store next := by
  refine ⟨(departures store call).map Departure.closing, done.closed, ?_, ?_, ?_⟩
  · rw [done.queued, List.map_map]
    rfl
  · rw [closing_handles]
    exact (departures_leavers store call).distinct
  · intro handle
    rw [closing_handles, ← departs_iff]
    exact departs_iff_leaves fresh done

/-- Every opened session is stored or was closed, and not both. -/
structure Accounted (store : SessionStore P) : Prop where
  once : (openedHandles store.events).Nodup
  balance : (openedHandles store.events).Perm (store.sessions.keys ++ closedHandles store.events)
  queued : store.queuedCloses = (closings store.events).map Prod.snd

private theorem left_balance (store : SessionStore P) (call : SessionCall P) :
    store.sessions.keys.Perm ((store.sessions.keys.filter fun handle => !departs (departures store call) handle) ++
      (departures store call).map Departure.handle) := by
  have leaving := departures_leavers store call
  have gone : (store.sessions.keys.filter fun handle => departs (departures store call) handle).Perm
      ((departures store call).map Departure.handle) := by
    have apart : store.sessions.keys.Nodup := store.sessions.distinct
    rw [List.perm_ext_iff_of_nodup (apart.filter _) leaving.distinct]
    intro handle
    rw [List.mem_filter, ← departs_iff]
    exact ⟨fun both => both.2, fun departed => ⟨departs_stored departed, departed⟩⟩
  have parts := List.filter_append_perm (fun handle => !departs (departures store call) handle) store.sessions.keys
  simp only [Bool.not_not] at parts
  exact parts.symm.trans (gone.append_left _)

private theorem opened_minted {calls : List (SessionCall P)} (once : MintedOnce calls) :
    ∀ handle ∈ openedHandles (init.performAll calls).events, handle ∈ calls.filterMap minted := by
  induction calls using List.reverseRecOn with
  | nil => exact fun _ absent => absent
  | append_singleton calls call ih =>
    intro handle opened
    rw [(performed_run once).opened, List.mem_append] at opened
    rcases opened with before | new
    · exact minted_append_left (ih once.left handle before)
    · cases seats : seated (init.performAll calls) call with
      | none => simp [seats] at new
      | some entry =>
        simp only [seats, Option.map_some, Option.toList_some, List.mem_singleton] at new
        rw [List.filterMap_append]
        apply List.mem_append_right
        exact List.mem_filterMap.mpr ⟨call, List.mem_singleton_self _, new ▸ seated_minted seats⟩

private theorem regroup (kept gone closed new : List Text) :
    (kept ++ gone ++ closed ++ new).Perm (new ++ kept ++ (closed ++ gone)) := by
  rw [List.perm_iff_count]
  intro handle
  simp only [List.count_append]
  omega

theorem accounted_run {calls : List (SessionCall P)} (once : MintedOnce calls) : Accounted (init.performAll calls) := by
  induction calls using List.reverseRecOn with
  | nil => exact ⟨List.nodup_nil, List.Perm.refl _, rfl⟩
  | append_singleton calls call ih =>
    have before := ih once.left
    have done := performed_run once
    refine ⟨?_, ?_, ?_⟩
    · rw [done.opened]
      cases seats : seated (init.performAll calls) call with
      | none => simpa using before.once
      | some entry =>
        have new : entry.1 ∉ openedHandles (init.performAll calls).events := fun found =>
          once.fresh (seated_minted seats) (opened_minted once.left entry.1 found)
        simp only [Option.map_some, Option.toList_some]
        exact List.nodup_append.mpr ⟨before.once, List.nodup_singleton _, fun _ held _ last =>
          List.mem_singleton.mp last ▸ fun same => new (same ▸ held)⟩
    · rw [done.opened, keys_performed done, closedHandles, done.closed, List.map_append, closing_handles]
      have parts := before.balance.trans ((left_balance (init.performAll calls) call).append_right _)
      exact (parts.append_right _).trans (regroup _ _ _ _)
    · rw [done.queued, done.closed, before.queued, List.map_append, List.map_map]
      rfl

/-- A closed session is not stored. -/
theorem Accounted.gone {store : SessionStore P} (accounted : Accounted store) {handle : Text}
    (closed : handle ∈ closedHandles store.events) : handle ∉ store.sessions.keys := by
  have apart := accounted.balance.nodup accounted.once
  exact fun stored => List.disjoint_of_nodup_append apart stored closed

/-- What was closed stays on record. -/
theorem closedHandles_run {calls later : List (SessionCall P)} (once : MintedOnce (calls ++ later)) {handle : Text}
    (closed : handle ∈ closedHandles (init.performAll calls).events) :
    handle ∈ closedHandles (init.performAll (calls ++ later)).events := by
  induction later using List.reverseRecOn with
  | nil => rwa [List.append_nil]
  | append_singleton later call ih =>
    rw [← List.append_assoc] at once ⊢
    rw [closedHandles, (performed_run once).closed, List.map_append]
    exact List.mem_append_left _ (ih once.left)

theorem one_session_one_life (calls : List (SessionCall P)) (once : MintedOnce calls) :
    (∀ handle reading, JudgementsAgree (init.performAll calls) handle reading) ∧
      Accounted (init.performAll calls) ∧
      (∀ call, MintedOnce (calls ++ [call]) →
        ClosesWhatLeaves (init.performAll calls) (init.performAll (calls ++ [call]))) ∧
      ∀ handle ∈ closedHandles (init.performAll calls).events, ∀ later, MintedOnce (calls ++ later) →
        ∀ reading, (init.performAll (calls ++ later)).sessionAlive handle reading = false := by
  refine ⟨fun handle reading => judgementsAgree _ handle reading, accounted_run once, ?_, ?_⟩
  · intro call next
    exact closesWhatLeaves (fun handle mint found => next.fresh mint (stored_minted once handle found))
      (performed_run next)
  · intro handle closed later next reading
    have absent := (accounted_run next).gone (closedHandles_run next closed)
    rw [Bool.eq_false_iff]
    intro alive
    obtain ⟨session, found, -⟩ := sessionAlive_iff.mp alive
    exact absent (List.mem_map_of_mem (Entries.find_eq_some.mp found))

/-- A session opened at reading 1000 and closed by its client at 1005. -/
def openThenClose : List (SessionCall Unit) :=
  [.openBody ⟨(), "flight".toList, 0, -1, ⟨[], 0⟩, [], "a1".toList, "id1".toList, ⟨1000, 0, 600, true⟩, 10⟩,
    .close "a1".toList 1005]

theorem one_session_one_life_openThenClose :
    closedHandles (init.performAll openThenClose).events = ["a1".toList] ∧
      Accounted (init.performAll openThenClose) :=
  ⟨by decide, (one_session_one_life openThenClose (by decide)).2.1⟩

end DuckAcl.SessionStore
