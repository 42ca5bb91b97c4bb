import DuckAcl.Soundness.SessionLives

/-! # A connection whose view-as session ended

Each removal records, before anything is erased, the external ids bound to a session that viewed as a
role, under the reading of the operation that removes it. A sweep forgets a record that is more than a
day old by its own reading. Readings are taken before the lock, so the record of a later end may be
earlier than the one it replaces, and the day counts from the reading recorded last.
-/

namespace DuckAcl.SessionStore

variable {P : Type}

/-- The operation removes a view-as session that the external id is bound to. -/
def EndsViewAs (store : SessionStore P) (call : SessionCall P) (externalId : Text) : Prop :=
  ∃ handle session, store.sessions.find handle = some session ∧ session.viewAs ≠ [] ∧
    store.sessionBindings.find externalId = some handle ∧ handle ∉ (store.perform call).sessions.keys

/-- The reading of the last operation of a run that removed a view-as session of the external id. -/
def EndedLast (calls : List (SessionCall P)) (externalId : Text) (ended : Int) : Prop :=
  ∃ before ending after, calls = before ++ ending :: after ∧ clockOf ending = ended ∧
    EndsViewAs (init.performAll before) ending externalId ∧
    ∀ between call rest, after = between ++ call :: rest →
      ¬ EndsViewAs (init.performAll (before ++ ending :: between)) call externalId

/-- A sweep of a run came more than a day after the reading recorded last. -/
def SweptAfter (calls : List (SessionCall P)) (later : List (SessionCall P)) (externalId : Text) : Prop :=
  ∃ between sweep rest reading ended, later = between ++ sweep :: rest ∧
    sweepOf (init.performAll (calls ++ between)) sweep = some reading ∧ EndedLast (calls ++ between) externalId ended ∧
    ended + viewAsEndedSeconds < reading.now

theorem endsViewAs_iff {store : SessionStore P} {call : SessionCall P} {externalId : Text}
    (fresh : ∀ handle ∈ minted call, handle ∉ store.sessions.keys) :
    EndsViewAs store call externalId ↔ Viewed store.sessionBindings (departures store call) externalId := by
  have leaves : ∀ handle, departs (departures store call) handle = true ↔
      handle ∈ store.sessions.keys ∧ handle ∉ (store.perform call).sessions.keys :=
    fun _ => departs_iff_leaves fresh (performed fresh)
  constructor
  · rintro ⟨handle, session, found, viewing, bound, absent⟩
    have stored := Entries.find_eq_some.mp found
    have gone := (leaves handle).mpr ⟨List.mem_map_of_mem stored, absent⟩
    obtain ⟨departure, member, rfl⟩ := List.mem_map.mp (departs_iff.mp gone)
    have held := Entries.find_eq_some.mpr ((departures_leavers store call).stored departure member)
    rw [found] at held
    exact ⟨departure, member, Option.some.inj held ▸ viewing, bound⟩
  · rintro ⟨departure, member, viewing, bound⟩
    refine ⟨departure.handle, departure.session, ?_, viewing, bound, ?_⟩
    · exact Entries.find_eq_some.mpr ((departures_leavers store call).stored departure member)
    · exact ((leaves departure.handle).mp (departs_iff.mpr (List.mem_map_of_mem member))).2

theorem endsViewAs_run {calls : List (SessionCall P)} {call : SessionCall P} (once : MintedOnce (calls ++ [call]))
    {externalId : Text} : EndsViewAs (init.performAll calls) call externalId ↔
      Viewed (init.performAll calls).sessionBindings (departures (init.performAll calls) call) externalId :=
  endsViewAs_iff fun handle mint found => once.fresh mint (stored_minted once.left handle found)

/-- An end just recorded is the last one. -/
private theorem endedLast_now {calls : List (SessionCall P)} {call : SessionCall P} {externalId : Text}
    (ends : EndsViewAs (init.performAll calls) call externalId) :
    EndedLast (calls ++ [call]) externalId (clockOf call) := by
  refine ⟨calls, call, [], rfl, rfl, ends, ?_⟩
  intro between other rest absent
  simp at absent

/-- An end stays the last one while none follows. -/
private theorem EndedLast.concat {calls : List (SessionCall P)} {call : SessionCall P} {externalId : Text} {ended : Int}
    (last : EndedLast calls externalId ended) (none : ¬ EndsViewAs (init.performAll calls) call externalId) :
    EndedLast (calls ++ [call]) externalId ended := by
  obtain ⟨before, ending, after, rfl, clock, ends, others⟩ := last
  refine ⟨before, ending, after ++ [call], by simp, clock, ends, ?_⟩
  intro between other rest split
  rcases List.eq_nil_or_concat rest with rfl | ⟨rest, last, rfl⟩
  · obtain ⟨rfl, rfl⟩ : after = between ∧ call = other := by simpa using List.append_inj' split rfl
    exact none
  · refine others between other rest ?_
    have split' : after ++ [call] = (between ++ other :: rest) ++ [last] := by
      rw [split]
      simp
    exact (List.append_inj' split' rfl).1

/-- One operation keeps the record, under the reading recorded last, or sweeps it away. -/
private theorem recorded_concat {calls : List (SessionCall P)} {call : SessionCall P} {externalId : Text} {ended : Int}
    (once : MintedOnce (calls ++ [call])) (recorded : (init.performAll calls).viewAsEnded.find externalId = some ended)
    (last : EndedLast calls externalId ended) :
    (∃ reading, sweepOf (init.performAll calls) call = some reading ∧ ended + viewAsEndedSeconds < reading.now) ∨
      ∃ ended', (init.performAll (calls ++ [call])).viewAsEnded.find externalId = some ended' ∧
        EndedLast (calls ++ [call]) externalId ended' := by
  have done := performed_run once
  by_cases ends : EndsViewAs (init.performAll calls) call externalId
  · exact Or.inr ⟨_, done.viewed externalId ((endsViewAs_run once).mp ends), endedLast_now ends⟩
  · have kept := done.kept externalId fun viewed => ends ((endsViewAs_run once).mpr viewed)
    rw [recorded] at kept
    cases sweep : sweepOf (init.performAll calls) call with
    | none =>
      rw [sweep] at kept
      exact Or.inr ⟨ended, kept, last.concat ends⟩
    | some reading =>
      by_cases old : ended + viewAsEndedSeconds < reading.now
      · exact Or.inl ⟨reading, rfl, old⟩
      · right
        refine ⟨ended, ?_, last.concat ends⟩
        simp only [kept, sweep, Option.all_some, old, decide_false, Bool.not_false, Option.filter_some, if_true]

/-- The record of an end lasts until a sweep a day after the reading recorded last. -/
theorem recorded_run {calls : List (SessionCall P)} {later : List (SessionCall P)} {externalId : Text} {ended : Int}
    (once : MintedOnce (calls ++ later)) (recorded : (init.performAll calls).viewAsEnded.find externalId = some ended)
    (last : EndedLast calls externalId ended) :
    SweptAfter calls later externalId ∨
      ∃ ended', (init.performAll (calls ++ later)).viewAsEnded.find externalId = some ended' ∧
        EndedLast (calls ++ later) externalId ended' := by
  induction later using List.reverseRecOn with
  | nil => exact Or.inr ⟨ended, by rwa [List.append_nil], by rwa [List.append_nil]⟩
  | append_singleton later call ih =>
    rw [← List.append_assoc] at once ⊢
    rcases ih once.left with ⟨between, sweep, rest, reading, past, rfl, swept⟩ | ⟨now, found, latest⟩
    · exact Or.inl ⟨between, sweep, rest ++ [call], reading, past, by simp, swept⟩
    · rcases recorded_concat once found latest with ⟨reading, swept, old⟩ | kept
      · exact Or.inl ⟨later, call, [], reading, now, rfl, swept, latest, old⟩
      · exact Or.inr kept

/-- An external id whose view-as session left is remembered until a sweep that reads its clock more than a
day after the end recorded last. -/
theorem view_as_end_remembered (calls : List (SessionCall P)) (call : SessionCall P) (later : List (SessionCall P))
    (externalId : Text) (once : MintedOnce (calls ++ [call] ++ later))
    (ends : EndsViewAs (init.performAll calls) call externalId) :
    (init.performAll (calls ++ [call] ++ later)).sessionViewAsEnded externalId = true ∨
      SweptAfter (calls ++ [call]) later externalId := by
  have recorded := (performed_run once.left).viewed externalId ((endsViewAs_run once.left).mp ends)
  rcases recorded_run once recorded (endedLast_now ends) with swept | ⟨ended, found, -⟩
  · exact Or.inr swept
  · left
    rw [sessionViewAsEnded, Entries.has, found]
    rfl

/-! ## A record that goes back -/

/-- The readings of the sweeps a run makes. -/
def sweepReadings : SessionStore P → List (SessionCall P) → List Int
  | _, [] => []
  | store, call :: rest => ((sweepOf store call).map Reading.now).toList ++ sweepReadings (store.perform call) rest

/-- The end is remembered as long as no sweep reads its clock more than a day after it. -/
def RememberedADay (calls : List (SessionCall P)) (call : SessionCall P) (later : List (SessionCall P))
    (externalId : Text) : Prop :=
  EndsViewAs (init.performAll calls) call externalId →
    (∀ now ∈ sweepReadings (init.performAll (calls ++ [call])) later, ¬ clockOf call + viewAsEndedSeconds < now) →
    (init.performAll (calls ++ [call] ++ later)).sessionViewAsEnded externalId = true

def viewAsOpen (handle : Text) (now : Int) : SessionCall Unit :=
  .openBody ⟨(), "flight".toList, 0, -1, ⟨[], 0⟩, [], handle, handle, ⟨now, 0, 0, false⟩, 10⟩

/-- A connection opens a session and views as a role. -/
def viewing (handle externalId : Text) (now : Int) : List (SessionCall Unit) :=
  [viewAsOpen handle now, .bind externalId handle now, .viewAs handle "analyst".toList]

/-- The connection comes back after its first session ended at 100001. A request to end what it is bound to
read its clock at 100000 and took the lock after that. -/
def comesBack : List (SessionCall Unit) :=
  viewing "b2".toList "conn".toList 100001 ++
    [.endBound "conn".toList "client".toList 100000, .sweep ⟨186401, 0, 0, false⟩]

def firstSession : Session Unit where
  principal := ()
  id := "a1".toList
  expiresAt := 0
  lastUsed := 99990
  door := "flight".toList
  openedAt := 99990
  viewAs := "analyst".toList

private theorem ends_first : EndsViewAs (init.performAll (viewing "a1".toList "conn".toList 99990))
    (.close "a1".toList 100001) "conn".toList :=
  ⟨"a1".toList, firstSession, by decide, by decide, by decide, by decide⟩

theorem view_as_end_remembered_client :
    MintedOnce (viewing "a1".toList "conn".toList 99990 ++ [.close "a1".toList 100001] ++ comesBack) ∧
      ((init.performAll (viewing "a1".toList "conn".toList 99990 ++ [.close "a1".toList 100001] ++
          comesBack)).sessionViewAsEnded "conn".toList = true ∨
        SweptAfter (viewing "a1".toList "conn".toList 99990 ++ [.close "a1".toList 100001]) comesBack "conn".toList) :=
  ⟨by decide, view_as_end_remembered _ _ _ _ (by decide) ends_first⟩

/-- The end at 100001 is forgotten by a sweep at 186401. -/
theorem day_counts_from_last_record :
    ¬ RememberedADay (viewing "a1".toList "conn".toList 99990) (.close "a1".toList 100001) comesBack "conn".toList := by
  intro remembered
  have kept := remembered ends_first (by decide)
  revert kept
  decide

end DuckAcl.SessionStore
