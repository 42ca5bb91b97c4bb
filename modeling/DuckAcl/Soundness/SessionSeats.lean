import DuckAcl.Soundness.SessionLives

/-! # Session seats

The node's cap and a resource group's cap are checked by an open, in one critical section with the
insertion, and the session it replaces is discounted before it ends. So the stored sessions exceed a
cap by one at most, and only while a session that an open replaced is stored still. Refusing is another
matter: the node's count is taken after a sweep whenever it could refuse, and the group's count is
taken of whatever is stored, dead sessions included.
-/

namespace DuckAcl.SessionStore

variable {P : Type}

/-! ## What is counted -/

/-- The sessions of a group, of any age. -/
def inGroup (store : SessionStore P) (group : Text) : Nat :=
  store.sessions.list.countP fun entry => decide (entry.2.limits.charged = group)

/-- The live sessions of the node other than the replaced one. -/
def liveOthers (store : SessionStore P) (request : OpenRequest P) : Nat :=
  store.sessions.list.countP fun entry => !dead request.reading entry.2 && decide (entry.1 ≠ request.replacing)

/-- The live sessions of the request's group other than the replaced one. -/
def liveInGroup (store : SessionStore P) (request : OpenRequest P) : Nat :=
  store.sessions.list.countP fun entry => !dead request.reading entry.2 &&
    (decide (entry.2.limits.charged = request.limits.charged) && decide (entry.1 ≠ request.replacing))

/-- The dead sessions of the request's group other than the replaced one. -/
def deadInGroup (store : SessionStore P) (request : OpenRequest P) : Nat :=
  store.sessions.list.countP fun entry => dead request.reading entry.2 &&
    (decide (entry.2.limits.charged = request.limits.charged) && decide (entry.1 ≠ request.replacing))

/-- An open of the run took its seat and named the handle as the one it replaces. -/
def Replaced (calls : List (SessionCall P)) (handle : Text) : Prop :=
  ∃ before request after, calls = before ++ .openBody request :: after ∧ request.replacing = handle ∧
    ∃ taken, ((init.performAll before).sessionOpenBody request).2 = .ok taken

/-- The cap and the limits of the groups are the same for every open. -/
def ConstantLimits (cap : Int) (groupMax : Text → Nat) (calls : List (SessionCall P)) : Prop :=
  ∀ request, .openBody request ∈ calls → request.cap = cap ∧ request.limits.chargedMax = groupMax request.limits.charged

/-- The node's seats: the cap, or one more while a replaced session is stored still. -/
def NodeSeats (cap : Int) (calls : List (SessionCall P)) : Prop :=
  (init.performAll calls).sessions.list.length ≤ cap ∨
    ((init.performAll calls).sessions.list.length = cap + 1 ∧
      ∃ handle, Replaced calls handle ∧ handle ∈ (init.performAll calls).sessions.keys)

/-- A group's seats: its limit, or one more while a replaced session of the group is stored still. -/
def GroupSeats (groupMax : Text → Nat) (calls : List (SessionCall P)) (group : Text) : Prop :=
  (init.performAll calls).inGroup group ≤ groupMax group ∨
    ((init.performAll calls).inGroup group = groupMax group + 1 ∧
      ∃ handle, Replaced calls handle ∧ (handle, group) ∈ (init.performAll calls).seats)

/-- An open ends no session that is alive at its reading. -/
def EndsNoLive (store : SessionStore P) (request : OpenRequest P) : Prop :=
  ∀ handle, store.sessionAlive handle request.reading = true →
    (store.sessionOpenBody request).1.sessions.find handle = store.sessions.find handle

/-- An open is refused for live sessions only: as many as the cap on the node, or as the limit in the group. -/
def RefusedForLive (store : SessionStore P) (request : OpenRequest P) : Prop :=
  (store.sessionOpenBody request).2.toOption = none →
    request.cap ≤ store.liveOthers request ∨
      (request.limits.charged ≠ [] ∧ request.limits.chargedMax ≤ store.liveInGroup request)

instance (store : SessionStore P) (request : OpenRequest P) : Decidable (RefusedForLive store request) :=
  inferInstanceAs (Decidable (_ → _ ∨ (_ ∧ _)))

/-- The open sweeps, or its group has room, or the group is over its limit by the dead sessions in it. -/
def CountsLive (store : SessionStore P) (request : OpenRequest P) : Prop :=
  store.openSweeps request = true ∨ request.limits.charged = [] ∨
    store.chargedTo request.limits.charged request.replacing < request.limits.chargedMax ∨
    request.limits.chargedMax + store.deadInGroup request ≤ store.chargedTo request.limits.charged request.replacing

/-! ## Seats of a run -/

theorem length_seats (store : SessionStore P) : store.seats.length = store.sessions.list.length :=
  List.length_map _

theorem inGroup_seats (store : SessionStore P) (group : Text) :
    store.inGroup group = store.seats.countP fun held => decide (held.2 = group) := by
  rw [seats, List.countP_map]
  rfl

theorem Replaced.concat {calls : List (SessionCall P)} {handle : Text} (replaced : Replaced calls handle)
    (call : SessionCall P) : Replaced (calls ++ [call]) handle := by
  obtain ⟨before, request, after, rfl, named, taken⟩ := replaced
  exact ⟨before, request, after ++ [call], by simp, named, taken⟩

theorem ConstantLimits.left {cap : Int} {groupMax : Text → Nat} {first second : List (SessionCall P)}
    (constant : ConstantLimits cap groupMax (first ++ second)) : ConstantLimits cap groupMax first :=
  fun request member => constant request (List.mem_append_left _ member)

/-- The seats an operation leaves are fewer, or they are the same. -/
private theorem filter_length_cases {α : Type} (list : List α) (test : α → Bool) :
    list.filter test = list ∨ (list.filter test).length + 1 ≤ list.length := by
  rcases Nat.lt_or_ge (list.filter test).length list.length with fewer | all
  · exact Or.inr fewer
  · exact Or.inl (List.filter_sublist.eq_of_length_le all)

private theorem filter_count_cases {α : Type} (list : List α) (test counted : α → Bool) :
    (∀ item ∈ list, counted item = true → test item = true) ∨
      (list.filter test).countP counted + 1 ≤ list.countP counted := by
  by_cases all : ∀ item ∈ list, counted item = true → test item = true
  · exact Or.inl all
  · right
    push Not at all
    obtain ⟨item, member, counts, dropped⟩ := all
    have parts := List.countP_eq_countP_filter_add list counted test
    have one : 0 < (list.filter fun item => !test item).countP counted :=
      List.countP_pos_iff.mpr ⟨item, List.mem_filter.mpr ⟨member, by simpa using dropped⟩, counts⟩
    omega

/-- What the seats of an open are made of: those the sweep left and its own. -/
private theorem seated_open {store : SessionStore P} {call : SessionCall P} {entry : Text × Session P}
    (seats : seated store call = some entry) : ∃ request, call = .openBody request ∧
      entry = (request.handle, request.session) ∧ (store.sweptForOpen request).openRefusal request = none := by
  cases call with
  | openBody request =>
    simp only [seated] at seats
    split at seats
    · cases seats
    · next admitted =>
      cases seats
      exact ⟨request, rfl, rfl, admitted⟩
  | _ => cases seats

private theorem openRefusal_eq_none {store : SessionStore P} {request : OpenRequest P} :
    store.openRefusal request = none ↔ ¬ (0 < request.cap ∧ request.cap ≤ store.occupied request.replacing) ∧
      ¬ (request.limits.charged ≠ [] ∧
        request.limits.chargedMax ≤ store.chargedTo request.limits.charged request.replacing) := by
  unfold openRefusal
  split_ifs with node group
  · simp [node]
  · simp [group]
  · simp [node, group]

private theorem length_le_occupied (store : SessionStore P) (replacing : Text) :
    store.sessions.list.length ≤ store.occupied replacing ∨
      (store.sessions.list.length = store.occupied replacing + 1 ∧ replacing ∈ store.sessions.keys) := by
  unfold occupied
  split_ifs with discounted
  · right
    have stored := Entries.has_iff.mp discounted.2
    have some : 0 < store.sessions.list.length := by
      rw [← List.length_map]
      exact List.length_pos_of_mem stored
    exact ⟨by omega, stored⟩
  · exact Or.inl (by omega)

/-- The group's sessions are those the open counts, and the replaced one if it is of the group. -/
private theorem inGroup_le_chargedTo (store : SessionStore P) (group replacing : Text) :
    store.inGroup group ≤ store.chargedTo group replacing ∨
      (store.inGroup group = store.chargedTo group replacing + 1 ∧ (replacing, group) ∈ store.seats) := by
  have parts := List.countP_eq_countP_filter_add store.sessions.list
    (fun entry => decide (entry.2.limits.charged = group)) fun entry => decide (entry.1 ≠ replacing)
  have counted : (store.sessions.list.filter fun entry => decide (entry.1 ≠ replacing)).countP
      (fun entry => decide (entry.2.limits.charged = group)) = store.chargedTo group replacing := by
    rw [List.countP_filter]
    rfl
  rw [counted] at parts
  -- the replaced session is at most one entry
  obtain ⟨replaced, isReplaced⟩ : ∃ replaced, replaced = store.sessions.list.filter fun entry =>
    !decide (entry.1 ≠ replacing) := ⟨_, rfl⟩
  rw [← isReplaced] at parts
  have named : ∀ entry ∈ replaced, entry.1 = replacing ∧ entry ∈ store.sessions.list := by
    intro entry member
    rw [isReplaced, List.mem_filter] at member
    exact ⟨by simpa using member.2, member.1⟩
  have alone : replaced.length ≤ 1 := by
    have distinct : (replaced.map Prod.fst).Nodup := by
      rw [isReplaced]
      exact (List.filter_sublist.map Prod.fst).nodup store.sessions.distinct
    have same : ∀ handle ∈ replaced.map Prod.fst, handle = replacing := by
      intro handle member
      obtain ⟨entry, kept, rfl⟩ := List.mem_map.mp member
      exact (named entry kept).1
    rw [List.eq_replicate_of_mem same, List.length_map] at distinct
    exact List.nodup_replicate.mp distinct
  have bounded := (List.countP_le_length (l := replaced)
    (p := fun entry => decide (entry.2.limits.charged = group))).trans alone
  have total : store.inGroup group = _ := parts
  by_cases none : replaced.countP (fun entry => decide (entry.2.limits.charged = group)) = 0
  · exact Or.inl (by omega)
  · right
    refine ⟨by omega, ?_⟩
    obtain ⟨entry, kept, charged⟩ := List.countP_pos_iff.mp (Nat.pos_of_ne_zero none)
    obtain ⟨same, stored⟩ := named entry kept
    refine List.mem_map.mpr ⟨entry, stored, ?_⟩
    rw [seat, same, of_decide_eq_true charged]

/-- The run up to an open that took its seat names what it replaces. -/
private theorem replaced_now {calls : List (SessionCall P)} {request : OpenRequest P}
    (admitted : ((init.performAll calls).sweptForOpen request).openRefusal request = none) :
    Replaced (calls ++ [.openBody request]) request.replacing := by
  refine ⟨calls, request, [], rfl, rfl, request.handle, ?_⟩
  simp only [sessionOpenBody, admitted]

section Run

variable {cap : Int} {groupMax : Text → Nat} {calls : List (SessionCall P)} {call : SessionCall P}

/-- The seats that stay are the seats of the open's swept store. -/
private theorem staying_seats (store : SessionStore P) (request : OpenRequest P) :
    (store.sweptForOpen request).seats =
      store.seats.filter fun held => !departs (departures store (.openBody request)) held.1 :=
  (performs_sweptForOpen store request).seats

private theorem nodeSeats_concat (positive : 0 < cap) (once : MintedOnce (calls ++ [call]))
    (constant : ConstantLimits cap groupMax (calls ++ [call])) (held : NodeSeats cap calls) :
    NodeSeats cap (calls ++ [call]) := by
  have done := performed_run once
  unfold NodeSeats at held ⊢
  rw [← length_seats] at held ⊢
  rw [← keys_seats] at held ⊢
  rw [done.seats]
  cases seats : seated (init.performAll calls) call with
  | none =>
    simp only [Option.map_none, Option.toList_none, List.nil_append]
    rcases filter_length_cases (init.performAll calls).seats
      (fun held => !departs (departures (init.performAll calls) call) held.1) with same | fewer
    · rw [same]
      rcases held with within | ⟨beyond, handle, replaced, stored⟩
      · exact Or.inl within
      · exact Or.inr ⟨beyond, handle, replaced.concat call, stored⟩
    · left
      rcases held with within | ⟨beyond, -⟩ <;> omega
  | some entry =>
    obtain ⟨request, rfl, rfl, admitted⟩ := seated_open seats
    obtain ⟨sameCap, -⟩ := constant request (List.mem_append_right _ (List.mem_singleton_self _))
    have room := (openRefusal_eq_none.mp admitted).1
    rw [sameCap] at room
    simp only [Option.map_some, Option.toList_some, List.singleton_append, ← staying_seats, List.length_cons,
      List.map_cons]
    rcases length_le_occupied ((init.performAll calls).sweptForOpen request) request.replacing with below | ⟨above, stored⟩
    · rw [← length_seats] at below
      left
      omega
    · rw [← length_seats] at above
      by_cases below : (((init.performAll calls).sweptForOpen request).occupied request.replacing + 1 : Int) < cap
      · left
        omega
      · right
        refine ⟨by omega, request.replacing, replaced_now admitted, List.mem_cons_of_mem _ ?_⟩
        rw [keys_seats]
        exact stored

private theorem groupSeats_concat {group : Text} (charged : group ≠ []) (once : MintedOnce (calls ++ [call]))
    (constant : ConstantLimits cap groupMax (calls ++ [call])) (held : GroupSeats groupMax calls group) :
    GroupSeats groupMax (calls ++ [call]) group := by
  have done := performed_run once
  unfold GroupSeats at held ⊢
  rw [inGroup_seats] at held ⊢
  rw [done.seats]
  -- the seats that stay are within the limit, or the replaced session is among them
  have stay : ∀ test : Text × Text → Bool,
      ((init.performAll calls).seats.filter test).countP (fun held => decide (held.2 = group)) ≤ groupMax group ∨
        (((init.performAll calls).seats.filter test).countP (fun held => decide (held.2 = group)) = groupMax group + 1 ∧
          ∃ handle, Replaced calls handle ∧ (handle, group) ∈ (init.performAll calls).seats.filter test) := by
    intro test
    rcases filter_count_cases (init.performAll calls).seats test (fun held => decide (held.2 = group)) with all | fewer
    · have same : ((init.performAll calls).seats.filter test).countP (fun held => decide (held.2 = group)) =
          (init.performAll calls).seats.countP fun held => decide (held.2 = group) := by
        rw [List.countP_filter]
        refine List.countP_congr fun held member => ?_
        have kept := all held member
        simp only [Bool.and_eq_true]
        exact ⟨fun both => both.1, fun counts => ⟨counts, kept counts⟩⟩
      rw [same]
      rcases held with within | ⟨beyond, handle, replaced, stored⟩
      · exact Or.inl within
      · exact Or.inr ⟨beyond, handle, replaced, List.mem_filter.mpr ⟨stored, all _ stored (by simp)⟩⟩
    · left
      rcases held with within | ⟨beyond, -⟩ <;> omega
  cases seats : seated (init.performAll calls) call with
  | none =>
    simp only [Option.map_none, Option.toList_none, List.nil_append]
    rcases stay fun held => !departs (departures (init.performAll calls) call) held.1 with
      within | ⟨beyond, handle, replaced, stored⟩
    · exact Or.inl within
    · exact Or.inr ⟨beyond, handle, replaced.concat call, stored⟩
  | some entry =>
    obtain ⟨request, rfl, rfl, admitted⟩ := seated_open seats
    obtain ⟨-, sameMax⟩ := constant request (List.mem_append_right _ (List.mem_singleton_self _))
    simp only [Option.map_some, Option.toList_some, List.singleton_append, List.countP_cons]
    by_cases ours : request.limits.charged = group
    · have room := (openRefusal_eq_none.mp admitted).2
      rw [sameMax, ours] at room
      have fits : ((init.performAll calls).sweptForOpen request).chargedTo group request.replacing < groupMax group := by
        by_contra full
        exact room ⟨charged, Nat.le_of_not_lt full⟩
      have counts : decide ((seat (request.handle, request.session)).2 = group) = true := decide_eq_true ours
      rw [if_pos counts, ← staying_seats, ← inGroup_seats]
      rcases inGroup_le_chargedTo ((init.performAll calls).sweptForOpen request) group request.replacing with
        below | ⟨above, stored⟩
      · exact Or.inl (by omega)
      · by_cases last : ((init.performAll calls).sweptForOpen request).inGroup group + 1 ≤ groupMax group
        · exact Or.inl last
        · right
          exact ⟨by omega, request.replacing, replaced_now admitted, List.mem_cons_of_mem _ stored⟩
    · have other : decide ((seat (request.handle, request.session)).2 = group) = false := decide_eq_false ours
      rw [other, if_neg Bool.false_ne_true, Nat.add_zero]
      rcases stay fun held => !departs (departures (init.performAll calls) (.openBody request)) held.1 with
        within | ⟨beyond, handle, replaced, stored⟩
      · exact Or.inl within
      · exact Or.inr ⟨beyond, handle, replaced.concat _, List.mem_cons_of_mem _ stored⟩

theorem seats_run (positive : 0 < cap) (once : MintedOnce calls) (constant : ConstantLimits cap groupMax calls) :
    NodeSeats cap calls ∧ ∀ group, group ≠ [] → GroupSeats groupMax calls group := by
  induction calls using List.reverseRecOn with
  | nil => exact ⟨Or.inl (Int.le_of_lt positive), fun _ _ => Or.inl (Nat.zero_le _)⟩
  | append_singleton calls call ih =>
    obtain ⟨node, groups⟩ := ih once.left constant.left
    exact ⟨nodeSeats_concat positive once constant node,
      fun group charged => groupSeats_concat charged once constant (groups group charged)⟩

end Run

/-! ## Opening -/

theorem sweepLocked_list (store : SessionStore P) (reading : Reading) :
    (store.sweepLocked reading).1.sessions.list = store.sessions.list.filter fun entry => !dead reading entry.2 := by
  rw [sweepLocked_eq]
  dsimp only
  rw [left_sessions]
  refine List.filter_congr fun entry member => ?_
  have judged : departs (departures store (.sweep reading)) entry.1 = dead reading entry.2 :=
    departs_dead (Entries.find_eq_some.mpr member)
  rw [judged]

private theorem sweptForOpen_find {store : SessionStore P} {request : OpenRequest P} {handle : Text}
    (alive : store.sessionAlive handle request.reading = true) :
    (store.sweptForOpen request).sessions.find handle = store.sessions.find handle := by
  obtain ⟨session, found, lives⟩ := sessionAlive_iff.mp alive
  unfold sweptForOpen
  split
  · rw [found, Entries.find_eq_some, sweepLocked_list, List.mem_filter]
    exact ⟨Entries.find_eq_some.mp found, by simp [lives]⟩
  · rfl

theorem endsNoLive {store : SessionStore P} {request : OpenRequest P}
    (fresh : request.handle ∉ store.sessions.keys) : EndsNoLive store request := by
  intro handle alive
  unfold sessionOpenBody
  dsimp only
  cases (store.sweptForOpen request).openRefusal request with
  | some refusal => exact sweptForOpen_find alive
  | none =>
    obtain ⟨session, found, -⟩ := sessionAlive_iff.mp alive
    have apart : handle ≠ request.handle := fun same =>
      fresh (same ▸ List.mem_map_of_mem (Entries.find_eq_some.mp found))
    dsimp only
    rw [Entries.find_put, if_neg apart]
    exact sweptForOpen_find alive

private theorem refused_iff {store : SessionStore P} {request : OpenRequest P} :
    (store.sessionOpenBody request).2.toOption = none ↔
      (store.sweptForOpen request).openRefusal request ≠ none := by
  unfold sessionOpenBody
  dsimp only
  cases (store.sweptForOpen request).openRefusal request with
  | some refusal => simp [Except.toOption]
  | none => simp [Except.toOption]

/-- Whoever holds a seat of the node is not the one replaced. -/
private theorem occupied_le_others {store : SessionStore P} (named : [] ∉ store.sessions.keys) (replacing : Text) :
    store.occupied replacing ≤ store.sessions.list.countP fun entry => decide (entry.1 ≠ replacing) := by
  have parts := List.length_eq_countP_add_countP (fun entry : Text × Session P => decide (entry.1 ≠ replacing))
    (l := store.sessions.list)
  obtain ⟨aside, isAside⟩ : ∃ aside, aside = store.sessions.list.countP fun entry =>
    decide ¬ decide (entry.1 ≠ replacing) = true := ⟨_, rfl⟩
  rw [← isAside] at parts
  have counted : aside = store.sessions.keys.count replacing := by
    rw [isAside, Entries.keys, List.count, List.countP_map]
    refine List.countP_congr fun entry _ => ?_
    simp
  have alone : aside ≤ 1 := counted ▸ List.nodup_iff_count_le_one.mp store.sessions.distinct replacing
  unfold occupied
  split_ifs with discounted
  · omega
  · have absent : replacing ∉ store.sessions.keys := by
      intro stored
      refine discounted ⟨?_, Entries.has_iff.mpr stored⟩
      rintro rfl
      exact named stored
    rw [List.count_eq_zero_of_not_mem absent] at counted
    omega

private theorem chargedTo_eq (store : SessionStore P) (request : OpenRequest P) :
    store.chargedTo request.limits.charged request.replacing =
      store.liveInGroup request + store.deadInGroup request := by
  have parts := List.countP_eq_countP_filter_add store.sessions.list
    (fun entry => decide (entry.2.limits.charged = request.limits.charged) && decide (entry.1 ≠ request.replacing))
    fun entry => !dead request.reading entry.2
  simp only [List.countP_filter, Bool.not_not] at parts
  refine parts.trans ?_
  unfold liveInGroup deadInGroup
  congr 1
  all_goals
    refine List.countP_congr fun entry _ => ?_
    simp only [Bool.and_eq_true]
    exact and_comm

/-- After a sweep, whoever the open counts is alive. -/
private theorem refusedForLive_of_sweeps {store : SessionStore P} {request : OpenRequest P}
    (named : [] ∉ store.sessions.keys) (sweeps : store.openSweeps request = true) : RefusedForLive store request := by
  intro refused
  have why := refused_iff.mp refused
  rw [Ne, openRefusal_eq_none, not_and_or, not_not, not_not] at why
  have swept : (store.sweptForOpen request).sessions.list =
      store.sessions.list.filter fun entry => !dead request.reading entry.2 := by
    rw [sweptForOpen, if_pos sweeps, sweepLocked_list]
  have stillNamed : [] ∉ (store.sweptForOpen request).sessions.keys := fun stored => named (sweptForOpen_keys stored)
  rcases why with ⟨-, full⟩ | ⟨charged, full⟩
  · left
    have others := occupied_le_others stillNamed request.replacing
    rw [swept, List.countP_filter] at others
    have counted : store.liveOthers request = store.sessions.list.countP fun entry =>
        decide (entry.1 ≠ request.replacing) && !dead request.reading entry.2 := by
      refine List.countP_congr fun entry _ => ?_
      simp only [Bool.and_eq_true]
      exact and_comm
    rw [counted]
    omega
  · right
    refine ⟨charged, full.trans (Nat.le_of_eq ?_)⟩
    unfold chargedTo liveInGroup
    rw [swept, List.countP_filter]
    refine List.countP_congr fun entry _ => ?_
    simp only [Bool.and_eq_true]
    exact and_comm

theorem refusedForLive_iff {store : SessionStore P} {request : OpenRequest P} (named : [] ∉ store.sessions.keys)
    (positive : 0 < request.cap) : RefusedForLive store request ↔ CountsLive store request := by
  by_cases sweeps : store.openSweeps request = true
  · exact iff_of_true (refusedForLive_of_sweeps named sweeps) (Or.inl sweeps)
  · -- without a sweep the node has room, so only the group can refuse
    have room : (store.sessions.list.length : Int) < request.cap := by
      by_contra full
      have due : request.cap ≤ (store.sessions.list.length : Int) := Int.not_lt.mp full
      exact sweeps (by simp [openSweeps, positive, due])
    have live : store.liveOthers request ≤ store.sessions.list.length := List.countP_le_length
    have seats : store.occupied request.replacing ≤ store.sessions.list.length := Nat.sub_le _ _
    have counted := chargedTo_eq store request
    unfold RefusedForLive CountsLive
    rw [refused_iff, sweptForOpen, if_neg sweeps, Ne, openRefusal_eq_none, not_and_or, not_not, not_not]
    simp only [sweeps, Bool.false_eq_true, false_or]
    constructor
    · intro refused
      by_cases charged : request.limits.charged = []
      · exact Or.inl charged
      · right
        by_cases full : request.limits.chargedMax ≤ store.chargedTo request.limits.charged request.replacing
        · rcases refused (Or.inr ⟨charged, full⟩) with node | ⟨-, group⟩ <;> omega
        · omega
    · rintro counts (⟨-, node⟩ | ⟨charged, full⟩)
      · omega
      · rcases counts with free | below | beyond
        · exact (charged free).elim
        · omega
        · exact Or.inr ⟨charged, by omega⟩

/-- The seats of every run, what an open ends, and when it is refused for live sessions only. -/
theorem session_seats (cap : Int) (positive : 0 < cap) (groupMax : Text → Nat) (calls : List (SessionCall P))
    (once : MintedOnce calls) (constant : ConstantLimits cap groupMax calls) :
    NodeSeats cap calls ∧ (∀ group, group ≠ [] → GroupSeats groupMax calls group) ∧
      ∀ request : OpenRequest P, MintedOnce (calls ++ [.openBody request]) →
        ConstantLimits cap groupMax (calls ++ [.openBody request]) →
        EndsNoLive (init.performAll calls) request ∧
          (RefusedForLive (init.performAll calls) request ↔ CountsLive (init.performAll calls) request) := by
  obtain ⟨node, groups⟩ := seats_run positive once constant
  refine ⟨node, groups, ?_⟩
  intro request next same
  have stored := stored_minted once
  refine ⟨endsNoLive fun found => next.fresh rfl (stored _ found), ?_⟩
  refine refusedForLive_iff (fun found => once.2 (stored _ found)) ?_
  rw [(same request (List.mem_append_right _ (List.mem_singleton_self _))).1]
  exact positive

/-- A session of group `etl`, and half a minute later a second one, on a node that has ten seats. -/
def etlOpen (handle : Text) (now : Int) : OpenRequest Unit :=
  ⟨(), "flight".toList, 0, -1, ⟨"etl".toList, 1⟩, [], handle, handle, ⟨now, 0, 10, true⟩, 10⟩

private theorem etl_constant (handle other : Text) (now later : Int) :
    ConstantLimits 10 (fun _ => 1) [.openBody (etlOpen handle now), .openBody (etlOpen other later)] := by
  intro request member
  simp only [List.mem_cons, SessionCall.openBody.injEq, List.not_mem_nil, or_false] at member
  rcases member with rfl | rfl <;> exact ⟨rfl, rfl⟩

theorem session_seats_etl :
    MintedOnce [.openBody (etlOpen "a1".toList 1000)] ∧ NodeSeats 10 [.openBody (etlOpen "a1".toList 1000)] ∧
      EndsNoLive (init.performAll [.openBody (etlOpen "a1".toList 1000)]) (etlOpen "b2".toList 1005) := by
  have seats := session_seats 10 (by decide) (fun _ => 1) [.openBody (etlOpen "a1".toList 1000)] (by decide)
    (@ConstantLimits.left Unit 10 (fun _ => 1) _ [_] (etl_constant "a1".toList "b2".toList 1000 1005))
  exact ⟨by decide, seats.1, (seats.2.2 _ (by decide) (etl_constant "a1".toList "b2".toList 1000 1005)).1⟩

/-- The group's only session is idle, and its seat is refused all the same. -/
theorem idle_session_refuses :
    MintedOnce [.openBody (etlOpen "a1".toList 1000), .openBody (etlOpen "b2".toList 1030)] ∧
      ConstantLimits 10 (fun _ => 1) [.openBody (etlOpen "a1".toList 1000), .openBody (etlOpen "b2".toList 1030)] ∧
      ¬ RefusedForLive (init.performAll [.openBody (etlOpen "a1".toList 1000)]) (etlOpen "b2".toList 1030) :=
  ⟨by decide, etl_constant "a1".toList "b2".toList 1000 1030, by decide⟩

end DuckAcl.SessionStore
