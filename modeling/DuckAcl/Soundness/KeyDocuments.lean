import DuckAcl.Model.KeyDocuments

/-! # The key documents move forward

A call writes its own copy back after a read of any length. Nothing tells it that another call stored a
later document meanwhile, or that the entry was dropped and is there again. Where that has not happened,
the documents stored are in the order their reads began, and after a drop only documents read after it
are stored, or served to the calls that come after it. A failed early read marks a document that is still
good, so whether it is served then depends on how stale a document may be.
-/

namespace DuckAcl

open Runs

/-- The drops, before some moment, that name the issuer a document was read for came before its read. -/
def JwksEntry.After (entry : JwksEntry) (drops : List (ℕ × Text)) (moment : ℕ) : Prop :=
  entry.keysJson ≠ [] → ∀ drop ∈ drops, drop.1 < moment → dropNames drop.2 entry.reader = true → drop.1 < entry.readAt

/-- A document is served within its interval, or after a failed read within what may be stale. -/
def JwksServed.Current (served : JwksServed) : Prop :=
  served.now - served.entry.fetchedAt ≤ served.refresh ∨
    served.entry.error ≠ [] ∧ served.now - served.entry.fetchedAt ≤ served.maxStale

/-- A document within its interval, with the key a call looks for. -/
def JwksEntry.Good (hasKid : Text → Text → Bool) (entry : JwksEntry) (kid : Text) (isJwks : Bool) (now refresh : ℤ) : Prop :=
  entry.keysJson ≠ [] ∧ now - entry.fetchedAt < refresh ∧ (isJwks = true → hasKid entry.keysJson kid = true)

namespace JwksEntry

variable {entry : JwksEntry} {drops : List (ℕ × Text)} {moment : ℕ}

/-- When all drops are before the moment, it does not matter which it is. -/
theorem After.later (after : entry.After drops moment) (past : ∀ drop ∈ drops, drop.1 < moment) (later : ℕ) :
    entry.After drops later :=
  fun document drop member _ names => after document drop member (past drop member) names

/-- A drop after the moment does not matter. -/
theorem After.dropped (after : entry.After drops moment) {instant : ℕ} (past : moment ≤ instant) (issuer : Text) :
    entry.After (drops ++ [(instant, issuer)]) moment := by
  intro document drop member early names
  rcases List.mem_append.mp member with old | new
  · exact after document drop old early names
  · obtain rfl := List.mem_singleton.mp new
    exact absurd early (not_lt.mpr past)

end JwksEntry

instance (hasKid : Text → Text → Bool) (entry : JwksEntry) (kid : Text) (isJwks : Bool) (now refresh : ℤ) :
    Decidable (entry.Good hasKid kid isJwks now refresh) :=
  inferInstanceAs (Decidable (_ ∧ _ ∧ _))

/-! ## The condition -/

namespace JwksCache

/-- A read that ends finds no later document stored, and no drop of its issuer since it began. A failed one
finds the entry gone, has no document to put back, or puts back the latest one, not dropped since. -/
def Undisturbed (cache : JwksCache) (call : JwksCall) (readAt : ℕ) : Except Text Text → Prop
  | .ok document => document = [] ∨ (∀ stamp ∈ cache.stored, stamp ≤ readAt) ∧
    ∀ drop ∈ cache.drops, dropNames drop.2 call.issuer = true → drop.1 < readAt
  | .error _ => cache.entry = none ∨ call.entry.keysJson = [] ∨ (∀ stamp ∈ cache.stored, stamp ≤ call.entry.readAt) ∧
    ∀ drop ∈ cache.drops, dropNames drop.2 call.entry.reader = true → drop.1 < call.entry.readAt

variable (hasKid : Text → Text → Bool)

/-- The condition on a step. A refresh interval is not negative, and a good document that an early read
failed to renew is not too stale; a drop that names the issuer a document was read for finds its entry
under that name. -/
def Meets (cache : JwksCache) : JwksEvent → Prop
  | .refuse _ _ _ | .read _ => True
  | .start issuer kid isJwks now refresh maxStale =>
    0 ≤ refresh ∧ ((cache.copy issuer).Good hasKid kid isJwks now refresh →
      (cache.copy issuer).error = [] ∨ 0 < maxStale ∧ now - (cache.copy issuer).fetchedAt ≤ maxStale)
  | .finish index result _ =>
    ∀ call ∈ cache.calls[index]?, ∀ readAt ∈ call.readAt, cache.Undisturbed call readAt result
  | .drop issuer => ∀ entry ∈ cache.entry, entry.keysJson ≠ [] → dropNames issuer entry.reader = true →
    dropNames issuer entry.issuer = true

instance (cache : JwksCache) (call : JwksCall) (readAt : ℕ) (result : Except Text Text) :
    Decidable (cache.Undisturbed call readAt result) :=
  match result with
  | .ok _ => inferInstanceAs (Decidable (_ ∨ _))
  | .error _ => inferInstanceAs (Decidable (_ ∨ _))

instance (cache : JwksCache) (event : JwksEvent) : Decidable (cache.Meets hasKid event) :=
  match event with
  | .refuse _ _ _ | .read _ => .isTrue trivial
  | .start _ _ _ _ _ _ => inferInstanceAs (Decidable (_ ∧ _))
  | .finish index result _ => inferInstanceAs (Decidable
      (∀ call ∈ cache.calls[index]?, ∀ readAt ∈ call.readAt, cache.Undisturbed call readAt result))
  | .drop issuer => inferInstanceAs (Decidable
      (∀ entry ∈ cache.entry, entry.keysJson ≠ [] → dropNames issuer entry.reader = true →
        dropNames issuer entry.issuer = true))

/-! ## The invariant -/

/-- What holds in every state of a run that meets the condition. -/
structure Kept (cache : JwksCache) : Prop where
  dropsPast : ∀ drop ∈ cache.drops, drop.1 < cache.moment
  started : ∀ call ∈ cache.calls, call.started < cache.moment
  refresh : ∀ call ∈ cache.calls, 0 ≤ call.refresh
  entryAfter : ∀ entry ∈ cache.entry, entry.After cache.drops cache.moment
  callsAfter : ∀ call ∈ cache.calls, call.entry.After cache.drops call.started
  servedStarted : ∀ served ∈ cache.served, served.started < cache.moment
  servedAfter : ∀ served ∈ cache.served, served.entry.After cache.drops served.started
  tried : ∀ entry ∈ cache.entry, entry.error = [] → entry.keysJson = [] ∨ entry.triedAt = entry.fetchedAt
  ordered : cache.stored.Pairwise (· ≤ ·)
  latest : ∀ entry ∈ cache.entry, entry.keysJson ≠ [] → cache.stored.getLast? = some entry.readAt
  current : ∀ served ∈ cache.served, served.Current

theorem kept_initial : Kept {} := by
  constructor <;> simp

variable {hasKid} {cache : JwksCache}


theorem Kept.copy_after (kept : cache.Kept) (issuer : Text) : (cache.copy issuer).After cache.drops cache.moment := by
  match found : cache.entry with
  | none => exact fun document => absurd (by simp [copy, found]) document
  | some entry =>
    have after := kept.entryAfter entry found
    unfold copy
    rw [found]
    exact after

theorem Kept.copy_tried (kept : cache.Kept) (issuer : Text) (error : (cache.copy issuer).error = []) :
    (cache.copy issuer).keysJson = [] ∨ (cache.copy issuer).triedAt = (cache.copy issuer).fetchedAt := by
  unfold copy at error ⊢
  match found : cache.entry with
  | none => exact .inl rfl
  | some entry =>
    rw [found] at error
    exact kept.tried entry found error

/-! ## The steps -/

/-- Time passes. -/
theorem Kept.tick (kept : cache.Kept) : Kept { cache with moment := cache.moment + 1 } where
  dropsPast := fun drop member => (kept.dropsPast drop member).trans (Nat.lt_succ_self _)
  started := fun call member => (kept.started call member).trans (Nat.lt_succ_self _)
  refresh := kept.refresh
  entryAfter := fun entry found => (kept.entryAfter entry found).later kept.dropsPast _
  callsAfter := kept.callsAfter
  servedStarted := fun served member => (kept.servedStarted served member).trans (Nat.lt_succ_self _)
  servedAfter := kept.servedAfter
  tried := kept.tried
  ordered := kept.ordered
  latest := kept.latest
  current := kept.current

/-- A call that is done serves a current document, or nothing. -/
theorem Kept.answer (kept : cache.Kept) {entry : JwksEntry} {started : ℕ} {now refresh maxStale : ℤ}
    (past : started < cache.moment) (after : entry.After cache.drops started)
    (current : entry.serves now maxStale = true → JwksServed.Current { entry, started, now, refresh, maxStale }) :
    (cache.answer entry started now refresh maxStale).Kept := by
  unfold JwksCache.answer
  split_ifs with serves
  · refine ⟨kept.dropsPast, kept.started, kept.refresh, kept.entryAfter, kept.callsAfter, ?_, ?_, kept.tried,
      kept.ordered, kept.latest, ?_⟩
    all_goals
      intro served member
      rcases List.mem_append.mp member with old | new
    · exact kept.servedStarted served old
    · obtain rfl := List.mem_singleton.mp new
      exact past
    · exact kept.servedAfter served old
    · obtain rfl := List.mem_singleton.mp new
      exact after
    · exact kept.current served old
    · obtain rfl := List.mem_singleton.mp new
      exact current serves
  · exact kept

theorem serves_iff {entry : JwksEntry} {now maxStale : ℤ} : entry.serves now maxStale = true ↔
    entry.keysJson ≠ [] ∧ (entry.error ≠ [] → 0 < maxStale ∧ now - entry.fetchedAt ≤ maxStale) := by
  rw [JwksEntry.serves, decide_eq_true_iff]
  refine and_congr_right fun _ => ⟨fun fresh marked => ?_, fun fresh stale => ?_⟩
  · constructor
    · by_contra low
      exact fresh ⟨marked, .inl (by omega)⟩
    · by_contra old
      exact fresh ⟨marked, .inr (by omega)⟩
  · obtain ⟨low, old⟩ := fresh stale.1
    rcases stale.2 with none | beyond
    · omega
    · omega

/-- What a call serves without a read is current. -/
theorem Kept.current_copy (kept : cache.Kept) {issuer kid : Text} {isJwks : Bool} {now refresh maxStale : ℤ}
    (interval : 0 ≤ refresh) (unread : ¬(cache.copy issuer).reads hasKid kid isJwks now refresh = true)
    (serves : (cache.copy issuer).serves now maxStale = true) (started : ℕ) :
    JwksServed.Current { entry := cache.copy issuer, started, now, refresh, maxStale } := by
  obtain ⟨document, stale⟩ := serves_iff.mp serves
  unfold JwksServed.Current
  dsimp only
  by_cases expired : refresh ≤ now - (cache.copy issuer).fetchedAt
  · -- it was not read although its time is over, so it was tried after the call began
    have beyond : (cache.copy issuer).expired now refresh = true := decide_eq_true (.inr expired)
    have early : now - (cache.copy issuer).triedAt < 0 := by
      simp only [JwksEntry.reads, JwksEntry.rotated, beyond, Bool.not_true, Bool.and_false, Bool.false_and, Bool.true_or,
        Bool.true_and, Bool.false_eq_true, ↓reduceIte, decide_eq_true_eq] at unread
      omega
    by_cases error : (cache.copy issuer).error = []
    · have tried := (kept.copy_tried issuer error).resolve_left document
      omega
    · exact .inr ⟨error, (stale error).2⟩
  · exact .inl (by omega)

theorem Kept.start (kept : cache.Kept) {issuer kid : Text} {isJwks : Bool} {now refresh maxStale : ℤ} {next : JwksCache}
    (interval : 0 ≤ refresh) (stepped : cache.step hasKid (.start issuer kid isJwks now refresh maxStale) = some next) :
    next.Kept := by
  simp only [step] at stepped
  split_ifs at stepped with reads
  · obtain rfl := Option.some.inj stepped
    have ticked := kept.tick
    refine ⟨ticked.dropsPast, ?_, ?_, ticked.entryAfter, ?_, ticked.servedStarted, ticked.servedAfter, ticked.tried,
      ticked.ordered, ticked.latest, ticked.current⟩
    all_goals
      intro call member
      rcases List.mem_append.mp member with old | new
    · exact ticked.started call old
    · obtain rfl := List.mem_singleton.mp new
      exact Nat.lt_succ_self _
    · exact ticked.refresh call old
    · obtain rfl := List.mem_singleton.mp new
      exact interval
    · exact ticked.callsAfter call old
    · obtain rfl := List.mem_singleton.mp new
      exact kept.copy_after issuer
  · obtain rfl := Option.some.inj stepped
    exact kept.tick.answer (Nat.lt_succ_self _) (kept.copy_after issuer) fun serves =>
      kept.current_copy interval reads serves _

theorem Kept.read (kept : cache.Kept) {index : ℕ} {call : JwksCall} (found : cache.calls[index]? = some call) :
    Kept
      { cache with
        moment := cache.moment + 1
        calls := cache.calls.set index { call with readAt := some cache.moment } } := by
  have ticked := kept.tick
  have known := List.mem_of_getElem? found
  have among : ∀ other ∈ cache.calls.set index { call with readAt := some cache.moment }, ∃ old ∈ cache.calls,
      other.started = old.started ∧ other.refresh = old.refresh ∧ other.entry = old.entry := by
    intro other member
    rcases List.mem_or_eq_of_mem_set member with old | rfl
    · exact ⟨other, old, rfl, rfl, rfl⟩
    · exact ⟨call, known, rfl, rfl, rfl⟩
  refine ⟨ticked.dropsPast, ?_, ?_, ticked.entryAfter, ?_, ticked.servedStarted, ticked.servedAfter, ticked.tried,
    ticked.ordered, ticked.latest, ticked.current⟩
  all_goals
    intro other member
    obtain ⟨old, there, started, refresh, entry⟩ := among other member
  · rw [started]
    exact ticked.started old there
  · rw [refresh]
    exact kept.refresh old there
  · rw [entry, started]
    exact kept.callsAfter old there

/-- The write-back of an entry whose document is the latest and was not dropped. -/
private theorem Kept.write (kept : cache.Kept) {index : ℕ} {entry : JwksEntry}
    (after : entry.After cache.drops cache.moment)
    (tried : entry.error = [] → entry.keysJson = [] ∨ entry.triedAt = entry.fetchedAt)
    (latest : entry.keysJson ≠ [] → ∀ stamp ∈ cache.stored, stamp ≤ entry.readAt) :
    Kept
      { cache with
        moment := cache.moment + 1
        entry := some entry
        calls := cache.calls.eraseIdx index
        stored := if entry.keysJson = [] then cache.stored else cache.stored ++ [entry.readAt] } := by
  have ticked := kept.tick
  have fewer : ∀ call ∈ cache.calls.eraseIdx index, call ∈ cache.calls :=
    fun call member => (List.eraseIdx_sublist _ _).subset member
  refine ⟨ticked.dropsPast, fun call member => ticked.started call (fewer call member),
    fun call member => ticked.refresh call (fewer call member), ?_, fun call member => ticked.callsAfter call (fewer call member), ticked.servedStarted, ticked.servedAfter, ?_, ?_, ?_,
    ticked.current⟩
  · intro other same
    obtain rfl := Option.some.inj same
    exact after.later kept.dropsPast _
  · intro other same
    obtain rfl := Option.some.inj same
    exact tried
  · dsimp only
    split_ifs with none
    · exact kept.ordered
    · refine List.pairwise_append.mpr ⟨kept.ordered, List.pairwise_singleton _ _, fun stamp old last new => ?_⟩
      obtain rfl := List.mem_singleton.mp new
      exact latest none stamp old
  · intro other same document
    obtain rfl := Option.some.inj same
    dsimp only
    rw [if_neg document, List.getLast?_concat]

/-- The entry after a read: its document was read after the drops and after the documents stored. -/
private theorem written_after {call : JwksCall} {readAt : ℕ} {result : Except Text Text} (reason : result ≠ .error [])
    (undisturbed : cache.Undisturbed call readAt result) :
    (cache.written (JwksEntry.after call readAt result)).After cache.drops cache.moment ∧
      ((cache.written (JwksEntry.after call readAt result)).keysJson ≠ [] →
        ∀ stamp ∈ cache.stored, stamp ≤ (cache.written (JwksEntry.after call readAt result)).readAt) := by
  unfold JwksCache.written
  split_ifs with gone
  · exact ⟨fun document => absurd rfl document, fun document => absurd rfl document⟩
  · cases result with
    | ok document =>
      rcases undisturbed with none | ⟨latest, dropped⟩
      · exact ⟨fun some => absurd none some, fun some => absurd none some⟩
      · exact ⟨fun _ drop member _ names => dropped drop member names, fun _ => latest⟩
    | error error =>
      rcases undisturbed with absent | none | ⟨latest, dropped⟩
      · have marked : error ≠ [] := fun none => reason (none ▸ rfl)
        exact absurd ⟨marked, absent⟩ gone
      · exact ⟨fun some => absurd none some, fun some => absurd none some⟩
      · exact ⟨fun _ drop member _ names => dropped drop member names, fun _ => latest⟩

/-- What the write-back leaves was tried when it was fetched, or is marked. -/
private theorem written_tried {call : JwksCall} {readAt : ℕ} {result : Except Text Text} (reason : result ≠ .error [])
    (unmarked : (cache.written (JwksEntry.after call readAt result)).error = []) :
    (cache.written (JwksEntry.after call readAt result)).triedAt =
      (cache.written (JwksEntry.after call readAt result)).fetchedAt := by
  unfold JwksCache.written at unmarked ⊢
  split_ifs at unmarked ⊢ with gone
  · exact absurd unmarked gone.1
  · cases result with
    | ok document => rfl
    | error error => exact absurd (congrArg Except.error unmarked) reason

/-- A document served after a read was just fetched, or is marked and not too stale. -/
private theorem written_current {call : JwksCall} {readAt : ℕ} {result : Except Text Text} {maxStale : ℤ}
    (reason : result ≠ .error []) (interval : 0 ≤ call.refresh)
    (serves : (cache.written (JwksEntry.after call readAt result)).serves call.now maxStale = true) :
    JwksServed.Current
      { entry := cache.written (JwksEntry.after call readAt result), started := call.started, now := call.now,
        refresh := call.refresh, maxStale := maxStale } := by
  obtain ⟨document, stale⟩ := serves_iff.mp serves
  unfold JwksCache.written at document stale ⊢
  split_ifs at document stale ⊢ with gone
  · exact absurd rfl document
  · cases result with
    | ok text =>
      refine .inl ?_
      change call.now - call.now ≤ call.refresh
      omega
    | error error =>
      have marked : error ≠ [] := fun none => reason (none ▸ rfl)
      exact .inr ⟨marked, (stale marked).2⟩

theorem Kept.finish (kept : cache.Kept) {index : ℕ} {call : JwksCall} (found : cache.calls[index]? = some call)
    {readAt : ℕ} {result : Except Text Text} (reason : result ≠ .error [])
    (undisturbed : cache.Undisturbed call readAt result) (maxStale : ℤ) :
    Kept
      ({ cache with
          moment := cache.moment + 1
          entry := some (cache.written (JwksEntry.after call readAt result))
          calls := cache.calls.eraseIdx index
          stored := if (cache.written (JwksEntry.after call readAt result)).keysJson = [] then cache.stored
            else cache.stored ++ [(cache.written (JwksEntry.after call readAt result)).readAt] }.answer
        (cache.written (JwksEntry.after call readAt result)) call.started call.now call.refresh maxStale) := by
  have known := List.mem_of_getElem? found
  obtain ⟨after, latest⟩ := written_after reason undisturbed
  have written := @Kept.write cache kept index _ after (fun unmarked => .inr (written_tried reason unmarked)) latest
  refine written.answer ((kept.started call known).trans (Nat.lt_succ_self _)) ?_
    (written_current reason (kept.refresh call known))
  intro document drop member early names
  exact after document drop member (kept.dropsPast drop member) names

theorem Kept.drop (kept : cache.Kept) {issuer : Text}
    (labelled : ∀ entry ∈ cache.entry, entry.keysJson ≠ [] → dropNames issuer entry.reader = true →
      dropNames issuer entry.issuer = true) :
    Kept
      { cache with
        moment := cache.moment + 1
        entry := cache.entry.filter fun entry => !dropNames issuer entry.issuer
        drops := cache.drops ++ [(cache.moment, issuer)] } := by
  have ticked := kept.tick
  have stays : ∀ entry ∈ cache.entry.filter fun entry => !dropNames issuer entry.issuer,
      entry ∈ cache.entry ∧ dropNames issuer entry.issuer = false := by
    intro entry member
    obtain ⟨there, unnamed⟩ := Option.mem_filter_iff.mp member
    exact ⟨there, by simpa using unnamed⟩
  refine ⟨?_, ticked.started, ticked.refresh, ?_, ?_, ticked.servedStarted, ?_,
    fun entry member => kept.tried entry (stays entry member).1, ticked.ordered,
    fun entry member => kept.latest entry (stays entry member).1, ticked.current⟩
  · intro drop member
    rcases List.mem_append.mp member with old | new
    · exact ticked.dropsPast drop old
    · obtain rfl := List.mem_singleton.mp new
      exact Nat.lt_succ_self _
  · intro entry member document drop among _ names
    obtain ⟨there, unnamed⟩ := stays entry member
    rcases List.mem_append.mp among with old | new
    · exact kept.entryAfter entry there document drop old (kept.dropsPast drop old) names
    · obtain rfl := List.mem_singleton.mp new
      rw [labelled entry there document names] at unnamed
      cases unnamed
  · exact fun call member => (kept.callsAfter call member).dropped (kept.started call member).le issuer
  · exact fun served member => (kept.servedAfter served member).dropped (kept.servedStarted served member).le issuer

theorem Kept.refuse (kept : cache.Kept) {entry : JwksEntry} (empty : entry.keysJson = []) :
    Kept { cache with moment := cache.moment + 1, entry := some entry } := by
  have ticked := kept.tick
  refine ⟨ticked.dropsPast, ticked.started, ticked.refresh, ?_, ticked.callsAfter, ticked.servedStarted,
    ticked.servedAfter, ?_, ticked.ordered, ?_, ticked.current⟩
  all_goals
    intro other same
    obtain rfl := Option.some.inj same
  · exact fun document => absurd empty document
  · exact fun _ => .inl empty
  · exact fun document => absurd empty document

/-! ## Every run -/

/-- A step that meets the condition keeps the invariant. -/
theorem Kept.step {next : JwksCache} {event : JwksEvent} (kept : cache.Kept) (meets : cache.Meets hasKid event)
    (stepped : cache.step hasKid event = some next) : next.Kept := by
  cases event with
  | refuse issuer why now =>
    obtain rfl := Option.some.inj stepped
    exact kept.refuse rfl
  | start issuer kid isJwks now refresh maxStale => exact kept.start meets.1 stepped
  | read index =>
    simp only [JwksCache.step] at stepped
    split at stepped
    · cases stepped
    · rename_i call found
      split_ifs at stepped
      obtain rfl := Option.some.inj stepped
      exact kept.read found
  | finish index result maxStale =>
    simp only [JwksCache.step] at stepped
    split at stepped
    · cases stepped
    · rename_i call found
      split at stepped
      · cases stepped
      · rename_i readAt reading
        split at stepped
        · cases stepped
        · rename_i reason
          obtain rfl := Option.some.inj stepped
          exact kept.finish found reason (meets call found readAt reading) maxStale
  | drop issuer =>
    obtain rfl := Option.some.inj stepped
    exact kept.drop meets

/-- A good document is served at once. -/
theorem start_good {entry : JwksEntry} {issuer kid : Text} {isJwks : Bool} {now refresh maxStale : ℤ}
    (there : cache.entry = some entry) (good : entry.Good hasKid kid isJwks now refresh)
    (meets : cache.Meets hasKid (.start issuer kid isJwks now refresh maxStale)) :
    ∃ next served, cache.step hasKid (.start issuer kid isJwks now refresh maxStale) = some next ∧
      next.served = cache.served ++ [served] ∧ served.entry.keysJson = entry.keysJson := by
  have copied : cache.copy issuer = { entry with issuer := issuer } := by rw [copy, there]; rfl
  obtain ⟨document, young, holds⟩ := good
  have fresh : (cache.copy issuer).expired now refresh = false := by
    rw [copied]
    simp only [JwksEntry.expired, decide_eq_false_iff_not]
    rintro (none | old)
    · exact document none
    · omega
  have unread : (cache.copy issuer).reads hasKid kid isJwks now refresh = false := by
    have found : (isJwks && !hasKid (cache.copy issuer).keysJson kid) = false := by
      rw [copied]
      cases isJwks with
      | false => rfl
      | true => simp [holds rfl]
    simp only [JwksEntry.reads, JwksEntry.rotated, fresh, Bool.not_false, Bool.and_true, found, Bool.or_self, Bool.false_and]
  have serves : (cache.copy issuer).serves now maxStale = true := by
    have stale := meets.2 (copied ▸ ⟨document, young, holds⟩)
    refine serves_iff.mpr ⟨copied ▸ document, fun marked => stale.resolve_left marked⟩
  have answered : cache.step hasKid (.start issuer kid isJwks now refresh maxStale) =
      some
        { cache with
          moment := cache.moment + 1
          served := cache.served ++ [{ entry := cache.copy issuer, started := cache.moment, now, refresh, maxStale }] } := by
    simp only [JwksCache.step, unread, Bool.false_eq_true, ↓reduceIte, JwksCache.answer, serves]
  exact ⟨_, _, answered, rfl, by rw [copied]⟩

end JwksCache

/-- In every run whose steps meet the condition: the documents were stored in the order in which their
reads began; those stored and those served to calls after a drop were read after it; each was served
within its time; and a good document is served. -/
theorem key_documents_forward {hasKid : Text → Text → Bool} {events : List JwksEvent} {cache : JwksCache}
    (along : Along (JwksCache.step hasKid) (JwksCache.Meets hasKid) {} events)
    (ran : run (JwksCache.step hasKid) {} events = some cache) :
    (cache.stored.Pairwise (· ≤ ·) ∧
        ∀ entry ∈ cache.entry, entry.keysJson ≠ [] → cache.stored.getLast? = some entry.readAt) ∧
      (∀ drop ∈ cache.drops,
        (∀ entry ∈ cache.entry, entry.keysJson ≠ [] → dropNames drop.2 entry.reader = true → drop.1 < entry.readAt) ∧
          ∀ served ∈ cache.served, drop.1 < served.started → dropNames drop.2 served.entry.reader = true →
            served.entry.keysJson ≠ [] → drop.1 < served.entry.readAt) ∧
      (∀ served ∈ cache.served, served.Current) ∧
      ∀ entry ∈ cache.entry, ∀ issuer kid isJwks now refresh maxStale,
        entry.Good hasKid kid isJwks now refresh →
          cache.Meets hasKid (.start issuer kid isJwks now refresh maxStale) →
            ∃ next served, cache.step hasKid (.start issuer kid isJwks now refresh maxStale) = some next ∧
              next.served = cache.served ++ [served] ∧ served.entry.keysJson = entry.keysJson := by
  have kept : cache.Kept := run_keeps (JwksCache.step hasKid) (JwksCache.Meets hasKid)
    (fun kept meets stepped => kept.step meets stepped) JwksCache.kept_initial along ran
  refine ⟨⟨kept.ordered, kept.latest⟩, fun drop member => ⟨?_, ?_⟩, kept.current, ?_⟩
  · exact fun entry there document names =>
      kept.entryAfter entry there document drop member (kept.dropsPast drop member) names
  · exact fun served among late names document => kept.servedAfter served among document drop member late names
  · exact fun entry there issuer kid isJwks now refresh maxStale good meets => JwksCache.start_good there good meets

/-- A document holds the key it is named after. -/
private def plainKid (document kid : Text) : Bool := kid.isPrefixOf document

/-- One document is read, served and dropped, and the next is read. -/
private def rotation : List JwksEvent :=
  [.start ['i'] ['k'] true 100 300 3600, .read 0, .finish 0 (.ok ['k', '1']) 3600, .start ['i'] ['k'] true 150 300 3600,
    .drop ['I'], .start ['i'] ['k'] true 160 300 3600, .read 0, .finish 0 (.ok ['k', '2']) 3600]

theorem key_documents_forward_rotation : ∃ cache,
    Along (JwksCache.step plainKid) (JwksCache.Meets plainKid) {} rotation ∧
      run (JwksCache.step plainKid) {} rotation = some cache ∧ cache.drops = [(4, ['I'])] ∧ cache.stored = [1, 6] ∧
        cache.stored.Pairwise (· ≤ ·) := by
  have along : Along (JwksCache.step plainKid) (JwksCache.Meets plainKid) {} rotation := by decide
  match ran : run (JwksCache.step plainKid) {} rotation with
  | none => exact absurd ran (by decide)
  | some cache =>
    have found : (run (JwksCache.step plainKid) {} rotation).map (fun cache => (cache.drops, cache.stored)) =
        some ([(4, ['I'])], [1, 6]) := by decide
    rw [ran] at found
    obtain ⟨drops, stored⟩ : cache.drops = [(4, ['I'])] ∧ cache.stored = [1, 6] := by simpa using found
    exact ⟨cache, along, rfl, drops, stored, (key_documents_forward along ran).1.1⟩

/-- A slow read puts an earlier document over a later one; a read that began before a drop stores its
document after it, and a call after the drop is served it; and a document that is good for 250 seconds
still is not served, because an early read for another key failed and nothing may be stale. -/
theorem key_documents_slip :
    (run (JwksCache.step plainKid) {} [.start ['i'] ['k'] true 100 300 3600, .start ['i'] ['k'] true 100 300 3600,
        .read 0, .read 1, .finish 1 (.ok ['k', '2']) 3600, .finish 0 (.ok ['k', '1']) 3600]).map (·.stored) =
          some [3, 2] ∧
      (run (JwksCache.step plainKid) {} [.start ['i'] ['k'] true 100 300 3600, .read 0, .drop [],
        .finish 0 (.ok ['k', '1']) 3600, .start ['i'] ['k'] true 101 300 3600]).map
          (fun cache => (cache.drops, cache.served.map fun served => (served.started, served.entry.readAt))) =
            some ([(2, [])], [(0, 1), (4, 1)]) ∧
      (run (JwksCache.step plainKid) {} [.start ['i'] ['k'] true 100 300 0, .read 0, .finish 0 (.ok ['k', '1']) 0,
        .start ['i'] ['j'] true 120 300 0, .read 0, .finish 0 (.error ['e']) 0, .start ['i'] ['k'] true 150 300 0]).map
          (fun cache => (cache.entry.map (·.keysJson), cache.served.length)) = some (some ['k', '1'], 1) := by
  decide

end DuckAcl
