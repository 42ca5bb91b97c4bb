import DuckAcl.Model.PolicyCaches

/-! # What a node's caches can hold

Every cached value should come from reads of the policy at least as new as the version the node has
adopted, and every call should see the writes of its own node. Neither holds for every interleaving:
three fills keep what they read without asking whether the version has moved, a check counts as made
before it has answered, and a slow check can put an older version back. The theorems say that nothing
else is needed: along every run whose steps avoid these, both hold.
-/

namespace DuckAcl

namespace Cache

variable {κ : Type}

/-- Every read behind every entry is at the floor or above. -/
def Over (floor : Int) (cache : Cache κ) : Prop :=
  ∀ entry ∈ cache, ∀ read ∈ entry.reads, floor ≤ read

variable {floor : Int} {cache : Cache κ} {reads : List Int}

private theorem Over.clearIfOversized (beyond : cache.Over floor) (name : CacheName) :
    (cache.clearIfOversized name).Over floor := by
  unfold Cache.clearIfOversized
  split
  · intro entry member
    cases member
  · exact beyond

variable [DecidableEq κ]

private theorem Over.put (beyond : cache.Over floor) (above : ∀ read ∈ reads, floor ≤ read) (key : κ) :
    (cache.put reads key).Over floor := by
  intro entry member
  rcases List.mem_cons.mp member with rfl | member
  · exact above
  · exact beyond entry (List.mem_filter.mp member).1

private theorem mem_of_lookup {key : κ} {entry : CacheEntry κ} (found : cache.lookup key = some entry) :
    entry ∈ cache :=
  List.mem_of_find?_eq_some found

private theorem Over.merge (beyond : cache.Over floor) (above : ∀ read ∈ reads, floor ≤ read) (key : κ) :
    (cache.merge reads key).Over floor := by
  unfold Cache.merge
  split
  · exact beyond.put above key
  · next entry found =>
    apply beyond.put
    intro read member
    rcases List.mem_append.mp member with held | added
    · exact beyond entry (mem_of_lookup found) read held
    · exact above read added

private theorem Over.foldl_put (above : ∀ read ∈ reads, floor ≤ read) :
    ∀ (keys : List κ) {cache : Cache κ}, cache.Over floor → (keys.foldl (Cache.put reads) cache).Over floor
  | [], _, beyond => beyond
  | key :: rest, _, beyond => Over.foldl_put above rest (beyond.put above key)

private theorem Over.foldl_merge (above : ∀ read ∈ reads, floor ≤ read) :
    ∀ (keys : List κ) {cache : Cache κ}, cache.Over floor → (keys.foldl (Cache.merge reads) cache).Over floor
  | [], _, beyond => beyond
  | key :: rest, _, beyond => Over.foldl_merge above rest (beyond.merge above key)

theorem Over.readsOf (beyond : cache.Over floor) (keys : List κ) : ∀ read ∈ cache.readsOf keys, floor ≤ read := by
  intro read member
  obtain ⟨entry, held, behind⟩ := List.mem_flatMap.mp member
  obtain ⟨key, _, found⟩ := List.mem_filterMap.mp held
  exact beyond entry (mem_of_lookup found) read behind

end Cache

namespace Node

variable {κ : Type}

/-! ## The condition on a step -/

/-- The call a thread is in, when it is in one. -/
def openCall (node : Node κ) (thread : ℕ) : Option (CacheCall κ) :=
  match node.threads thread with
  | .calling call => some call
  | _ => none

/-- The fill a thread would end or store, when it has one. -/
def openFill (node : Node κ) (thread : ℕ) : Option (Fill κ) :=
  (node.openCall thread).bind fun call => call.fills.head?

/-- The version a thread's check is about to adopt, when it has one. -/
def pendingVersion (node : Node κ) (thread : ℕ) : Option Int :=
  (node.openCall thread).bind fun call =>
    match call.check with
    | .answered current => some current
    | _ => none

/-- A fill that stores without asking stores while the version is the one it looked at: what the
other fills check. -/
def StoresAsRead (node : Node κ) : NodeEvent κ → Prop
  | .store thread _ | .finish thread =>
    ∀ fill ∈ node.openFill thread, fill.cache.rechecks = false → fill.missing ≠ [] → node.version = fill.readAt
  | _ => True

/-- No check puts an older version in the place of a newer one. -/
def Advances (node : Node κ) : NodeEvent κ → Prop
  | .adopt thread => ∀ current ∈ node.pendingVersion thread, node.version ≤ current
  | _ => True

/-- A call that returns from `EnsureFresh` without a check finds a version adopted that is at least
the node's last write before the call. -/
def SkipsAdopted (node : Node κ) : NodeEvent κ → Prop
  | .enter thread now interval =>
    ∀ call ∈ node.openCall thread, node.fresh.skips now interval = true → call.need ≤ node.version
  | _ => True

instance (node : Node κ) (event : NodeEvent κ) : Decidable (node.StoresAsRead event) :=
  match event with
  | .store thread _ | .finish thread => inferInstanceAs (Decidable (∀ fill ∈ node.openFill thread, _ → _ → _))
  | .begin _ | .enter .. | .ask _ | .adopt _ | .recheck _ | .look .. | .query _ | .decline _ | .fail _ | .commit _
  | .writeReturns _ | .counterWrite _ | .remoteWrite => .isTrue trivial

instance (node : Node κ) (event : NodeEvent κ) : Decidable (node.Advances event) :=
  match event with
  | .adopt thread => inferInstanceAs (Decidable (∀ current ∈ node.pendingVersion thread, _))
  | .begin _ | .enter .. | .ask _ | .recheck _ | .look .. | .query _ | .store .. | .finish _ | .decline _ | .fail _
  | .commit _ | .writeReturns _ | .counterWrite _ | .remoteWrite => .isTrue trivial

instance (node : Node κ) (event : NodeEvent κ) : Decidable (node.SkipsAdopted event) :=
  match event with
  | .enter thread _ _ => inferInstanceAs (Decidable (∀ call ∈ node.openCall thread, _ → _))
  | .begin _ | .ask _ | .adopt _ | .recheck _ | .look .. | .query _ | .store .. | .finish _ | .decline _ | .fail _
  | .commit _ | .writeReturns _ | .counterWrite _ | .remoteWrite => .isTrue trivial

/-! ## The invariant -/

/-- A call whose reads are no older than the version it looked at. -/
structure CallSound (version committed : Int) (call : CacheCall κ) : Prop where
  answered : ∀ current, call.check = .answered current → current ≤ committed
  readAt : ∀ fill ∈ call.fills, fill.readAt ≤ version
  given : ∀ fill ∈ call.fills, ∀ read ∈ fill.given, fill.readAt ≤ read
  reads : ∀ fill ∈ call.fills, ∀ read ∈ fill.reads, fill.readAt ≤ read
  nested : call.fills.Pairwise fun inner outer => outer.readAt ≤ inner.readAt

/-- No cached value is older than the adopted version, nor was any when it left its cache. -/
structure Sound (node : Node κ) : Prop where
  version_le : node.version ≤ node.committed
  adopted_eq : node.adopted = node.version
  entries : ∀ name, (node.caches name).Over node.version
  calls : ∀ thread call, node.threads thread = .calling call → CallSound node.version node.committed call
  served : ∀ pair ∈ node.served, ∀ read ∈ pair.2, pair.1 ≤ read

theorem sound_init (committed : ℕ) : (init committed : Node κ).Sound where
  version_le := by
    show (-1 : Int) ≤ committed
    omega
  adopted_eq := rfl
  entries := by simp [init, Cache.Over]
  calls := by simp [init]
  served := by simp [init]

variable {node next : Node κ} {thread : ℕ}

/-! ## What each part of a step keeps -/

private theorem Sound.setThread (sound : node.Sound) {now : NodeThread κ}
    (ok : ∀ call, now = .calling call → CallSound node.version node.committed call) :
    (node.setThread thread now).Sound where
  version_le := sound.version_le
  adopted_eq := sound.adopted_eq
  entries := sound.entries
  calls := by
    intro other call at_
    by_cases same : other = thread
    · subst same
      simp only [Node.setThread, Function.update_self] at at_
      exact ok call at_
    · simp only [Node.setThread, Function.update_of_ne same] at at_
      exact sound.calls other call at_
  served := sound.served

private theorem Sound.setCache (sound : node.Sound) {name : CacheName} {cache : Cache κ}
    (beyond : cache.Over node.version) : (node.setCache name cache).Sound where
  version_le := sound.version_le
  adopted_eq := sound.adopted_eq
  entries := by
    intro other
    show (Function.update node.caches name cache other).Over node.version
    by_cases same : other = name
    · subst same
      rw [Function.update_self]
      exact beyond
    · rw [Function.update_of_ne same]
      exact sound.entries other
  calls := sound.calls
  served := sound.served

private theorem Sound.serve (sound : node.Sound) {reads : List Int} (above : ∀ read ∈ reads, node.version ≤ read) :
    (node.serve reads).Sound where
  version_le := sound.version_le
  adopted_eq := sound.adopted_eq
  entries := sound.entries
  calls := sound.calls
  served := by
    intro pair member
    rcases List.mem_cons.mp member with rfl | member
    · rw [sound.adopted_eq]
      exact above
    · exact sound.served pair member

private theorem Sound.withAnswers (sound : node.Sound) (answers : List (Int × List Int)) :
    { node with answers := answers }.Sound where
  version_le := sound.version_le
  adopted_eq := sound.adopted_eq
  entries := sound.entries
  calls := sound.calls
  served := sound.served

/-- What a call gives to the fill around it may be as old as what that fill looked at, no older. -/
private theorem Sound.give (sound : node.Sound) {need : Int} {outer : List (Fill κ)} {reads : List Int}
    (around : CallSound node.version node.committed ⟨need, .passed, outer⟩)
    (above : ∀ fill ∈ outer, ∀ read ∈ reads, fill.readAt ≤ read) : (node.give thread need outer reads).Sound := by
  unfold Node.give
  split
  · apply (sound.withAnswers _).setThread
    intro call same
    cases same
  · next fill rest =>
    apply sound.setThread
    intro call same
    cases same
    have inFront : fill ∈ fill :: rest := List.mem_cons_self
    refine ⟨by simp, ?_, ?_, ?_, ?_⟩
    · simpa using around.readAt
    · simpa using around.given
    · intro other member read behind
      rcases List.mem_cons.mp member with rfl | member
      · rcases List.mem_append.mp behind with before | added
        · exact around.reads fill inFront read before
        · exact above fill inFront read added
      · exact around.reads other (List.mem_cons_of_mem _ member) read behind
    · have nested := around.nested
      simp only [List.pairwise_cons] at nested ⊢
      exact nested

private theorem CallSound.grows {version committed later : Int} {call : CacheCall κ}
    (sound : CallSound version committed call) (grew : committed ≤ later) : CallSound version later call where
  answered current at_ := Int.le_trans (sound.answered current at_) grew
  readAt := sound.readAt
  given := sound.given
  reads := sound.reads
  nested := sound.nested

private theorem CallSound.advances {version committed later : Int} {call : CacheCall κ}
    (sound : CallSound version committed call) (grew : version ≤ later) : CallSound later committed call where
  answered := sound.answered
  readAt fill member := Int.le_trans (sound.readAt fill member) grew
  given := sound.given
  reads := sound.reads
  nested := sound.nested

private theorem Sound.commits (sound : node.Sound) : { node with committed := node.committed + 1 }.Sound where
  version_le := by
    have := sound.version_le
    show node.version ≤ node.committed + 1
    omega
  adopted_eq := sound.adopted_eq
  entries := sound.entries
  calls thread call at_ := (sound.calls thread call at_).grows (by
    show node.committed ≤ node.committed + 1
    omega)
  served := sound.served

private theorem Sound.withFresh (sound : node.Sound) {fresh : Freshness} (same : fresh.version = node.version)
    (own : Int) : { node with fresh := fresh, ownWritten := own }.Sound where
  version_le := by
    show fresh.version ≤ node.committed
    rw [same]
    exact sound.version_le
  adopted_eq := sound.adopted_eq.trans same.symm
  entries := by
    intro name
    show (node.caches name).Over fresh.version
    rw [same]
    exact sound.entries name
  calls thread call at_ := by
    show CallSound fresh.version node.committed call
    rw [same]
    exact sound.calls thread call at_
  served := sound.served

theorem version_adoptVersion (current : Int) : (node.adoptVersion current).version = current :=
  Freshness.adopt_version node.fresh current

private theorem Sound.adoptVersion (sound : node.Sound) {current : Int} (advance : node.version ≤ current)
    (read : current ≤ node.committed) : (node.adoptVersion current).Sound where
  version_le := by
    rw [version_adoptVersion]
    exact read
  adopted_eq := by
    rw [version_adoptVersion]
    show max node.adopted current = current
    rw [sound.adopted_eq]
    omega
  entries := by
    intro name
    rw [version_adoptVersion]
    by_cases same : current = node.version
    · have kept : (node.adoptVersion current).caches name = node.caches name := by
        simp [Node.adoptVersion, same]
      rw [kept, same]
      exact sound.entries name
    · have cleared : (node.adoptVersion current).caches name = [] := by
        simp [Node.adoptVersion, same]
      rw [cleared]
      intro entry member
      cases member
  calls thread call at_ := by
    rw [version_adoptVersion]
    exact (sound.calls thread call at_).advances advance
  served := sound.served

/-- The rest of a call whose innermost fill is over. -/
private theorem CallSound.outer {version committed : Int} {need : Int} {check : Check} {fill : Fill κ}
    {outer : List (Fill κ)} (ok : CallSound version committed ⟨need, check, fill :: outer⟩) :
    CallSound version committed ⟨need, .passed, outer⟩ where
  answered := by simp
  readAt other member := ok.readAt other (List.mem_cons_of_mem _ member)
  given other member := ok.given other (List.mem_cons_of_mem _ member)
  reads other member := ok.reads other (List.mem_cons_of_mem _ member)
  nested := (List.pairwise_cons.mp ok.nested).2

/-- The innermost fill may read on, and may have stored what was missing. -/
private theorem CallSound.readsOn {version committed : Int} {need : Int} {check : Check} {fill : Fill κ}
    {outer : List (Fill κ)} (ok : CallSound version committed ⟨need, check, fill :: outer⟩) {missing : List κ}
    {reads : List Int} (above : ∀ read ∈ reads, fill.readAt ≤ read) :
    CallSound version committed ⟨need, check, { fill with missing := missing, reads := fill.reads ++ reads } :: outer⟩ where
  answered := ok.answered
  readAt := by simpa using ok.readAt
  given := by simpa using ok.given
  reads := by
    intro other member read behind
    rcases List.mem_cons.mp member with rfl | member
    · rcases List.mem_append.mp behind with before | added
      · exact ok.reads fill List.mem_cons_self read before
      · exact above read added
    · exact ok.reads other (List.mem_cons_of_mem _ member) read behind
  nested := by
    have nested := ok.nested
    simp only [List.pairwise_cons] at nested ⊢
    exact nested

/-! ## Steps and runs -/

variable [DecidableEq κ]

/-- The critical section in which a call looks into its cache. -/
private theorem Sound.look (sound : node.Sound) {call : CacheCall κ}
    (ok : CallSound node.version node.committed call) (passed : call.check = .passed) (name : CacheName)
    (keys : List κ) : (node.look thread call name keys).Sound := by
  have above := (sound.entries name).readsOf keys
  have opened : ∀ given, (∀ read ∈ given, node.version ≤ read) →
      CallSound node.version node.committed { call with
        fills := ⟨name, keys, (node.caches name).missing keys, node.version, given, []⟩ :: call.fills } := by
    intro given fresh
    refine ⟨ok.answered, ?_, ?_, ?_, ?_⟩
    · simpa using ok.readAt
    · simpa using ⟨fresh, ok.given⟩
    · simpa using ok.reads
    · exact List.pairwise_cons.mpr ⟨ok.readAt, ok.nested⟩
  unfold Node.look
  dsimp only
  split_ifs
  · apply sound.setThread
    rintro _ ⟨⟩
    exact opened [] (by simp)
  · apply (sound.serve above).give
    · obtain ⟨need, check, fills⟩ := call
      exact passed ▸ ok
    · intro fill member read behind
      exact Int.le_trans (ok.readAt fill member) (above read behind)
  · apply (sound.serve above).setThread
    rintro _ ⟨⟩
    exact opened _ above

/-- The last critical section of a fill. A fill that does not recheck stores while the version is
still the one it looked at; one that does stores only then. -/
private theorem Sound.finishFill (sound : node.Sound) {need : Int} {fill : Fill κ} {outer : List (Fill κ)}
    (ok : CallSound node.version node.committed ⟨need, .passed, fill :: outer⟩)
    (asRead : fill.cache.rechecks = false → fill.missing ≠ [] → node.version = fill.readAt) :
    (node.finishFill thread ⟨need, .passed, fill :: outer⟩ fill outer).Sound := by
  have inFront : fill ∈ fill :: outer := List.mem_cons_self
  have around : ∀ other ∈ outer, other.readAt ≤ fill.readAt := (List.pairwise_cons.mp ok.nested).1
  have behindOuter : ∀ {reads : List Int}, (∀ read ∈ reads, node.version ≤ read) →
      ∀ other ∈ outer, ∀ read ∈ reads, other.readAt ≤ read := by
    intro reads above other member read behind
    exact Int.le_trans (ok.outer.readAt other member) (above read behind)
  unfold Node.finishFill
  dsimp only
  split_ifs with merging rechecking same
  · have above := (sound.entries fill.cache).readsOf fill.keys
    exact (sound.serve above).give ok.outer (behindOuter above)
  · have kept : ((fill.missing.foldl (Cache.put fill.reads) ((node.caches fill.cache).clearIfOversized fill.cache))).Over
        node.version := by
      apply Cache.Over.foldl_put
      · rw [same]
        exact ok.reads fill inFront
      · exact (sound.entries fill.cache).clearIfOversized fill.cache
    apply (sound.setCache kept).give ok.outer
    intro other member read behind
    rcases List.mem_append.mp behind with given | read_
    · exact Int.le_trans (around other member) (ok.given fill inFront read given)
    · exact Int.le_trans (around other member) (ok.reads fill inFront read read_)
  · apply sound.give ok.outer
    intro other member read behind
    rcases List.mem_append.mp behind with given | read_
    · exact Int.le_trans (around other member) (ok.given fill inFront read given)
    · exact Int.le_trans (around other member) (ok.reads fill inFront read read_)
  · have kept : ((((node.caches fill.cache).missing fill.missing).foldl (Cache.put fill.reads)
        (node.caches fill.cache))).Over node.version := by
      rcases eq_or_ne fill.missing [] with nothing | something
      · simpa [nothing, Cache.missing] using sound.entries fill.cache
      · apply Cache.Over.foldl_put _ _ (sound.entries fill.cache)
        rw [asRead (by simpa using rechecking) something]
        exact ok.reads fill inFront
    have stored : (node.setCache fill.cache _).Sound := sound.setCache kept
    have above := (stored.entries fill.cache).readsOf fill.keys
    exact (stored.serve above).give ok.outer (behindOuter above)

/-- What a step of a call under way can be. -/
inductive CallStep (node : Node κ) (thread : ℕ) (call : CacheCall κ) : NodeEvent κ → Node κ → Prop
  | skip {now interval : Int} (due : call.check = .due) (skipped : node.fresh.skips now interval = true) :
    CallStep node thread call (.enter thread now interval)
      (node.setThread thread (.calling { call with check := .passed }))
  | enter {now interval : Int} (due : call.check = .due) :
    CallStep node thread call (.enter thread now interval)
      ({ node with fresh := node.fresh.enter now }.setThread thread (.calling { call with check := .asking }))
  | ask (asking : call.check = .asking) :
    CallStep node thread call (.ask thread)
      (node.setThread thread (.calling { call with check := .answered node.committed }))
  | adopt {current : Int} (answered : call.check = .answered current) :
    CallStep node thread call (.adopt thread)
      ((node.adoptVersion current).setThread thread (.calling { call with check := .passed }))
  | recheck (passed : call.check = .passed) :
    CallStep node thread call (.recheck thread) (node.setThread thread (.calling { call with check := .due }))
  | look {name : CacheName} {keys : List κ} (passed : call.check = .passed) :
    CallStep node thread call (.look thread name keys) (node.look thread call name keys)
  | query {fill : Fill κ} {outer : List (Fill κ)} (passed : call.check = .passed) (fills : call.fills = fill :: outer) :
    CallStep node thread call (.query thread) (node.setThread thread
      (.calling { call with fills := { fill with reads := fill.reads ++ [node.committed] } :: outer }))
  | store {fill : Fill κ} {outer : List (Fill κ)} {rowKeys : List κ} (passed : call.check = .passed)
      (fills : call.fills = fill :: outer) (merging : fill.cache.merges = true) (lacking : fill.missing ≠ []) :
    CallStep node thread call (.store thread rowKeys) (node.storeRows thread call fill outer rowKeys)
  | finish {fill : Fill κ} {outer : List (Fill κ)} (passed : call.check = .passed) (fills : call.fills = fill :: outer) :
    CallStep node thread call (.finish thread) (node.finishFill thread call fill outer)
  | decline {fill : Fill κ} {outer : List (Fill κ)} (passed : call.check = .passed) (fills : call.fills = fill :: outer) :
    CallStep node thread call (.decline thread) (node.give thread call.need outer [])
  | fail : CallStep node thread call (.fail thread) (node.setThread thread .idle)

theorem callStep_cases {call : CacheCall κ} {event : NodeEvent κ} (acting : actor event = some thread)
    (stepped : node.callStep thread call event = some next) : CallStep node thread call event next := by
  cases event with
  | enter other now interval =>
    obtain rfl : other = thread := by simpa [actor] using acting
    simp only [callStep] at stepped
    split at stepped
    · next due =>
      split_ifs at stepped with skipped
      · exact Option.some.inj stepped ▸ .skip due skipped
      · exact Option.some.inj stepped ▸ .enter due
    · cases stepped
  | ask other =>
    obtain rfl : other = thread := by simpa [actor] using acting
    simp only [callStep] at stepped
    split at stepped
    · next asking => exact Option.some.inj stepped ▸ .ask asking
    · cases stepped
  | adopt other =>
    obtain rfl : other = thread := by simpa [actor] using acting
    simp only [callStep] at stepped
    split at stepped
    · next answered => exact Option.some.inj stepped ▸ .adopt answered
    · cases stepped
  | recheck other =>
    obtain rfl : other = thread := by simpa [actor] using acting
    simp only [callStep] at stepped
    split at stepped
    · next passed _ => exact Option.some.inj stepped ▸ .recheck passed
    · cases stepped
  | look other name keys =>
    obtain rfl : other = thread := by simpa [actor] using acting
    simp only [callStep] at stepped
    split at stepped
    · next passed => exact Option.some.inj stepped ▸ .look passed
    · cases stepped
  | query other =>
    obtain rfl : other = thread := by simpa [actor] using acting
    simp only [callStep] at stepped
    split at stepped
    · next passed fills => exact Option.some.inj stepped ▸ .query passed fills
    · cases stepped
  | store other rowKeys =>
    obtain rfl : other = thread := by simpa [actor] using acting
    simp only [callStep] at stepped
    split at stepped
    · next passed fills =>
      split_ifs at stepped with lacking
      exact Option.some.inj stepped ▸ .store passed fills lacking.1 lacking.2
    · cases stepped
  | finish other =>
    obtain rfl : other = thread := by simpa [actor] using acting
    simp only [callStep] at stepped
    split at stepped
    · next passed fills =>
      split_ifs at stepped
      exact Option.some.inj stepped ▸ .finish passed fills
    · cases stepped
  | decline other =>
    obtain rfl : other = thread := by simpa [actor] using acting
    simp only [callStep] at stepped
    split at stepped
    · next passed fills =>
      split_ifs at stepped
      exact Option.some.inj stepped ▸ .decline passed fills
    · cases stepped
  | fail other =>
    obtain rfl : other = thread := by simpa [actor] using acting
    exact Option.some.inj stepped ▸ .fail
  | begin | commit | writeReturns | counterWrite | remoteWrite => cases stepped

/-- What a step of the node can be: a write, the start of a call, or a step of a call under way. -/
inductive NodeStep (node : Node κ) : NodeEvent κ → Node κ → Prop
  | remoteWrite : NodeStep node .remoteWrite { node with committed := node.committed + 1 }
  | begin {thread : ℕ} : NodeStep node (.begin thread)
      (node.setThread thread (.calling ⟨node.ownWritten, .due, []⟩))
  | commit {thread : ℕ} : NodeStep node (.commit thread)
      ({ node with committed := node.committed + 1 }.setThread thread (.writing (node.committed + 1)))
  | writeReturns {thread : ℕ} {written : Int} (writing : node.threads thread = .writing written) :
    NodeStep node (.writeReturns thread)
      ({ node with fresh := node.fresh.written, ownWritten := max node.ownWritten written }.setThread thread .idle)
  | counterWrite {thread : ℕ} : NodeStep node (.counterWrite thread) { node with fresh := node.fresh.written }
  | call {thread : ℕ} {call : CacheCall κ} {event : NodeEvent κ} {next : Node κ}
      (calling : node.threads thread = .calling call) (stepped : CallStep node thread call event next) :
    NodeStep node event next

theorem step_cases {event : NodeEvent κ} (stepped : node.step event = some next) : NodeStep node event next := by
  unfold step at stepped
  split at stepped
  · next nobody =>
    cases event with
    | remoteWrite => exact Option.some.inj stepped ▸ .remoteWrite
    | _ => simp [actor] at nobody
  · next thread acting =>
    split at stepped
    · obtain rfl : _ = thread := by simpa [actor] using acting
      exact Option.some.inj stepped ▸ .begin
    · obtain rfl : _ = thread := by simpa [actor] using acting
      exact Option.some.inj stepped ▸ .commit
    · next written _ writing =>
      obtain rfl : _ = thread := by simpa [actor] using acting
      exact Option.some.inj stepped ▸ .writeReturns writing
    · obtain rfl : _ = thread := by simpa [actor] using acting
      exact Option.some.inj stepped ▸ .counterWrite
    · next call calling => exact .call calling (callStep_cases acting stepped)
    · cases stepped

private theorem Sound.callStep (sound : node.Sound) {call : CacheCall κ} {event : NodeEvent κ}
    (calling : node.threads thread = .calling call) (asRead : node.StoresAsRead event) (advances : node.Advances event)
    (stepped : CallStep node thread call event next) : next.Sound := by
  have ok := sound.calls thread call calling
  obtain ⟨need, check, fills⟩ := call
  cases stepped with
  | skip due skipped =>
    apply sound.setThread
    rintro _ ⟨⟩
    exact ⟨by simp, ok.readAt, ok.given, ok.reads, ok.nested⟩
  | enter due =>
    apply (sound.withFresh (by rfl) _).setThread
    rintro _ ⟨⟩
    exact ⟨by simp, ok.readAt, ok.given, ok.reads, ok.nested⟩
  | ask asking =>
    apply sound.setThread
    rintro _ ⟨⟩
    refine ⟨?_, ok.readAt, ok.given, ok.reads, ok.nested⟩
    rintro _ ⟨⟩
    exact Int.le_refl _
  | @adopt current answered =>
    cases answered
    have read : current ≤ node.committed := ok.answered current rfl
    have advance : node.version ≤ current := by
      apply advances
      simp [pendingVersion, openCall, calling]
    apply (sound.adoptVersion advance read).setThread
    rintro _ ⟨⟩
    have later := ok.advances advance
    rw [version_adoptVersion]
    exact ⟨by simp, later.readAt, later.given, later.reads, later.nested⟩
  | recheck passed =>
    apply sound.setThread
    rintro _ ⟨⟩
    exact ⟨by simp, ok.readAt, ok.given, ok.reads, ok.nested⟩
  | look passed => exact sound.look ok passed _ _
  | @query fill outer passed same =>
    cases same
    apply sound.setThread
    rintro _ ⟨⟩
    have here : fill.readAt ≤ node.committed := Int.le_trans (ok.readAt fill List.mem_cons_self) sound.version_le
    exact ok.readsOn (by simpa using here)
  | @store fill outer rowKeys passed same merging lacking =>
    cases same
    have unasked : fill.cache.rechecks = false := by
      cases name : fill.cache <;> simp_all [CacheName.merges, CacheName.rechecks]
    have same : node.version = fill.readAt :=
      asRead fill (by simp [openFill, openCall, calling]) unasked lacking
    have kept : ((fill.missing ++ rowKeys).foldl (Cache.merge fill.reads) (node.caches fill.cache)).Over node.version := by
      apply Cache.Over.foldl_merge _ _ (sound.entries fill.cache)
      rw [same]
      exact ok.reads fill List.mem_cons_self
    apply (sound.setCache kept).setThread
    rintro _ ⟨⟩
    have stored : CallSound node.version node.committed
        ⟨need, check, { fill with missing := [], reads := fill.reads ++ [] } :: outer⟩ := ok.readsOn (by simp)
    rw [List.append_nil] at stored
    exact stored
  | @finish fill outer passed same =>
    cases passed
    cases same
    apply sound.finishFill ok
    exact asRead fill (by simp [openFill, openCall, calling])
  | decline passed same =>
    cases passed
    cases same
    exact sound.give ok.outer (by simp)
  | fail =>
    apply sound.setThread
    rintro _ ⟨⟩

theorem Sound.step (sound : node.Sound) {event : NodeEvent κ} (asRead : node.StoresAsRead event)
    (advances : node.Advances event) (stepped : node.step event = some next) : next.Sound := by
  cases step_cases stepped with
  | remoteWrite => exact sound.commits
  | begin =>
    apply sound.setThread
    rintro _ ⟨⟩
    exact ⟨by simp, by simp, by simp, by simp, .nil⟩
  | commit =>
    apply sound.commits.setThread
    rintro _ ⟨⟩
  | writeReturns writing =>
    apply (sound.withFresh (by rfl) _).setThread
    rintro _ ⟨⟩
  | counterWrite => exact sound.withFresh (by rfl) _
  | call calling stepped => exact sound.callStep calling asRead advances stepped

/-- What the cache of a node may never do: hold a value read from a policy older than the version the
node has adopted, or hand one out after it. -/
def CachesFresh (node : Node κ) : Prop :=
  (∀ name, ∀ entry ∈ node.caches name, ∀ read ∈ entry.reads, node.version ≤ read) ∧
    ∀ pair ∈ node.served, ∀ read ∈ pair.2, pair.1 ≤ read

/-- Along every run whose fills store as they read and whose checks never go back, no cache holds or
hands out a value older than the version adopted. -/
theorem caches_never_older (committed : ℕ) (events : List (NodeEvent κ)) (last : Node κ)
    (along : Runs.Along step (fun node event => node.StoresAsRead event ∧ node.Advances event) (init committed) events)
    (ran : Runs.run step (init committed) events = some last) : last.CachesFresh := by
  have sound : last.Sound := Runs.run_keeps step _ (fun held meets stepped => held.step meets.1 meets.2 stepped)
    (sound_init committed) along ran
  exact ⟨sound.entries, sound.served⟩

/-- A node resolves an object, another node writes, and the check after it adopts the new version; the
object is resolved again from it. -/
def resolvedTwice : List (NodeEvent Unit) :=
  [.begin 0, .enter 0 0 1000, .ask 0, .adopt 0, .look 0 .objects [()], .query 0, .finish 0,
   .remoteWrite,
   .begin 0, .enter 0 2000 1000, .ask 0, .adopt 0, .look 0 .objects [()], .query 0, .finish 0,
   .begin 1, .enter 1 2500 1000, .look 1 .objects [()]]

theorem caches_never_older_twice : ∃ last : Node Unit, Runs.run step (init 5) resolvedTwice = some last ∧
    last.version = 6 ∧ last.caches .objects = [⟨(), [6]⟩] ∧ last.CachesFresh := by
  have held : (Runs.run step (init 5) resolvedTwice).map
      (fun node => (node.version, node.caches .objects)) = some (6, [⟨(), [6]⟩]) := by decide
  obtain ⟨last, ran, seen⟩ := Option.map_eq_some_iff.mp held
  obtain ⟨version, cached⟩ := Prod.mk.inj seen
  exact ⟨last, ran, version, cached, caches_never_older 5 resolvedTwice last (by decide) ran⟩

/-- Two threads over a policy at version 5: one loads the function model from it, and before it stores
it the other adopts version 6. -/
def staleFunctionModel : List (NodeEvent Unit) :=
  [.begin 0, .enter 0 0 1000, .ask 0, .adopt 0, .look 0 .functionModel [()], .query 0,
   .remoteWrite,
   .begin 1, .enter 1 2000 1000, .ask 1, .adopt 1,
   .finish 0]

theorem function_model_outlives_version :
    ¬ ∀ (events : List (NodeEvent Unit)) (last : Node Unit), Runs.run step (init 5) events = some last →
      last.CachesFresh := by
  intro always
  have held : (Runs.run step (init 5) staleFunctionModel).map
      (fun node => (node.version, node.caches .functionModel)) = some (6, [⟨(), [5]⟩]) := by decide
  obtain ⟨last, ran, seen⟩ := Option.map_eq_some_iff.mp held
  obtain ⟨version, cached⟩ := Prod.mk.inj seen
  have fresh := (always _ last ran).1 .functionModel ⟨(), [5]⟩ (by simp [cached]) 5 (by simp)
  rw [version] at fresh
  exact absurd fresh (by decide)

end Node

end DuckAcl
