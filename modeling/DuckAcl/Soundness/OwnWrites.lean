import DuckAcl.Soundness.PolicyCaches

/-! # A node reads its own writes

`Write` only clears `checked_once`, and the next `EnsureFresh` sets it again before it has asked, so a
third thread can pass on the flag alone and answer from caches the write should have emptied. A call
that skips the check is therefore asked for a version adopted since; with what the caches need
besides, that is enough for every interleaving.
-/

namespace DuckAcl.Node

variable {κ : Type}

/-- A call that has passed its check has a version adopted that is at least the node's last write
before it. -/
structure CallOwns (version committed : Int) (call : CacheCall κ) : Prop where
  need_le : call.need ≤ committed
  answered : ∀ current, call.check = .answered current → call.need ≤ current
  passed : call.check = .passed → call.need ≤ version
  fills : ∀ fill ∈ call.fills, call.need ≤ fill.readAt

/-- Every call under way, and every answer given, has the writes that had returned before it. -/
structure Owns (node : Node κ) : Prop where
  own_le : node.ownWritten ≤ node.committed
  writing : ∀ thread written, node.threads thread = .writing written → written ≤ node.committed
  calls : ∀ thread call, node.threads thread = .calling call → CallOwns node.version node.committed call
  answers : ∀ pair ∈ node.answers, ∀ read ∈ pair.2, pair.1 ≤ read

theorem owns_init (committed : ℕ) : (init committed : Node κ).Owns where
  own_le := by
    show (-1 : Int) ≤ committed
    omega
  writing := by simp [init]
  calls := by simp [init]
  answers := by simp [init]

variable {node next : Node κ} {thread : ℕ}

private theorem Owns.setThread (owns : node.Owns) {now : NodeThread κ}
    (writing : ∀ written, now = .writing written → written ≤ node.committed)
    (calling : ∀ call, now = .calling call → CallOwns node.version node.committed call) :
    (node.setThread thread now).Owns where
  own_le := owns.own_le
  writing := by
    intro other written at_
    by_cases same : other = thread
    · subst same
      simp only [Node.setThread, Function.update_self] at at_
      exact writing written at_
    · simp only [Node.setThread, Function.update_of_ne same] at at_
      exact owns.writing other written at_
  calls := by
    intro other call at_
    by_cases same : other = thread
    · subst same
      simp only [Node.setThread, Function.update_self] at at_
      exact calling call at_
    · simp only [Node.setThread, Function.update_of_ne same] at at_
      exact owns.calls other call at_
  answers := owns.answers

/-- A step that only moves a call on. -/
private theorem Owns.moves (owns : node.Owns) {call : CacheCall κ} (ok : CallOwns node.version node.committed call) :
    (node.setThread thread (.calling call)).Owns := by
  apply owns.setThread
  · rintro _ ⟨⟩
  · rintro _ ⟨⟩
    exact ok

private theorem Owns.give (owns : node.Owns) {need : Int} {outer : List (Fill κ)} {reads : List Int}
    (around : CallOwns node.version node.committed ⟨need, .passed, outer⟩) (above : ∀ read ∈ reads, need ≤ read) :
    (node.give thread need outer reads).Owns := by
  unfold Node.give
  split
  · have answered : { node with answers := (need, reads) :: node.answers }.Owns := by
      refine ⟨owns.own_le, owns.writing, owns.calls, ?_⟩
      intro pair member
      rcases List.mem_cons.mp member with rfl | member
      · exact above
      · exact owns.answers pair member
    apply answered.setThread
    · rintro _ ⟨⟩
    · rintro _ ⟨⟩
  · apply owns.moves
    exact ⟨around.need_le, by simp, around.passed, by simpa using around.fills⟩

private theorem Owns.commits (owns : node.Owns) : { node with committed := node.committed + 1 }.Owns where
  own_le := by
    have := owns.own_le
    show node.ownWritten ≤ node.committed + 1
    omega
  writing thread written at_ := by
    have := owns.writing thread written at_
    show written ≤ node.committed + 1
    omega
  calls thread call at_ := by
    have ok := owns.calls thread call at_
    have := ok.need_le
    exact ⟨by show call.need ≤ node.committed + 1; omega, ok.answered, ok.passed, ok.fills⟩
  answers := owns.answers

private theorem Owns.withFresh (owns : node.Owns) {fresh : Freshness} (same : fresh.version = node.version)
    {own : Int} (bound : own ≤ node.committed) : { node with fresh := fresh, ownWritten := own }.Owns where
  own_le := bound
  writing := owns.writing
  calls thread call at_ := by
    show CallOwns fresh.version node.committed call
    rw [same]
    exact owns.calls thread call at_
  answers := owns.answers

private theorem CallOwns.advances {version committed later : Int} {call : CacheCall κ}
    (owns : CallOwns version committed call) (grew : version ≤ later) : CallOwns later committed call where
  need_le := owns.need_le
  answered := owns.answered
  passed at_ := Int.le_trans (owns.passed at_) grew
  fills := owns.fills

private theorem Owns.adoptVersion (owns : node.Owns) {current : Int} (advance : node.version ≤ current) :
    (node.adoptVersion current).Owns where
  own_le := owns.own_le
  writing := owns.writing
  calls thread call at_ := by
    rw [version_adoptVersion]
    exact (owns.calls thread call at_).advances advance
  answers := owns.answers

private theorem Owns.serve (owns : node.Owns) (reads : List Int) : (node.serve reads).Owns where
  own_le := owns.own_le
  writing := owns.writing
  calls := owns.calls
  answers := owns.answers

private theorem Owns.setCache (owns : node.Owns) (name : CacheName) (cache : Cache κ) :
    (node.setCache name cache).Owns where
  own_le := owns.own_le
  writing := owns.writing
  calls := owns.calls
  answers := owns.answers

private theorem give_caches {need : Int} {outer : List (Fill κ)} {reads : List Int} :
    (node.give thread need outer reads).caches = node.caches ∧
      (node.give thread need outer reads).version = node.version := by
  unfold Node.give
  split <;> exact ⟨rfl, rfl⟩

variable [DecidableEq κ]

private theorem Owns.look (owns : node.Owns) (sound : node.Sound) {call : CacheCall κ}
    (ok : CallOwns node.version node.committed call) (passed : call.check = .passed) (name : CacheName)
    (keys : List κ) : (node.look thread call name keys).Owns := by
  have fresh := ok.passed passed
  have opened : ∀ given, CallOwns node.version node.committed { call with
      fills := ⟨name, keys, (node.caches name).missing keys, node.version, given, []⟩ :: call.fills } := by
    intro given
    exact ⟨ok.need_le, ok.answered, ok.passed, by simpa using ⟨fresh, ok.fills⟩⟩
  unfold Node.look
  dsimp only
  split_ifs
  · exact owns.moves (opened [])
  · apply (owns.serve _).give
    · obtain ⟨need, check, fills⟩ := call
      exact passed ▸ ok
    · intro read behind
      exact Int.le_trans fresh ((sound.entries name).readsOf keys read behind)
  · exact (owns.serve _).moves (opened _)

/-- The last critical section of a fill. What a merging cache or `function_model` hands out is in the
cache afterwards, and so no older than the version adopted. -/
private theorem Owns.finishFill (owns : node.Owns) {need : Int} {fill : Fill κ} {outer : List (Fill κ)}
    (ok : CallOwns node.version node.committed ⟨need, .passed, fill :: outer⟩)
    (reads : CallSound node.version node.committed ⟨need, .passed, fill :: outer⟩)
    (sound : (node.finishFill thread ⟨need, .passed, fill :: outer⟩ fill outer).Sound) :
    (node.finishFill thread ⟨need, .passed, fill :: outer⟩ fill outer).Owns := by
  have inFront : fill ∈ fill :: outer := List.mem_cons_self
  have fresh : need ≤ node.version := ok.passed rfl
  have around : CallOwns node.version node.committed ⟨need, .passed, outer⟩ :=
    ⟨ok.need_le, by simp, ok.passed, fun other member => ok.fills other (List.mem_cons_of_mem _ member)⟩
  have computed : ∀ read ∈ fill.given ++ fill.reads, need ≤ read := by
    intro read behind
    have looked : need ≤ fill.readAt := ok.fills fill inFront
    rcases List.mem_append.mp behind with given | queried
    · exact Int.le_trans looked (reads.given fill inFront read given)
    · exact Int.le_trans looked (reads.reads fill inFront read queried)
  have entries := sound.entries fill.cache
  unfold Node.finishFill at entries ⊢
  dsimp only at entries ⊢
  split_ifs at entries ⊢ with merging rechecking same
  · apply (owns.serve _).give around
    rw [give_caches.1, give_caches.2] at entries
    intro read behind
    exact Int.le_trans fresh (entries.readsOf fill.keys read behind)
  · exact (owns.setCache _ _).give around computed
  · exact owns.give around computed
  · apply ((owns.setCache _ _).serve _).give around
    rw [give_caches.1, give_caches.2] at entries
    intro read behind
    exact Int.le_trans fresh (entries.readsOf fill.keys read behind)

private theorem Owns.callStep (owns : node.Owns) (before : node.Sound) (after : next.Sound) {call : CacheCall κ}
    {event : NodeEvent κ} (calling : node.threads thread = .calling call) (skips : node.SkipsAdopted event)
    (advances : node.Advances event) (stepped : CallStep node thread call event next) : next.Owns := by
  have ok := owns.calls thread call calling
  have sound := before.calls thread call calling
  obtain ⟨need, check, fills⟩ := call
  cases stepped with
  | skip due skipped =>
    apply owns.moves
    exact ⟨ok.need_le, by simp, fun _ => skips ⟨need, check, fills⟩ (by simp [openCall, calling]) skipped, ok.fills⟩
  | enter due =>
    apply (owns.withFresh (by rfl) owns.own_le).moves
    exact ⟨ok.need_le, by simp, by simp, ok.fills⟩
  | ask asking =>
    apply owns.moves
    refine ⟨ok.need_le, ?_, by simp, ok.fills⟩
    rintro _ ⟨⟩
    exact ok.need_le
  | @adopt current answered =>
    cases answered
    have advance : node.version ≤ current := by
      apply advances
      simp [pendingVersion, openCall, calling]
    apply (owns.adoptVersion advance).moves
    rw [version_adoptVersion]
    exact ⟨ok.need_le, by simp, fun _ => ok.answered current rfl, ok.fills⟩
  | recheck passed =>
    apply owns.moves
    exact ⟨ok.need_le, by simp, by simp, ok.fills⟩
  | look passed => exact owns.look before ok passed _ _
  | query passed same =>
    cases same
    apply owns.moves
    exact ⟨ok.need_le, ok.answered, ok.passed, by simpa using ok.fills⟩
  | store passed same merging lacking =>
    cases same
    apply (owns.setCache _ _).moves
    exact ⟨ok.need_le, ok.answered, ok.passed, by simpa using ok.fills⟩
  | finish passed same =>
    cases passed
    cases same
    exact owns.finishFill ok sound after
  | decline passed same =>
    cases passed
    cases same
    apply owns.give
    · exact ⟨ok.need_le, by simp, ok.passed, fun other member => ok.fills other (List.mem_cons_of_mem _ member)⟩
    · simp
  | fail =>
    apply owns.setThread
    · rintro _ ⟨⟩
    · rintro _ ⟨⟩

theorem Owns.step (owns : node.Owns) (before : node.Sound) (after : next.Sound) {event : NodeEvent κ}
    (skips : node.SkipsAdopted event) (advances : node.Advances event) (stepped : node.step event = some next) :
    next.Owns := by
  cases step_cases stepped with
  | remoteWrite => exact owns.commits
  | begin =>
    apply owns.moves
    exact ⟨owns.own_le, by simp, by simp, by simp⟩
  | commit =>
    apply owns.commits.setThread
    · rintro _ ⟨⟩
      exact Int.le_refl _
    · rintro _ ⟨⟩
  | writeReturns writing =>
    have bound := owns.writing _ _ writing
    have own := owns.own_le
    apply (owns.withFresh (by rfl) (by omega)).setThread
    · rintro _ ⟨⟩
    · rintro _ ⟨⟩
  | counterWrite => exact owns.withFresh (by rfl) owns.own_le
  | call calling stepped => exact owns.callStep before after calling skips advances stepped

/-- What a step must avoid for the node to read its own writes. -/
def KeepsOwnWrites (node : Node κ) (event : NodeEvent κ) : Prop :=
  node.SkipsAdopted event ∧ node.Advances event ∧ node.StoresAsRead event

instance (node : Node κ) (event : NodeEvent κ) : Decidable (node.KeepsOwnWrites event) :=
  inferInstanceAs (Decidable (_ ∧ _ ∧ _))

/-- Every answer is computed from reads of the policy that include the writes of this node that had
returned when its call began. -/
def AnswersOwn (node : Node κ) : Prop :=
  ∀ pair ∈ node.answers, ∀ read ∈ pair.2, pair.1 ≤ read

theorem reads_own_writes (committed : ℕ) (events : List (NodeEvent κ)) (last : Node κ)
    (along : Runs.Along step KeepsOwnWrites (init committed) events)
    (ran : Runs.run step (init committed) events = some last) : last.AnswersOwn := by
  have keeps : ∀ {node next : Node κ} {event : NodeEvent κ}, node.Sound ∧ node.Owns → node.KeepsOwnWrites event →
      node.step event = some next → next.Sound ∧ next.Owns := by
    rintro node next event ⟨sound, owns⟩ ⟨skips, advances, asRead⟩ stepped
    have after := sound.step asRead advances stepped
    exact ⟨after, owns.step sound after skips advances stepped⟩
  have kept := Runs.run_keeps step KeepsOwnWrites keeps ⟨sound_init committed, owns_init committed⟩ along ran
  exact kept.2.answers

/-- The node writes, and a call after it, with its check made, reads what was written; a second call
inside the interval finds it cached. -/
def readOwnWrite : List (NodeEvent Unit) :=
  [.begin 0, .enter 0 0 1000, .ask 0, .adopt 0, .look 0 .objects [()], .query 0, .finish 0,
   .commit 1, .writeReturns 1,
   .begin 2, .enter 2 10 1000, .ask 2, .adopt 2, .look 2 .objects [()], .query 2, .finish 2,
   .begin 3, .enter 3 20 1000, .look 3 .objects [()]]

theorem reads_own_writes_twice : ∃ last : Node Unit, Runs.run step (init 5) readOwnWrite = some last ∧
    last.answers = [(6, [6]), (6, [6]), (-1, [5])] ∧ last.AnswersOwn := by
  have given : (Runs.run step (init 5) readOwnWrite).map Node.answers = some [(6, [6]), (6, [6]), (-1, [5])] := by
    decide
  obtain ⟨last, ran, seen⟩ := Option.map_eq_some_iff.mp given
  exact ⟨last, ran, seen, reads_own_writes 5 readOwnWrite last (by decide) ran⟩

/-- Version 5 is adopted and an object resolved from it. Thread 1 then writes version 6 and returns;
thread 2 starts a check, and while it asks thread 3 passes on the flag and finds the object cached. -/
def skippedOwnWrite : List (NodeEvent Unit) :=
  [.begin 0, .enter 0 0 1000, .ask 0, .adopt 0, .look 0 .objects [()], .query 0, .finish 0,
   .commit 1, .writeReturns 1,
   .begin 2, .enter 2 10 1000,
   .begin 3, .enter 3 11 1000, .look 3 .objects [()]]

theorem own_write_unread :
    ¬ ∀ (events : List (NodeEvent Unit)) (last : Node Unit), Runs.run step (init 5) events = some last →
      last.AnswersOwn := by
  intro always
  have given : (Runs.run step (init 5) skippedOwnWrite).map Node.answers = some [(6, [5]), (-1, [5])] := by decide
  obtain ⟨last, ran, seen⟩ := Option.map_eq_some_iff.mp given
  have fresh := always _ last ran (6, [5]) (by simp [seen]) 5 (by simp)
  exact absurd fresh (by decide)

end DuckAcl.Node
