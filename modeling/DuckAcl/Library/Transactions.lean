import Mathlib.Data.List.Nodup
import DuckAcl.Library.Outcome
import DuckAcl.Library.Runs

/-! # Calls that read, then write

A call makes reads of its own, each at its moment, and then runs one transaction, which reads a
snapshot of the database and commits what the call makes of the snapshot and of what it read before.
Every transaction writes one common row, so of two that overlap the second to commit fails. Two calls
interleave; each alone is one step of a serial execution.
-/

namespace DuckAcl

/-- A call over a database: the reads before its transaction, and what the transaction commits. -/
structure WriteCall (σ α ε : Type) where
  outside : List (σ → Except ε α)
  inside : List α → σ → Except ε σ

/-- How far a call is. -/
inductive CallProgress (σ α ε : Type) where
  | reading (left : List (σ → Except ε α)) (answers : List α)
  | opened (answers : List α) (snapshot : σ) (version : ℕ)
  | returned
  | threw

/-- Two calls over one database. The version counts its commits. -/
structure Interleaving (σ α ε : Type) where
  db : σ
  version : ℕ
  progress : Bool → CallProgress σ α ε

variable {σ α ε : Type}

/-- The call with nothing in between. -/
def WriteCall.alone (call : WriteCall σ α ε) (db : σ) : Except ε σ := do
  let answers ← call.outside.mapM (· db)
  call.inside answers db

namespace Interleaving

def move (state : Interleaving σ α ε) (thread : Bool) (now : CallProgress σ α ε) : Interleaving σ α ε :=
  { state with progress := Function.update state.progress thread now }

variable (calls : Bool → WriteCall σ α ε)

/-- Both calls at their start. -/
def start (db : σ) : Interleaving σ α ε where
  db
  version := 0
  progress thread := .reading (calls thread).outside []

/-- The next step of a call: a read, the begin of its transaction, or its commit. -/
def step (state : Interleaving σ α ε) (thread : Bool) : Option (Interleaving σ α ε) :=
  match state.progress thread with
  | .reading (read :: left) answers =>
    match read state.db with
    | .ok answer => some (state.move thread (.reading left (answers ++ [answer])))
    | .error _ => some (state.move thread .threw)
  | .reading [] answers => some (state.move thread (.opened answers state.db state.version))
  | .opened answers snapshot version =>
    if version = state.version then
      match (calls thread).inside answers snapshot with
      | .ok next => some { state.move thread .returned with db := next, version := state.version + 1 }
      | .error _ => some (state.move thread .threw)
    else some (state.move thread .threw)
  | .returned => none
  | .threw => none

/-- The step commits nothing that changes an answer the other call has already read and will still use
in a transaction it has not begun. -/
def KeepsReads (state : Interleaving σ α ε) (thread : Bool) : Prop :=
  ∀ answers snapshot next, state.progress thread = .opened answers snapshot state.version →
    (calls thread).inside answers snapshot = .ok next →
    ∀ left read, state.progress (!thread) = .reading left read →
      ((calls !thread).outside.take read.length).mapM (· next) = .ok read

/-- The database is the one the calls that returned give, one after the other. -/
def Serial (db : σ) (state : Interleaving σ α ε) : Prop :=
  ∃ order : List Bool, order.Nodup ∧ (∀ thread, thread ∈ order ↔ state.progress thread = .returned) ∧
    order.foldlM (fun db thread => (calls thread).alone db) db = .ok state.db

/-- What a call has read is what the database holds, as long as its transaction can commit. -/
def Current (state : Interleaving σ α ε) (thread : Bool) : Prop :=
  match state.progress thread with
  | .reading left answers =>
    (calls thread).outside = (calls thread).outside.take answers.length ++ left ∧
      ((calls thread).outside.take answers.length).mapM (· state.db) = .ok answers
  | .opened answers snapshot version => version ≤ state.version ∧
    (version = state.version → snapshot = state.db ∧ (calls thread).outside.mapM (· state.db) = .ok answers)
  | _ => True

variable {calls} {state next : Interleaving σ α ε} {thread : Bool}

private theorem mapM_snoc {reads : List (σ → Except ε α)} {read : σ → Except ε α} {db : σ} {answers : List α}
    {answer : α} (before : reads.mapM (· db) = .ok answers) (now : read db = .ok answer) :
    (reads ++ [read]).mapM (· db) = .ok (answers ++ [answer]) := by
  rw [List.mapM_append, before]
  simp only [List.mapM_cons, List.mapM_nil, now]
  rfl

private theorem length_mapM {reads : List (σ → Except ε α)} {db : σ} :
    ∀ {answers : List α}, reads.mapM (· db) = .ok answers → reads.length = answers.length := by
  induction reads with
  | nil =>
    intro answers ran
    cases ran
    rfl
  | cons read reads ih =>
    intro answers ran
    rw [List.mapM_cons] at ran
    obtain ⟨answer, _, ran⟩ := Outcome.bind_eq_ok.mp ran
    obtain ⟨others, read', ran⟩ := Outcome.bind_eq_ok.mp ran
    cases ran
    simp [ih read']

/-- What a step can do. -/
theorem step_cases (stepped : step calls state thread = some next) :
    (∃ read left answers answer, state.progress thread = .reading (read :: left) answers ∧
      read state.db = .ok answer ∧ next = state.move thread (.reading left (answers ++ [answer]))) ∨
    (∃ answers, state.progress thread = .reading [] answers ∧
      next = state.move thread (.opened answers state.db state.version)) ∨
    (∃ answers snapshot result, state.progress thread = .opened answers snapshot state.version ∧
      (calls thread).inside answers snapshot = .ok result ∧
      next = { state.move thread .returned with db := result, version := state.version + 1 }) ∨
    (state.progress thread ≠ .returned ∧ next = state.move thread .threw) := by
  unfold step at stepped
  split at stepped
  · rename_i read left answers at'
    split at stepped
    · rename_i answer made
      exact .inl ⟨read, left, answers, answer, at', made, (Option.some.inj stepped).symm⟩
    · exact .inr (.inr (.inr ⟨by simp [at'], (Option.some.inj stepped).symm⟩))
  · rename_i answers at'
    exact .inr (.inl ⟨answers, at', (Option.some.inj stepped).symm⟩)
  · rename_i answers snapshot version at'
    split_ifs at stepped with alone
    · subst alone
      split at stepped
      · rename_i result made
        exact .inr (.inr (.inl ⟨answers, snapshot, result, at', made, (Option.some.inj stepped).symm⟩))
      · exact .inr (.inr (.inr ⟨by simp [at'], (Option.some.inj stepped).symm⟩))
    · exact .inr (.inr (.inr ⟨by simp [at'], (Option.some.inj stepped).symm⟩))
  · cases stepped
  · cases stepped

private theorem serial_move {db : σ} {now : CallProgress σ α ε} (serial : Serial calls db state)
    (before : state.progress thread ≠ .returned) (after : now ≠ .returned) :
    Serial calls db (state.move thread now) := by
  obtain ⟨order, nodup, listed, ran⟩ := serial
  refine ⟨order, nodup, ?_, ran⟩
  intro other
  by_cases same : other = thread
  · subst same
    simp [move, listed, before, after]
  · simp [move, listed, Function.update_of_ne same]

private theorem current_move {now : CallProgress σ α ε} (current : ∀ other, Current calls state other)
    (mine : Current calls (state.move thread now) thread) (other : Bool) : Current calls (state.move thread now) other := by
  by_cases same : other = thread
  · exact same ▸ mine
  · have kept := current other
    unfold Current at kept ⊢
    rw [show (state.move thread now).progress other = state.progress other from Function.update_of_ne same _ _]
    exact kept

/-- A step that keeps the other call's reads keeps the execution serial and the reads current. -/
theorem step_serial {db : σ} (held : Serial calls db state ∧ ∀ other, Current calls state other)
    (keeps : KeepsReads calls state thread) (stepped : step calls state thread = some next) :
    Serial calls db next ∧ ∀ other, Current calls next other := by
  obtain ⟨serial, current⟩ := held
  have mine := current thread
  rcases step_cases stepped with ⟨read, left, answers, answer, before, made, rfl⟩ | ⟨answers, before, rfl⟩ |
    ⟨answers, snapshot, result, before, made, rfl⟩ | ⟨before, rfl⟩
  · refine ⟨serial_move serial (by simp [before]) (by simp), current_move current ?_⟩
    simp only [Current, before] at mine
    obtain ⟨split, read'⟩ := mine
    have taken : (calls thread).outside.take (answers ++ [answer]).length =
        (calls thread).outside.take answers.length ++ [read] := by
      have long := length_mapM read'
      generalize (calls thread).outside.take answers.length = made at split long
      rw [split, List.length_append, List.length_singleton, ← long, List.take_append]
      simp [List.take_of_length_le]
    simp only [Current, move, Function.update_self, taken]
    refine ⟨?_, mapM_snoc read' made⟩
    rw [List.append_assoc]
    exact split
  · refine ⟨serial_move serial (by simp [before]) (by simp), current_move current ?_⟩
    simp only [Current, before] at mine
    simp only [Current, move, Function.update_self, Nat.le_refl, true_and, true_implies]
    rw [mine.1, List.append_nil]
    exact mine.2
  · simp only [Current, before, true_implies] at mine
    obtain ⟨_, rfl, read⟩ := mine
    constructor
    · obtain ⟨order, nodup, listed, ran⟩ := serial
      have absent : thread ∉ order := by
        rw [listed, before]
        simp
      refine ⟨order ++ [thread], ?_, ?_, ?_⟩
      · rw [List.nodup_append]
        refine ⟨nodup, by simp, ?_⟩
        intro other held last single same
        rw [List.mem_singleton.mp single] at same
        exact absent (same ▸ held)
      · intro other
        by_cases same : other = thread
        · subst same
          simp [move]
        · simp [move, listed, same]
      · rw [List.foldlM_append, ran]
        show ((calls thread).alone state.db >>= _) = _
        rw [WriteCall.alone, read]
        show ((calls thread).inside answers state.db >>= _) = _
        rw [made]
        rfl
    · intro other
      by_cases same : other = thread
      · subst same
        simp [Current, move]
      · have apart : other = !thread := by
          cases other <;> cases thread <;> simp_all
        subst apart
        have other' := current !thread
        have kept : (state.move thread .returned).progress (!thread) = state.progress (!thread) :=
          Function.update_of_ne same _ _
        unfold Current at other' ⊢
        dsimp only
        rw [kept]
        split
        · rename_i left answers' at'
          simp only [at'] at other'
          exact ⟨other'.1, keeps _ _ _ before made _ _ at'⟩
        · rename_i answers' snapshot' version at'
          simp only [at'] at other'
          exact ⟨by omega, by intro same; omega⟩
        · trivial
  · refine ⟨serial_move serial before (by simp), current_move current ?_⟩
    simp [Current, move]

/-- An interleaving in which no commit changes what the other call has read before its transaction ends
as one call after the other, in some order. -/
theorem serial_of_keepsReads {db : σ} {schedule : List Bool} {last : Interleaving σ α ε}
    (ran : Runs.run (step calls) (start calls db) schedule = some last)
    (keeps : Runs.Along (step calls) (KeepsReads calls) (start calls db) schedule)
    (returned : ∀ thread, last.progress thread = .returned) :
    ∃ one other : Bool, one ≠ other ∧ ((calls one).alone db >>= (calls other).alone) = .ok last.db := by
  have initial : Serial calls db (start calls db) ∧ ∀ other, Current calls (start calls db) other := by
    refine ⟨⟨[], List.nodup_nil, by simp [start], rfl⟩, ?_⟩
    intro other
    exact ⟨by simp, rfl⟩
  obtain ⟨⟨order, nodup, listed, serial⟩, _⟩ :=
    Runs.run_keeps (step calls) (KeepsReads calls) (fun held meets stepped => step_serial held meets stepped)
      initial keeps ran
  have all : ∀ thread, thread ∈ order := fun thread => (listed thread).mpr (returned thread)
  -- a list of both calls without repetition has two elements
  match order, nodup, all, serial with
  | [], _, all, _ => exact absurd (all true) (by simp)
  | [one], _, all, _ => exact absurd (all !one) (by cases one <;> simp)
  | [one, other], nodup, _, serial =>
    refine ⟨one, other, by simpa using nodup, ?_⟩
    simpa using serial
  | one :: other :: third :: rest, nodup, _, _ =>
    cases one <;> cases other <;> cases third <;> simp at nodup

/-- Calls that read nothing before their transactions never hold a stale answer. -/
theorem along_of_no_reads (none : ∀ thread, (calls thread).outside = []) (db : σ) (schedule : List Bool) :
    Runs.Along (step calls) (KeepsReads calls) (start calls db) schedule := by
  have unread : ∀ (schedule : List Bool) (state : Interleaving σ α ε),
      (∀ thread left read, state.progress thread = .reading left read → left = [] ∧ read = []) →
      Runs.Along (step calls) (KeepsReads calls) state schedule := by
    intro schedule
    induction schedule with
    | nil => exact fun _ _ => trivial
    | cons thread schedule ih =>
      intro state empty
      refine ⟨?_, ?_⟩
      · intro _ _ _ _ _ left read reading
        rw [none, (empty _ _ _ reading).2]
        rfl
      · cases stepped : step calls state thread with
        | none => trivial
        | some next =>
          apply ih
          have moved : ∀ now, (∀ left read, now = .reading left read → left = [] ∧ read = []) →
              ∀ other left read, (state.move thread now).progress other = .reading left read → left = [] ∧ read = [] := by
            intro now nothing other left read reading
            by_cases same : other = thread
            · subst same
              simp only [move, Function.update_self] at reading
              exact nothing _ _ reading
            · simp only [move, Function.update_of_ne same] at reading
              exact empty _ _ _ reading
          rcases step_cases stepped with ⟨read, left, answers, answer, before, _, rfl⟩ | ⟨answers, before, rfl⟩ |
            ⟨answers, snapshot, result, before, _, rfl⟩ | ⟨before, rfl⟩
          · exact absurd (empty _ _ _ before).1 (List.cons_ne_nil _ _)
          · exact moved _ (by simp)
          · exact moved .returned (by simp)
          · exact moved _ (by simp)
  refine unread schedule _ ?_
  intro thread left read reading
  simp only [start, none, CallProgress.reading.injEq] at reading
  exact ⟨reading.1.symm, reading.2.symm⟩

end Interleaving

end DuckAcl
