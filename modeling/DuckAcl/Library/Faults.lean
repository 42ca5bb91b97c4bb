import Mathlib.Data.List.Basic

/-! # Statements on a database that may fail

A statement asks the database for one step after another, and any of them may fail: which ones do is
given by a function of the number of steps asked so far. A transaction reads, computes its writes, runs
them, raises the version and commits; a failure inside it rolls all of it back. A statement is a list of
transactions after its own checks, and what it commits stays when a later transaction fails.
-/

namespace DuckAcl.Faults

variable {σ ω ε : Type}

structure Database (σ : Type) where
  tables : σ
  version : ℕ
  asked : ℕ

abbrev Script (σ ε : Type) := ExceptT ε (StateM (Database σ))

/-- The steps that fail, by their number, and with which error. -/
abbrev Failing (ε : Type) := ℕ → Option ε

/-- One step of the database. -/
def ask (fails : Failing ε) : Script σ ε Unit := fun db =>
  (match fails db.asked with
    | some error => .error error
    | none => .ok (), { db with asked := db.asked + 1 })

def asks (fails : Failing ε) : ℕ → Script σ ε Unit
  | 0 => pure ()
  | n + 1 => do
    ask fails
    asks fails n

/-- Run the writes, each of them a step. -/
def execute (fails : Failing ε) (apply : σ → ω → σ) : List ω → Script σ ε Unit
  | [] => pure ()
  | write :: rest => do
    ask fails
    modify fun db => { db with tables := apply db.tables write }
    execute fails apply rest

structure Transaction (σ ω ε : Type) where
  /-- The queries of its body. -/
  reads : σ → ℕ
  body : σ → Except ε (List ω)
  /-- The steps after the version was raised, the commit being the last. -/
  closing : ℕ

namespace Transaction

def script (fails : Failing ε) (apply : σ → ω → σ) (transaction : Transaction σ ω ε) : Script σ ε Unit := do
  -- BEGIN, and the check that this build may write
  asks fails 2
  let begun ← get
  asks fails (transaction.reads begun.tables)
  let writes ← (transaction.body begun.tables : Script σ ε (List ω))
  execute fails apply writes
  ask fails
  modify fun db => { db with version := db.version + 1 }
  asks fails transaction.closing

/-- The script, rolled back when it fails. -/
def perform (fails : Failing ε) (apply : σ → ω → σ) (transaction : Transaction σ ω ε) : Script σ ε Unit := fun db =>
  match transaction.script fails apply db with
  | (.ok (), after) => (.ok (), after)
  | (.error error, after) => (.error error, { db with asked := after.asked })

/-- How many steps the transaction takes. -/
def cost (transaction : Transaction σ ω ε) (tables : σ) (writes : List ω) : ℕ :=
  2 + transaction.reads tables + writes.length + 1 + transaction.closing

end Transaction

/-- A statement: its checks, the queries they make, and its transactions. -/
structure Statement (σ ω ε : Type) where
  lookups : ℕ
  checks : σ → Except ε Unit
  transactions : List (Transaction σ ω ε)

def performAll (fails : Failing ε) (apply : σ → ω → σ) : List (Transaction σ ω ε) → Script σ ε Unit
  | [] => pure ()
  | transaction :: rest => do
    transaction.perform fails apply
    performAll fails apply rest

def Statement.run (fails : Failing ε) (apply : σ → ω → σ) (statement : Statement σ ω ε) : Script σ ε Unit := do
  asks fails statement.lookups
  let db ← get
  (statement.checks db.tables : Script σ ε Unit)
  performAll fails apply statement.transactions

/-! ## When steps fail -/

/-- None of the steps fails. -/
def Quiet (fails : Failing ε) (start count : ℕ) : Prop := ∀ n, start ≤ n → n < start + count → fails n = none

/-- The transaction comes to its commit: its body finds no fault and no step fails. -/
def Commits (fails : Failing ε) (transaction : Transaction σ ω ε) (tables : σ) (start : ℕ) : Prop :=
  ∃ writes, transaction.body tables = .ok writes ∧ Quiet fails start (transaction.cost tables writes)

/-- Each transaction of the list comes to its commit. -/
def Completes (fails : Failing ε) (apply : σ → ω → σ) : List (Transaction σ ω ε) → σ → ℕ → Prop
  | [], _, _ => True
  | transaction :: rest, tables, start => ∃ writes, transaction.body tables = .ok writes ∧
    Quiet fails start (transaction.cost tables writes) ∧
    Completes fails apply rest (writes.foldl apply tables) (start + transaction.cost tables writes)

/-- The script fails, and leaves the tables and the version. -/
def FailsClean (script : Script σ ε Unit) (db : Database σ) : Prop :=
  ∃ error asked, script db = (.error error, { db with asked := asked })

/-- A script that fails leaves the tables and the version. -/
def UnchangedOnThrow (script : Script σ ε Unit) (db : Database σ) : Prop :=
  ∀ error, (script db).1 = .error error → (script db).2.tables = db.tables ∧ (script db).2.version = db.version

section

variable {α β : Type} {fails : Failing ε} {apply : σ → ω → σ}

theorem bind_of_ok {script : Script σ ε α} {next : α → Script σ ε β} {db after : Database σ} {a : α}
    (ran : script db = (.ok a, after)) : (script >>= next) db = next a after := by
  change (ExceptT.bindCont next (script db).1) (script db).2 = _
  rw [ran]
  rfl

theorem bind_of_error {script : Script σ ε α} {next : α → Script σ ε β} {db after : Database σ} {error : ε}
    (ran : script db = (.error error, after)) : (script >>= next) db = (.error error, after) := by
  change (ExceptT.bindCont next (script db).1) (script db).2 = _
  rw [ran]
  rfl

/-- The script fails. -/
def Throws (script : Script σ ε α) (db : Database σ) : Prop := ∃ error after, script db = (.error error, after)

theorem Throws.bind {script : Script σ ε α} {next : α → Script σ ε β} {db : Database σ} (failed : Throws script db) :
    Throws (script >>= next) db := by
  obtain ⟨error, after, ran⟩ := failed
  exact ⟨error, after, bind_of_error ran⟩

theorem Throws.after {script : Script σ ε α} {next : α → Script σ ε β} {db after : Database σ} {a : α}
    (ran : script db = (.ok a, after)) (failed : Throws (next a) after) : Throws (script >>= next) db := by
  obtain ⟨error, last, failed⟩ := failed
  exact ⟨error, last, (bind_of_ok ran).trans failed⟩

theorem FailsClean.throws {script : Script σ ε Unit} {db : Database σ} (failed : FailsClean script db) :
    Throws script db := by
  obtain ⟨error, asked, ran⟩ := failed
  exact ⟨error, _, ran⟩

theorem FailsClean.bind {script : Script σ ε Unit} {next : Unit → Script σ ε Unit} {db : Database σ}
    (failed : FailsClean script db) : FailsClean (script >>= next) db := by
  obtain ⟨error, asked, ran⟩ := failed
  exact ⟨error, asked, bind_of_error ran⟩

/-! ### Steps -/

theorem quiet_succ {start count : ℕ} :
    Quiet fails start (count + 1) ↔ fails start = none ∧ Quiet fails (start + 1) count := by
  constructor
  · intro quiet
    exact ⟨quiet start (Nat.le_refl _) (by omega), fun n low high => quiet n (by omega) (by omega)⟩
  · rintro ⟨first, rest⟩ n low high
    by_cases same : n = start
    · exact same ▸ first
    · exact rest n (by omega) (by omega)

theorem quiet_add {start first second : ℕ} :
    Quiet fails start (first + second) ↔ Quiet fails start first ∧ Quiet fails (start + first) second := by
  constructor
  · intro quiet
    exact ⟨fun n low high => quiet n low (by omega), fun n low high => quiet n (by omega) (by omega)⟩
  · rintro ⟨before, after⟩ n low high
    by_cases early : n < start + first
    · exact before n low early
    · exact after n (by omega) (by omega)

theorem ask_of_none {db : Database σ} (quiet : fails db.asked = none) :
    ask fails db = (.ok (), { db with asked := db.asked + 1 }) := by
  simp only [ask, quiet]

theorem ask_of_some {db : Database σ} {error : ε} (failed : fails db.asked = some error) :
    ask fails db = (.error error, { db with asked := db.asked + 1 }) := by
  simp only [ask, failed]

theorem asks_of_quiet {count : ℕ} {db : Database σ} (quiet : Quiet fails db.asked count) :
    asks fails count db = (.ok (), { db with asked := db.asked + count }) := by
  induction count generalizing db with
  | zero => rfl
  | succ count ih =>
    obtain ⟨first, rest⟩ := quiet_succ.mp quiet
    have total : db.asked + 1 + count = db.asked + (count + 1) := by omega
    rw [asks, bind_of_ok (ask_of_none first), ih rest]
    simp only [total]

theorem asks_of_loud {count : ℕ} {db : Database σ} (loud : ¬ Quiet fails db.asked count) :
    FailsClean (asks fails count) db := by
  induction count generalizing db with
  | zero => exact (loud fun n low high => by omega).elim
  | succ count ih =>
    rw [quiet_succ, not_and_or] at loud
    cases first : fails db.asked with
    | some error => exact ⟨error, _, bind_of_error (ask_of_some first)⟩
    | none =>
      have rest := loud.resolve_left fun failed => failed first
      obtain ⟨error, asked, ran⟩ := @ih { db with asked := db.asked + 1 } rest
      exact ⟨error, asked, (bind_of_ok (ask_of_none first)).trans ran⟩

theorem execute_of_quiet {writes : List ω} {db : Database σ} (quiet : Quiet fails db.asked writes.length) :
    execute fails apply writes db =
      (.ok (), { db with tables := writes.foldl apply db.tables, asked := db.asked + writes.length }) := by
  induction writes generalizing db with
  | nil => rfl
  | cons write rest ih =>
    obtain ⟨first, others⟩ := quiet_succ.mp quiet
    have moved := @ih { db with tables := apply db.tables write, asked := db.asked + 1 } others
    have unrolled : execute fails apply (write :: rest) db =
        execute fails apply rest { db with tables := apply db.tables write, asked := db.asked + 1 } := by
      rw [execute, bind_of_ok (ask_of_none first)]
      rfl
    have total : db.asked + 1 + rest.length = db.asked + (rest.length + 1) := by omega
    rw [unrolled, moved]
    simp only [List.foldl_cons, List.length_cons, total]

theorem execute_of_loud {writes : List ω} {db : Database σ} (loud : ¬ Quiet fails db.asked writes.length) :
    Throws (execute fails apply writes) db := by
  induction writes generalizing db with
  | nil => exact (loud fun n low high => by simp at high; omega).elim
  | cons write rest ih =>
    rw [List.length_cons, quiet_succ, not_and_or] at loud
    cases first : fails db.asked with
    | some error => exact Throws.bind ⟨error, _, ask_of_some first⟩
    | none =>
      have others := loud.resolve_left fun failed => failed first
      exact Throws.after (ask_of_none first) (Throws.after (a := ()) rfl
        (@ih { db with tables := apply db.tables write, asked := db.asked + 1 } others))

/-! ### Transactions -/

theorem Transaction.perform_of_commits {transaction : Transaction σ ω ε} {db : Database σ} {writes : List ω}
    (found : transaction.body db.tables = .ok writes)
    (quiet : Quiet fails db.asked (transaction.cost db.tables writes)) :
    transaction.perform fails apply db = (.ok (), {
      tables := writes.foldl apply db.tables
      version := db.version + 1
      asked := db.asked + transaction.cost db.tables writes }) := by
  simp only [Transaction.cost, quiet_add] at quiet
  obtain ⟨⟨⟨⟨begins, reads⟩, writing⟩, bump⟩, closing⟩ := quiet
  simp only [← Nat.add_assoc] at writing bump closing
  have script : transaction.script fails apply db = (.ok (), {
      tables := writes.foldl apply db.tables
      version := db.version + 1
      asked := db.asked + transaction.cost db.tables writes }) := by
    unfold Transaction.script
    rw [bind_of_ok (asks_of_quiet begins)]
    refine (bind_of_ok (a := { db with asked := db.asked + 2 }) rfl).trans ?_
    rw [bind_of_ok (asks_of_quiet reads)]
    simp only [found]
    refine (bind_of_ok (a := writes) rfl).trans ?_
    rw [bind_of_ok (execute_of_quiet writing)]
    have bumped := bump (db.asked + 2 + transaction.reads db.tables + writes.length) (Nat.le_refl _) (by omega)
    rw [bind_of_ok (ask_of_none bumped)]
    refine (bind_of_ok (a := ()) rfl).trans ?_
    rw [asks_of_quiet closing]
    simp only [Transaction.cost]
    congr 2
    omega
  simp only [Transaction.perform, script]

/-- A step that fails, or a fault the body finds, ends the script. -/
private theorem Transaction.script_of_not_commits {transaction : Transaction σ ω ε} {db : Database σ}
    (stops : ¬ Commits fails transaction db.tables db.asked) : Throws (transaction.script fails apply) db := by
  unfold Transaction.script
  by_cases begins : Quiet fails db.asked 2
  swap
  · exact (asks_of_loud begins).throws.bind
  refine Throws.after (asks_of_quiet begins) (Throws.after rfl ?_)
  by_cases reads : Quiet fails (db.asked + 2) (transaction.reads db.tables)
  swap
  · exact (asks_of_loud reads).throws.bind
  refine Throws.after (asks_of_quiet reads) ?_
  cases found : transaction.body db.tables with
  | error error =>
    dsimp only
    exact Throws.bind ⟨error, _, rfl⟩
  | ok writes =>
    dsimp only
    refine Throws.after (a := writes) rfl ?_
    by_cases writing : Quiet fails (db.asked + 2 + transaction.reads db.tables) writes.length
    swap
    · exact (execute_of_loud writing).bind
    refine Throws.after (execute_of_quiet writing) ?_
    cases bump : fails (db.asked + 2 + transaction.reads db.tables + writes.length) with
    | some error => exact Throws.bind ⟨error, _, ask_of_some bump⟩
    | none =>
      refine Throws.after (ask_of_none bump) (Throws.after (a := ()) rfl ?_)
      refine (asks_of_loud fun closing => stops ⟨writes, found, ?_⟩).throws
      simp only [Transaction.cost, quiet_add, ← Nat.add_assoc]
      refine ⟨⟨⟨⟨begins, reads⟩, writing⟩, ?_⟩, closing⟩
      exact quiet_succ.mpr ⟨bump, fun n low high => by omega⟩

theorem Transaction.perform_of_not_commits {transaction : Transaction σ ω ε} {db : Database σ}
    (stops : ¬ Commits fails transaction db.tables db.asked) : FailsClean (transaction.perform fails apply) db := by
  obtain ⟨error, after, ran⟩ := @Transaction.script_of_not_commits _ _ _ fails apply _ _ stops
  exact ⟨error, after.asked, by simp only [Transaction.perform, ran]⟩

/-! ### Statements -/

/-- Transactions never lower the version. -/
theorem performAll_version (transactions : List (Transaction σ ω ε)) (db : Database σ) :
    db.version ≤ (performAll fails apply transactions db).2.version := by
  induction transactions generalizing db with
  | nil => exact Nat.le_refl _
  | cons transaction rest ih =>
    by_cases commits : Commits fails transaction db.tables db.asked
    · obtain ⟨writes, found, quiet⟩ := commits
      rw [performAll, bind_of_ok (Transaction.perform_of_commits found quiet)]
      have raised := ih ⟨writes.foldl apply db.tables, db.version + 1, db.asked + transaction.cost db.tables writes⟩
      exact Nat.le_trans (Nat.le_succ _) raised
    · obtain ⟨error, asked, ran⟩ := @Transaction.perform_of_not_commits _ _ _ _ apply _ _ commits
      refine Nat.le_of_eq ?_
      rw [performAll, bind_of_error ran]

theorem performAll_of_completes {transactions : List (Transaction σ ω ε)} {db : Database σ}
    (completes : Completes fails apply transactions db.tables db.asked) :
    ∃ after, performAll fails apply transactions db = (.ok (), after) := by
  induction transactions generalizing db with
  | nil => exact ⟨db, rfl⟩
  | cons transaction rest ih =>
    obtain ⟨writes, found, quiet, others⟩ := completes
    obtain ⟨after, ran⟩ := @ih ⟨writes.foldl apply db.tables, db.version + 1, _⟩ others
    exact ⟨after, (bind_of_ok (Transaction.perform_of_commits found quiet)).trans ran⟩

theorem performAll_of_not_completes {transactions : List (Transaction σ ω ε)} {db : Database σ}
    (stops : ¬ Completes fails apply transactions db.tables db.asked) :
    Throws (performAll fails apply transactions) db := by
  induction transactions generalizing db with
  | nil => exact (stops trivial).elim
  | cons transaction rest ih =>
    by_cases commits : Commits fails transaction db.tables db.asked
    · obtain ⟨writes, found, quiet⟩ := commits
      refine Throws.after (Transaction.perform_of_commits found quiet) (ih fun others => ?_)
      exact stops ⟨writes, found, quiet, others⟩
    · exact (Transaction.perform_of_not_commits commits).throws.bind

/-- The first transaction, if there is one, does not come to its commit. -/
def StopsAtFirst (fails : Failing ε) (transactions : List (Transaction σ ω ε)) (tables : σ) (start : ℕ) : Prop :=
  ∀ transaction ∈ transactions.head?, ¬ Commits fails transaction tables start

/-- A list of transactions that fails changes nothing if and only if it stops at the first one. -/
theorem performAll_unchanged_iff {transactions : List (Transaction σ ω ε)} {db : Database σ} :
    UnchangedOnThrow (performAll fails apply transactions) db ↔
      StopsAtFirst fails transactions db.tables db.asked ∨
        Completes fails apply transactions db.tables db.asked := by
  cases transactions with
  | nil =>
    refine iff_of_true ?_ (Or.inr trivial)
    rintro error ⟨⟩
  | cons transaction rest =>
    by_cases commits : Commits fails transaction db.tables db.asked
    · by_cases completes : Completes fails apply (transaction :: rest) db.tables db.asked
      · obtain ⟨after, ran⟩ := performAll_of_completes completes
        refine iff_of_true ?_ (Or.inr completes)
        intro error failed
        rw [ran] at failed
        cases failed
      · -- the version was raised by the first transaction and stays raised
        refine iff_of_false ?_ ?_
        · intro unchanged
          obtain ⟨error, last, ran⟩ := performAll_of_not_completes completes
          have kept := (unchanged error (by rw [ran])).2
          obtain ⟨writes, found, quiet⟩ := commits
          have raised := @performAll_version _ _ _ fails apply rest
            ⟨writes.foldl apply db.tables, db.version + 1, db.asked + transaction.cost db.tables writes⟩
          rw [performAll, bind_of_ok (Transaction.perform_of_commits found quiet)] at kept
          simp only at raised
          omega
        · rintro (stops | all)
          · exact stops transaction rfl commits
          · exact completes all
    · refine iff_of_true ?_ (Or.inl fun first same => Option.some.inj same ▸ commits)
      obtain ⟨error, asked, ran⟩ := @Transaction.perform_of_not_commits _ _ _ _ apply _ _ commits
      intro other _
      rw [performAll, bind_of_error ran]
      exact ⟨rfl, rfl⟩

/-- The steps of the checks, and what they find. -/
def Statement.Passes (statement : Statement σ ω ε) (fails : Failing ε) (db : Database σ) : Prop :=
  Quiet fails db.asked statement.lookups ∧ statement.checks db.tables = .ok ()

/-- A statement that fails changes nothing if and only if it fails before its first commit, or does not fail. -/
theorem Statement.unchanged_iff {statement : Statement σ ω ε} {db : Database σ} :
    UnchangedOnThrow (statement.run fails apply) db ↔
      ¬ statement.Passes fails db ∨
        StopsAtFirst fails statement.transactions db.tables (db.asked + statement.lookups) ∨
        Completes fails apply statement.transactions db.tables (db.asked + statement.lookups) := by
  by_cases quiet : Quiet fails db.asked statement.lookups
  · cases found : statement.checks db.tables with
    | error error =>
      have refused : ¬ statement.Passes fails db := by
        rintro ⟨-, passed⟩
        rw [found] at passed
        cases passed
      refine iff_of_true ?_ (Or.inl refused)
      have ran : statement.run fails apply db = (.error error, { db with asked := db.asked + statement.lookups }) := by
        unfold Statement.run
        rw [bind_of_ok (asks_of_quiet quiet)]
        refine (bind_of_ok (a := { db with asked := db.asked + statement.lookups }) rfl).trans ?_
        simp only [found]
        exact bind_of_error rfl
      intro other _
      rw [ran]
      exact ⟨rfl, rfl⟩
    | ok _ =>
      have ran : statement.run fails apply db =
          performAll fails apply statement.transactions { db with asked := db.asked + statement.lookups } := by
        unfold Statement.run
        rw [bind_of_ok (asks_of_quiet quiet)]
        refine (bind_of_ok (a := { db with asked := db.asked + statement.lookups }) rfl).trans ?_
        simp only [found]
        exact bind_of_ok (a := ()) rfl
      have transactions := @performAll_unchanged_iff _ _ _ fails apply statement.transactions
        { db with asked := db.asked + statement.lookups }
      simp only [UnchangedOnThrow, ran] at transactions ⊢
      rw [transactions]
      simp only [Statement.Passes, quiet, found, and_self, not_true_eq_false, false_or]
  · refine iff_of_true ?_ (Or.inl fun passes => quiet passes.1)
    obtain ⟨error, asked, ran⟩ := asks_of_loud quiet
    intro other _
    rw [Statement.run, bind_of_error ran]
    exact ⟨rfl, rfl⟩

/-! ### Without faults -/

/-- What transactions leave when no step fails. -/
def outcomes (apply : σ → ω → σ) : List (Transaction σ ω ε) → σ → Except ε σ
  | [], tables => .ok tables
  | transaction :: rest, tables => do
    let writes ← transaction.body tables
    outcomes apply rest (writes.foldl apply tables)

def Statement.outcome (apply : σ → ω → σ) (statement : Statement σ ω ε) (tables : σ) : Except ε σ := do
  statement.checks tables
  outcomes apply statement.transactions tables

private theorem quiet_none (start count : ℕ) : Quiet (fun _ => (none : Option ε)) start count := fun _ _ _ => rfl

theorem performAll_outcomes (transactions : List (Transaction σ ω ε)) (db : Database σ) :
    ((performAll (fun _ => none) apply transactions db).1.map fun _ =>
      (performAll (fun _ => none) apply transactions db).2.tables) = outcomes apply transactions db.tables := by
  induction transactions generalizing db with
  | nil => rfl
  | cons transaction rest ih =>
    cases found : transaction.body db.tables with
    | error error =>
      have ran : transaction.perform (fun _ => none) apply db =
          (.error error, { db with asked := db.asked + 2 + transaction.reads db.tables }) := by
        have script : transaction.script (fun _ => none) apply db =
            (.error error, { db with asked := db.asked + 2 + transaction.reads db.tables }) := by
          unfold Transaction.script
          rw [bind_of_ok (asks_of_quiet (quiet_none _ _))]
          refine (bind_of_ok (a := { db with asked := db.asked + 2 }) rfl).trans ?_
          rw [bind_of_ok (asks_of_quiet (quiet_none _ _))]
          simp only [found]
          exact bind_of_error rfl
        simp only [Transaction.perform, script]
      rw [performAll, bind_of_error ran, outcomes, found]
      rfl
    | ok writes =>
      rw [performAll, bind_of_ok (Transaction.perform_of_commits found (quiet_none _ _)), outcomes, found]
      exact ih _

/-- A statement on a database that does not fail does what its transactions say, one after another. -/
theorem Statement.run_outcome (statement : Statement σ ω ε) (db : Database σ) :
    ((statement.run (fun _ => none) apply db).1.map fun _ => (statement.run (fun _ => none) apply db).2.tables) =
      statement.outcome apply db.tables := by
  have passed : statement.run (fun _ => none) apply db = (do
      (statement.checks db.tables : Script σ ε Unit)
      performAll (fun _ => none) apply statement.transactions : Script σ ε Unit)
        { db with asked := db.asked + statement.lookups } := by
    unfold Statement.run
    rw [bind_of_ok (asks_of_quiet (quiet_none _ _))]
    exact bind_of_ok (a := { db with asked := db.asked + statement.lookups }) rfl
  rw [passed, Statement.outcome]
  cases found : statement.checks db.tables with
  | error error => rfl
  | ok _ => exact performAll_outcomes statement.transactions { db with asked := db.asked + statement.lookups }

end

end DuckAcl.Faults
