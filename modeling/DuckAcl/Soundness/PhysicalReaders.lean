import DuckAcl.Library.Loops
import DuckAcl.Model.PhysicalReaders
import DuckAcl.Soundness.NameKeys

/-! # What a listing could not read

The readers of a statement share what they learned of its sources, in whatever order they run and whatever the sources
answer to each. What a reader leaves out the reader of what is unread names, if it runs later; it names nothing but
sources that failed; and a source that answers nothing is tried, and counted, once.
-/

namespace DuckAcl

open NamePath (foldKey toKey)

/-! ## Keys up to case -/

private theorem foldKey_eq (parts : List Text) : foldKey parts = toKey (parts.map Text.fold) :=
  (NamePath.toKey_fold parts).symm

private theorem foldKey_congr {first second : List Text} (same : first.map Text.fold = second.map Text.fold) :
    foldKey first = foldKey second := by
  rw [foldKey_eq, foldKey_eq, same]

private theorem fold_of_foldKey {first second : List Text} (one : ∀ part ∈ first, part ≠ []) (two : ∀ part ∈ second, part ≠ [])
    (same : foldKey first = foldKey second) : first.map Text.fold = second.map Text.fold :=
  NamePath.forall₂_ciEquals.mp ((NamePath.foldKey_iff one two).mp same)

/-- A path a reader takes has named parts. -/
private theorem named_of_path {kind : PhysicalKind} {key database schema : Text} {object : Option Text}
    (path : readablePath kind key = some (database, schema, object)) :
    ∀ part ∈ database :: schema :: object.toList, part ≠ [] := by
  unfold readablePath at path
  split at path
  · next first second read =>
    simp only [Option.some.injEq, Prod.mk.injEq] at path
    obtain ⟨rfl, rfl, rfl⟩ := path
    exact (NamePath.fromKey_isName read).2
  · next first second third read =>
    split_ifs at path
    simp only [Option.some.injEq, Prod.mk.injEq] at path
    obtain ⟨rfl, rfl, rfl⟩ := path
    exact (NamePath.fromKey_isName read).2
  · cases path

/-- The objects of a schema have keys that name it, also where an object has no name. -/
private theorem group_of_object {database schema object database' schema' object' : Text} (one : database ≠ []) (two : schema ≠ [])
    (one' : database' ≠ []) (two' : schema' ≠ [])
    (same : foldKey [database, schema, object] = foldKey [database', schema', object']) :
    foldKey [database, schema] = foldKey [database', schema'] := by
  have trailing : ∀ {a b : Text}, foldKey [a, b, []] = foldKey [a, b] ++ ['.'] := by
    intro a b
    rw [foldKey_eq, foldKey_eq, List.map_cons, List.map_cons, List.map_cons, List.map_nil]
    have split := @NamePath.toKey_append [Text.fold a, Text.fold b] [Text.fold []] (by simp) (by simp)
    rw [List.cons_append, List.cons_append, List.nil_append] at split
    rw [split, NamePath.toKey_one]
    rfl
  have named : ∀ {a b : Text}, a ≠ [] → b ≠ [] → NamePath.IsName ([a, b].map Text.fold) := by
    intro a b one two
    refine ⟨by simp, fun part member => ?_⟩
    simp only [List.map_cons, List.map_nil, List.mem_cons, List.not_mem_nil, or_false] at member
    rcases member with rfl | rfl
    · exact mt Text.fold_eq_nil.mp one
    · exact mt Text.fold_eq_nil.mp two
  have read : ∀ {a b c : Text}, a ≠ [] → b ≠ [] → c ≠ [] → NamePath.fromKey (foldKey [a, b, c]) ≠ none := by
    intro a b c one two three
    rw [foldKey_eq, NamePath.fromKey_toKey]
    · simp
    · refine ⟨by simp, fun part member => ?_⟩
      obtain ⟨raw, among, rfl⟩ := List.mem_map.mp member
      simp only [List.mem_cons, List.not_mem_nil, or_false] at among
      rcases among with rfl | rfl | rfl
      · exact mt Text.fold_eq_nil.mp one
      · exact mt Text.fold_eq_nil.mp two
      · exact mt Text.fold_eq_nil.mp three
  have unread : ∀ {a b : Text}, a ≠ [] → b ≠ [] → NamePath.fromKey (foldKey [a, b, []]) = none := by
    intro a b one two
    rw [trailing, foldKey_eq]
    exact NamePath.fromKey_trailing (named one two)
  by_cases nameless : object = []
  · by_cases nameless' : object' = []
    · subst nameless nameless'
      rw [trailing, trailing] at same
      exact List.append_cancel_right same
    · subst nameless
      exact absurd (same ▸ unread one two) (read one' two' nameless')
  · by_cases nameless' : object' = []
    · subst nameless'
      exact absurd (same.symm ▸ unread one' two') (read one two nameless)
    · have parts := fold_of_foldKey (by simp [one, two, nameless]) (by simp [one', two', nameless']) same
      simp only [List.map_cons, List.map_nil, List.cons.injEq] at parts
      exact foldKey_congr (by simp [parts.1, parts.2.1])

/-! ## What the sources hold -/

/-- An object of a source: its database and schema as the catalog spells them, and the entry. -/
abbrev PhysicalObject := Text × Text × PhysicalEntry

/-- The key an object is emitted under. -/
def PhysicalObject.key (object : PhysicalObject) : Text := foldKey [object.1, object.2.1, object.2.2.name]

namespace SourceAnswers

variable (answers : SourceAnswers)

/-- The objects the sources hold under a path; nothing where they cannot be read. -/
def held (database schema : Text) (object : Option Text) : Option (List PhysicalObject) :=
  match answers.database database with
  | .error _ | .ok none => none
  | .ok (some found) =>
    if found.hidden then some []
    else
      match object with
      | some object =>
        match found.entry schema object with
        | .error _ => none
        | .ok none => some []
        | .ok (some (spelled, entry)) => some [(found.name, spelled, entry)]
      | none =>
        match found.schema schema with
        | .error _ => none
        | .ok none => some []
        | .ok (some inside) =>
          if inside.throws = none then some (inside.entries.map fun entry => (found.name, inside.name, entry)) else none

/-- The class of failure a read of the path meets. -/
def fault (database schema : Text) (object : Option Text) : Option Text :=
  match answers.database database with
  | .error (.failed errorClass) => some errorClass
  | .error .ends => none
  | .ok none => some notAttached
  | .ok (some found) =>
    if found.hidden then none
    else
      match object with
      | some object =>
        match found.entry schema object with
        | .error (.failed errorClass) => some errorClass
        | _ => none
      | none =>
        match found.schema schema with
        | .error (.failed errorClass) => some errorClass
        | .ok (some inside) =>
          match inside.throws with
          | some (.failed errorClass) => some errorClass
          | _ => none
        | _ => none

variable {answers} {database schema database' schema' : Text} {object object' : Option Text}

private theorem database_congr (same : Text.fold database = Text.fold database') :
    answers.database database = answers.database database' := by
  rw [← answers.database_fold database, same, answers.database_fold]

/-- What the sources hold under a path is looked up without its case. -/
theorem held_congr (same : (database :: schema :: object.toList).map Text.fold = (database' :: schema' :: object'.toList).map Text.fold) :
    answers.held database schema object = answers.held database' schema' object' := by
  simp only [List.map_cons, List.cons.injEq] at same
  obtain ⟨one, two, three⟩ := same
  unfold held
  rw [database_congr one]
  cases answers.database database' with
  | error => rfl
  | ok found =>
    cases found with
    | none => rfl
    | some found =>
      have inside : found.schema schema = found.schema schema' := by
        rw [← found.schema_fold schema, two, found.schema_fold]
      cases object with
      | none =>
        cases object' with
        | none => simp only [inside]
        | some object' => simp at three
      | some object =>
        cases object' with
        | none => simp at three
        | some object' =>
          have entry : found.entry schema object = found.entry schema' object' := by
            simp only [Option.toList_some, List.map_cons, List.map_nil, List.cons.injEq, and_true] at three
            rw [← found.entry_fold schema object, two, three, found.entry_fold]
          simp only [entry]

/-- What is held under a path is of its database and schema. -/
theorem held_named {objects : List PhysicalObject} (holds : answers.held database schema object = some objects)
    {found : PhysicalObject} (member : found ∈ objects) :
    Text.fold found.1 = Text.fold database ∧ Text.fold found.2.1 = Text.fold schema := by
  unfold held at holds
  split at holds
  · cases holds
  · cases holds
  · next attached lookup =>
    have named := answers.database_named _ _ lookup
    split_ifs at holds with hidden
    · obtain rfl := Option.some.inj holds
      cases member
    · split at holds
      · split at holds
        · cases holds
        · obtain rfl := Option.some.inj holds
          cases member
        · next spelled entry there =>
          obtain rfl := Option.some.inj holds
          obtain rfl := List.mem_singleton.mp member
          exact ⟨named, (attached.entry_named _ _ _ there).1⟩
      · split at holds
        · cases holds
        · obtain rfl := Option.some.inj holds
          cases member
        · next inside there =>
          split_ifs at holds
          obtain rfl := Option.some.inj holds
          obtain ⟨entry, _, rfl⟩ := List.mem_map.mp member
          exact ⟨named, attached.schema_named _ _ there⟩

end SourceAnswers

/-! ## What a read does -/

namespace PhysicalReading

/-- The objects of a scan, one after the other. -/
def emitAll (kind : PhysicalKind) (reading : PhysicalReading) (objects : List PhysicalObject) : PhysicalReading :=
  objects.foldl (fun reading object => reading.emit kind object.1 object.2.1 object.2.2) reading

/-- The rows of an object. -/
def rowsOf (kind : PhysicalKind) (object : PhysicalObject) : List PhysicalRow :=
  physicalRows (decide (kind = .columns)) object.1 object.2.1 object.2.2

variable {kind : PhysicalKind} {reading : PhysicalReading}

private theorem emit_frame (object : PhysicalObject) :
    (reading.emit kind object.1 object.2.1 object.2.2).cache = reading.cache ∧
      (reading.emit kind object.1 object.2.1 object.2.2).seen = reading.seen ∧
      (reading.emit kind object.1 object.2.1 object.2.2).unreadable = reading.unreadable := by
  unfold emit
  dsimp only
  split_ifs <;> exact ⟨rfl, rfl, rfl⟩

private theorem emit_known {object : PhysicalObject} (there : object.key ∈ reading.emitted) :
    reading.emit kind object.1 object.2.1 object.2.2 = reading := if_pos there

private theorem emit_fresh {object : PhysicalObject} (fresh : object.key ∉ reading.emitted) :
    reading.emit kind object.1 object.2.1 object.2.2 =
      { reading with
        emitted := object.key :: reading.emitted
        rows := if kind = .unread then reading.rows else reading.rows ++ rowsOf kind object } := if_neg fresh

theorem emitAll_frame (objects : List PhysicalObject) :
    (reading.emitAll kind objects).cache = reading.cache ∧ (reading.emitAll kind objects).seen = reading.seen ∧
      (reading.emitAll kind objects).unreadable = reading.unreadable := by
  induction objects generalizing reading with
  | nil => exact ⟨rfl, rfl, rfl⟩
  | cons object rest ih =>
    obtain ⟨cache, seen, unreadable⟩ := @ih (reading.emit kind object.1 object.2.1 object.2.2)
    obtain ⟨cache', seen', unreadable'⟩ := @emit_frame kind reading object
    exact ⟨cache.trans cache', seen.trans seen', unreadable.trans unreadable'⟩

/-- The rows of a scan go, the objects it met stay met. -/
private theorem emitAll_rows_back (objects : List PhysicalObject) :
    { reading.emitAll kind objects with rows := reading.rows } =
      { reading with emitted := (reading.emitAll kind objects).emitted } := by
  obtain ⟨cache, seen, unreadable⟩ := @emitAll_frame kind reading objects
  rw [PhysicalReading.mk.injEq]
  exact ⟨rfl, seen, rfl, cache, unreadable⟩

theorem mem_emitted {objects : List PhysicalObject} {name : Text} :
    name ∈ (reading.emitAll kind objects).emitted ↔ name ∈ reading.emitted ∨ ∃ object ∈ objects, object.key = name := by
  induction objects generalizing reading with
  | nil => simp [emitAll]
  | cons object rest ih =>
    have one : name ∈ (reading.emit kind object.1 object.2.1 object.2.2).emitted ↔ name ∈ reading.emitted ∨ object.key = name := by
      by_cases there : object.key ∈ reading.emitted
      · rw [emit_known there]
        exact ⟨.inl, fun either => either.elim id fun is => is ▸ there⟩
      · rw [emit_fresh there, List.mem_cons, or_comm, eq_comm]
    show name ∈ ((reading.emit kind object.1 object.2.1 object.2.2).emitAll kind rest).emitted ↔ _
    rw [ih, one, List.exists_mem_cons_iff, or_assoc]

theorem rows_emitAll (objects : List PhysicalObject) {row : PhysicalRow} (member : row ∈ reading.rows) :
    row ∈ (reading.emitAll kind objects).rows := by
  induction objects generalizing reading with
  | nil => exact member
  | cons object rest ih =>
    refine @ih (reading.emit kind object.1 object.2.1 object.2.2) ?_
    by_cases there : object.key ∈ reading.emitted
    · rwa [emit_known there]
    · rw [emit_fresh there]
      dsimp only
      split_ifs
      · exact member
      · exact List.mem_append_left _ member

/-- An object of a scan is there with its rows, itself or the one of its name before it. -/
theorem shown_of_emitAll (keeps : kind ≠ .unread) {objects : List PhysicalObject} {object : PhysicalObject} (member : object ∈ objects) :
    object.key ∈ reading.emitted ∨
      ∃ other ∈ objects, other.key = object.key ∧ ∀ row ∈ rowsOf kind other, row ∈ (reading.emitAll kind objects).rows := by
  induction objects generalizing reading with
  | nil => cases member
  | cons first rest ih =>
    have fresh : first.key ∉ reading.emitted → ∀ row ∈ rowsOf kind first, row ∈ (reading.emitAll kind (first :: rest)).rows := by
      intro fresh row inside
      have there : row ∈ (reading.emit kind first.1 first.2.1 first.2.2).rows := by
        rw [emit_fresh fresh]
        dsimp only
        rw [if_neg keeps]
        exact List.mem_append_right _ inside
      exact rows_emitAll rest there
    rcases List.mem_cons.mp member with rfl | later
    · by_cases there : object.key ∈ reading.emitted
      · exact .inl there
      · exact .inr ⟨object, List.mem_cons_self, rfl, fresh there⟩
    · rcases @ih (reading.emit kind first.1 first.2.1 first.2.2) later with before | ⟨other, inside, same, rows⟩
      · by_cases there : object.key ∈ reading.emitted
        · exact .inl there
        · have is : first.key = object.key := by
            by_cases known : first.key ∈ reading.emitted
            · rw [emit_known known] at before
              exact absurd before there
            · rw [emit_fresh known] at before
              exact (List.mem_cons.mp before).elim Eq.symm fun old => absurd old there
          exact .inr ⟨first, List.mem_cons_self, is, fresh (is ▸ there)⟩
      · exact .inr ⟨other, List.mem_cons_of_mem _ inside, same, rows⟩

/-- What a read of a path makes of what was done before: it is known to fail, spared or read already, or it is read. -/
inductive PathRead (kind : PhysicalKind) (answers : SourceAnswers) (reading : PhysicalReading) (database schema : Text)
    (object : Option Text) : PhysicalReading → Prop
  | known (failed : (reading.cache.failed.lookup (foldKey [database, schema])).isSome = true) :
    PathRead kind answers reading database schema object reading
  | spared (failure : SourceFailure) (there : reading.cache.failedDatabase.lookup (Text.fold database) = some failure) :
    PathRead kind answers reading database schema object
      { reading with cache := { reading.cache with
        failed := (foldKey [database, schema], ⟨failure.database, schema, failure.errorClass⟩) :: reading.cache.failed } }
  | probed (is : kind = .unread) (before : foldKey (database :: schema :: object.toList) ∈ reading.cache.read) :
    PathRead kind answers reading database schema object reading
  | hidden (found : AttachedDatabase) (there : answers.database database = .ok (some found)) (hidden : found.hidden = true) :
    PathRead kind answers reading database schema object reading
  | looked (is : kind = .schemas) (rows : List PhysicalRow) :
    PathRead kind answers reading database schema object { reading with rows }
  | answered (other : kind ≠ .schemas) (unfailed : ¬ (reading.cache.failed.lookup (foldKey [database, schema])).isSome = true)
    (unspared : reading.cache.failedDatabase.lookup (Text.fold database) = none)
    (objects : List PhysicalObject) (holds : answers.held database schema object = some objects) :
    PathRead kind answers reading database schema object
      ((reading.emitAll kind objects).answer (Text.fold database) (foldKey (database :: schema :: object.toList)))
  | failed (unspared : reading.cache.failedDatabase.lookup (Text.fold database) = none) (spelled errorClass : Text)
    (named : Text.fold spelled = Text.fold database) (fault : answers.fault database schema object = some errorClass)
    (emitted : List Text)
    (scanned : ∀ name ∈ emitted, name ∈ reading.emitted ∨ ∃ last, name = foldKey [database, schema, last]) :
    PathRead kind answers reading database schema object
      (PhysicalReading.fail { reading with emitted } spelled schema (foldKey [database, schema]) (Text.fold database) errorClass)

variable {answers : SourceAnswers} {after : PhysicalReading} {database schema : Text} {object : Option Text}

private theorem foldl_emit (inside : PhysicalSchema) (name : Text) :
    inside.entries.foldl (emit kind name inside.name) reading =
      reading.emitAll kind (inside.entries.map fun entry => (name, inside.name, entry)) := by
  rw [emitAll, List.foldl_map]

/-- What a scan of a schema emits is keyed under it. -/
private theorem scanned_of_schema {inside : PhysicalSchema} {spelled name : Text} (named : Text.fold spelled = Text.fold database)
    (schemaNamed : Text.fold inside.name = Text.fold schema)
    (member : name ∈ (reading.emitAll kind (inside.entries.map fun entry => (spelled, inside.name, entry))).emitted) :
    name ∈ reading.emitted ∨ ∃ last, name = foldKey [database, schema, last] := by
  rcases mem_emitted.mp member with before | ⟨object, among, rfl⟩
  · exact .inl before
  · obtain ⟨entry, _, rfl⟩ := List.mem_map.mp among
    exact .inr ⟨entry.name, foldKey_congr (by simp [named, schemaNamed])⟩

private theorem readAttached_cases {found : AttachedDatabase} (taken : kind = .schemas → object = none)
    (lookup : answers.database database = .ok (some found))
    (unfailed : ¬ (reading.cache.failed.lookup (foldKey [database, schema])).isSome = true)
    (unspared : reading.cache.failedDatabase.lookup (Text.fold database) = none)
    (read : readAttached kind reading found database schema object = some after) :
    PathRead kind answers reading database schema object after := by
  have named := answers.database_named _ _ lookup
  by_cases hidden : found.hidden = true
  · unfold readAttached at read
    rw [if_pos hidden] at read
    obtain rfl := Option.some.inj read
    exact .hidden found lookup hidden
  · unfold readAttached at read
    rw [if_neg hidden] at read
    -- a failure before anything is scanned
    have failing : ∀ {errorClass : Text}, answers.fault database schema object = some errorClass →
        PathRead kind answers reading database schema object
          (reading.fail found.name schema (foldKey [database, schema]) (Text.fold database) errorClass) :=
      fun fault => .failed unspared found.name _ named fault reading.emitted fun name member => .inl member
    cases object with
    | some object =>
      have other : kind ≠ .schemas := fun is => by cases taken is
      cases is : found.entry schema object with
      | error fault =>
        simp only [is] at read
        cases fault with
        | ends => cases read
        | failed errorClass =>
          obtain rfl := Option.some.inj read
          exact failing (by simp [SourceAnswers.fault, lookup, hidden, is])
      | ok entry =>
        simp only [is] at read
        cases entry with
        | none =>
          obtain rfl := Option.some.inj read
          exact .answered other unfailed unspared [] (by simp [SourceAnswers.held, lookup, hidden, is])
        | some entry =>
          obtain rfl := Option.some.inj read
          exact .answered other unfailed unspared [(found.name, entry.1, entry.2)] (by simp [SourceAnswers.held, lookup, hidden, is])
    | none =>
      cases is : found.schema schema with
      | error fault =>
        simp only [is] at read
        cases fault with
        | ends => cases read
        | failed errorClass =>
          obtain rfl := Option.some.inj read
          exact failing (by simp [SourceAnswers.fault, lookup, hidden, is])
      | ok inside =>
        simp only [is] at read
        cases inside with
        | none =>
          dsimp only at read
          split_ifs at read with schemas
          · obtain rfl := Option.some.inj read
            exact .looked schemas reading.rows
          · obtain rfl := Option.some.inj read
            exact .answered schemas unfailed unspared [] (by simp [SourceAnswers.held, lookup, hidden, is])
        | some inside =>
          dsimp only at read
          split_ifs at read with schemas
          · obtain rfl := Option.some.inj read
            exact .looked schemas _
          · have schemaNamed := found.schema_named _ _ is
            rw [foldl_emit] at read
            cases throws : inside.throws with
            | none =>
              simp only [throws] at read
              obtain rfl := Option.some.inj read
              exact .answered schemas unfailed unspared _ (by simp [SourceAnswers.held, lookup, hidden, is, throws])
            | some fault =>
              simp only [throws] at read
              cases fault with
              | ends => cases read
              | failed errorClass =>
                obtain rfl := Option.some.inj read
                have fault : answers.fault database schema none = some errorClass := by
                  simp [SourceAnswers.fault, lookup, hidden, is, throws]
                have failed := @PathRead.failed kind answers reading database schema none unspared found.name errorClass named fault _
                  fun name => @scanned_of_schema kind reading database schema inside found.name name named schemaNamed
                rw [← emitAll_rows_back] at failed
                exact failed

theorem readPath_cases (taken : kind = .schemas → object = none)
    (read : readPath kind answers reading database schema object = some after) :
    PathRead kind answers reading database schema object after := by
  unfold readPath at read
  dsimp only at read
  by_cases failed : (reading.cache.failed.lookup (foldKey [database, schema])).isSome = true
  · rw [if_pos failed] at read
    obtain rfl := Option.some.inj read
    exact .known failed
  · rw [if_neg failed] at read
    cases known : reading.cache.failedDatabase.lookup (Text.fold database) with
    | some failure =>
      rw [known] at read
      obtain rfl := Option.some.inj read
      exact .spared failure known
    | none =>
      rw [known] at read
      dsimp only at read
      split_ifs at read with before
      · obtain rfl := Option.some.inj read
        exact .probed before.1 before.2
      · cases lookup : answers.database database with
        | error fault =>
          rw [lookup] at read
          cases fault with
          | ends => cases read
          | failed errorClass =>
            obtain rfl := Option.some.inj read
            exact .failed known database _ rfl (by simp [SourceAnswers.fault, lookup]) reading.emitted fun name member => .inl member
        | ok found =>
          rw [lookup] at read
          cases found with
          | none =>
            obtain rfl := Option.some.inj read
            exact .failed known database _ rfl (by simp [SourceAnswers.fault, lookup]) reading.emitted fun name member => .inl member
          | some found => exact readAttached_cases taken lookup failed known read

end PhysicalReading

/-! ## What a reader leaves out -/

/-- The schema is known to fail. -/
def PhysicalReadCache.Fails (cache : PhysicalReadCache) (database schema : Text) : Prop :=
  (cache.failed.lookup (foldKey [database, schema])).isSome = true

namespace PhysicalReadCache

variable {cache : PhysicalReadCache} {database schema : Text} {failed : List (Text × SourceFailure)}

private theorem lookup_cons_of_lookup {entry : Text × SourceFailure} {key : Text} (held : (failed.lookup key).isSome = true) :
    ((entry :: failed).lookup key).isSome = true := by
  rw [List.lookup_cons]
  split
  · rfl
  · exact held

private theorem lookup_cons_self (key : Text) (failure : SourceFailure) :
    (((key, failure) :: failed).lookup key).isSome = true := by
  rw [List.lookup_cons, beq_self_eq_true]
  rfl

end PhysicalReadCache

open PhysicalReadCache (lookup_cons_of_lookup lookup_cons_self)

namespace PhysicalReading

/-- The rows show an object with the key, which the sources hold under one of the reader's keys. -/
def Shown (kind : PhysicalKind) (answers : SourceAnswers) (keys : List Text) (rows : List PhysicalRow) (name : Text) : Prop :=
  ∃ key ∈ keys, ∃ database schema object objects, readablePath kind key = some (database, schema, object) ∧
    answers.held database schema object = some objects ∧
      ∃ found ∈ objects, PhysicalObject.key found = name ∧ ∀ row ∈ rowsOf kind found, row ∈ rows

/-- The rows show all that the sources hold under the path. -/
def Whole (kind : PhysicalKind) (answers : SourceAnswers) (keys : List Text) (rows : List PhysicalRow) (database schema : Text)
    (object : Option Text) : Prop :=
  ∃ objects, answers.held database schema object = some objects ∧
    ∀ found ∈ objects, Shown kind answers keys rows (PhysicalObject.key found)

variable {kind : PhysicalKind} {answers : SourceAnswers} {keys : List Text} {reading after : PhysicalReading}
  {database schema key : Text} {object : Option Text}

private theorem Shown.more {rows rows' : List PhysicalRow} {name : Text} (keys' : List Text) (grow : ∀ row ∈ rows, row ∈ rows')
    (shown : Shown kind answers keys rows name) : Shown kind answers (keys ++ keys') rows' name := by
  obtain ⟨key, member, database, schema, object, objects, path, holds, found, inside, named, there⟩ := shown
  exact ⟨key, List.mem_append_left _ member, database, schema, object, objects, path, holds, found, inside, named,
    fun row among => grow row (there row among)⟩

/-- What a reader did with the keys it took. -/
structure Kept (kind : PhysicalKind) (answers : SourceAnswers) (keys : List Text) (reading : PhysicalReading) : Prop where
  seen : ∀ lowered ∈ reading.seen, ∃ key ∈ keys, ∃ database schema object,
    readablePath kind key = some (database, schema, object) ∧ foldKey (database :: schema :: object.toList) = lowered
  settled : ∀ key ∈ keys, ∀ database schema object, readablePath kind key = some (database, schema, object) →
    reading.cache.Fails database schema ∨ Whole kind answers keys reading.rows database schema object
  emitted : ∀ name ∈ reading.emitted, Shown kind answers keys reading.rows name ∨
    ∃ database schema last, database ≠ [] ∧ schema ≠ [] ∧ name = foldKey [database, schema, last] ∧
      reading.cache.Fails database schema

/-- One more key is taken: what was kept stays, and the key is settled. -/
private theorem Kept.take (kept : Kept kind answers keys reading)
    (seen : ∀ lowered ∈ after.seen, lowered ∈ reading.seen ∨ ∃ database schema object,
      readablePath kind key = some (database, schema, object) ∧ foldKey (database :: schema :: object.toList) = lowered)
    (fails : ∀ database schema, reading.cache.Fails database schema → after.cache.Fails database schema)
    (rows : ∀ row ∈ reading.rows, row ∈ after.rows)
    (settled : ∀ database schema object, readablePath kind key = some (database, schema, object) →
      after.cache.Fails database schema ∨ Whole kind answers (keys ++ [key]) after.rows database schema object)
    (emitted : ∀ name ∈ after.emitted, name ∈ reading.emitted ∨ Shown kind answers (keys ++ [key]) after.rows name ∨
      ∃ database schema last, database ≠ [] ∧ schema ≠ [] ∧ name = foldKey [database, schema, last] ∧
        after.cache.Fails database schema) : Kept kind answers (keys ++ [key]) after where
  seen lowered member := by
    rcases seen lowered member with before | here
    · obtain ⟨old, inside, path⟩ := kept.seen lowered before
      exact ⟨old, List.mem_append_left _ inside, path⟩
    · exact ⟨key, List.mem_append_right _ List.mem_cons_self, here⟩
  settled old member database schema object path := by
    rcases List.mem_append.mp member with before | here
    · rcases kept.settled old before database schema object path with failed | ⟨objects, holds, shown⟩
      · exact .inl (fails database schema failed)
      · exact .inr ⟨objects, holds, fun found inside => (shown found inside).more [key] rows⟩
    · obtain rfl := List.mem_singleton.mp here
      exact settled database schema object path
  emitted name member := by
    rcases emitted name member with before | here
    · rcases kept.emitted name before with shown | ⟨database, schema, last, one, two, named, failed⟩
      · exact .inl (shown.more [key] rows)
      · exact .inr ⟨database, schema, last, one, two, named, fails database schema failed⟩
    · exact here

/-- The reading in which a path is taken up. -/
private abbrev taken (reading : PhysicalReading) (database schema : Text) (object : Option Text) : PhysicalReading :=
  { reading with seen := foldKey (database :: schema :: object.toList) :: reading.seen }

/-- What a read of a path shows or knows to fail. -/
private theorem Kept.read (lists : kind = .tables ∨ kind = .columns) (kept : Kept kind answers keys reading)
    (path : readablePath kind key = some (database, schema, object))
    (read : PathRead kind answers (reading.taken database schema object) database schema object after) : Kept kind answers (keys ++ [key]) after := by
  have named := named_of_path path
  have one : database ≠ [] := named _ List.mem_cons_self
  have two : schema ≠ [] := named _ (List.mem_cons_of_mem _ List.mem_cons_self)
  have only : ∀ {goal : Text → Text → Option Text → Prop}, goal database schema object → ∀ database' schema' object',
      readablePath kind key = some (database', schema', object') → goal database' schema' object' := by
    intro goal is database' schema' object' path'
    simp only [path, Option.some.injEq, Prod.mk.injEq] at path'
    obtain ⟨rfl, rfl, rfl⟩ := path'
    exact is
  have seen : ∀ lowered ∈ foldKey (database :: schema :: object.toList) :: reading.seen, lowered ∈ reading.seen ∨
      ∃ database schema object, readablePath kind key = some (database, schema, object) ∧
        foldKey (database :: schema :: object.toList) = lowered := by
    intro lowered member
    rcases List.mem_cons.mp member with rfl | old
    · exact .inr ⟨database, schema, object, path, rfl⟩
    · exact .inl old
  cases read with
  | known failed => exact kept.take seen (fun _ _ => id) (fun _ => id) (only (.inl failed)) fun _ => .inl
  | spared failure there =>
    exact kept.take seen (fun _ _ => lookup_cons_of_lookup) (fun _ => id) (only (.inl (lookup_cons_self _ _))) fun _ => .inl
  | probed is _ => rcases lists with other | other <;> cases other.symm.trans is
  | looked is _ => rcases lists with other | other <;> cases other.symm.trans is
  | hidden found there hidden =>
    have holds : answers.held database schema object = some [] := by simp [SourceAnswers.held, there, hidden]
    exact kept.take seen (fun _ _ => id) (fun _ => id)
      (only (.inr ⟨[], holds, fun _ member => absurd member List.not_mem_nil⟩)) fun _ => .inl
  | answered _ unfailed unspared objects holds =>
    have keeps : kind ≠ .unread := by rcases lists with rfl | rfl <;> decide
    have shown : ∀ found ∈ objects, Shown kind answers (keys ++ [key])
        (emitAll kind (reading.taken database schema object) objects).rows (PhysicalObject.key found) := by
      intro found member
      rcases @shown_of_emitAll kind (reading.taken database schema object) keeps objects found member with old | ⟨other, inside, same, rows⟩
      · rcases kept.emitted _ old with shown | ⟨database', schema', last, one', two', is, failed⟩
        · exact shown.more [key] fun row => @rows_emitAll kind (reading.taken database schema object) objects row
        · -- an object met before its schema failed is of another schema
          obtain ⟨sameDatabase, sameSchema⟩ := SourceAnswers.held_named holds member
          have same : foldKey [database, schema, found.2.2.name] = foldKey [database', schema', last] :=
            (foldKey_congr (by simp [sameDatabase, sameSchema])).trans is
          exact absurd (group_of_object one two one' two' same ▸ failed) unfailed
      · exact ⟨key, List.mem_append_right _ List.mem_cons_self, database, schema, object, objects, path, holds, other, inside,
          same, rows⟩
    refine kept.take ?_ (fun _ _ failed => ?_) (fun row => @rows_emitAll kind (reading.taken database schema object) objects row)
      (only (.inr ⟨objects, holds, shown⟩)) ?_
    · intro lowered member
      have there : lowered ∈ (emitAll kind (reading.taken database schema object) objects).seen := member
      rw [(emitAll_frame objects).2.1] at there
      exact seen lowered there
    · show (List.lookup _ (emitAll kind _ objects).cache.failed).isSome = true
      rw [(emitAll_frame objects).1]
      exact failed
    · intro name member
      rcases mem_emitted.mp member with old | ⟨found, inside, rfl⟩
      · exact .inl old
      · exact .inr (.inl (shown found inside))
  | failed unspared spelled errorClass named fault emitted scanned =>
    refine kept.take seen (fun _ _ => lookup_cons_of_lookup) (fun _ => id) (only (.inl (lookup_cons_self _ _))) ?_
    intro name member
    rcases scanned name member with old | ⟨last, is⟩
    · exact .inl old
    · exact .inr (.inr ⟨database, schema, last, one, two, is, lookup_cons_self _ _⟩)

end PhysicalReading

end DuckAcl
