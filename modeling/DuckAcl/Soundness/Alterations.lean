import DuckAcl.Model.Alterations

/-! # Alterations that run at the same time

Two alterations both rewrite whole records. A relation is read in the transaction that writes it, so
the database itself keeps two alterations of it apart. A grant and a function are read before their
transaction begins: what the other call commits in between is written over.
-/

namespace DuckAcl

namespace Alteration

/-- Two alterations as calls. -/
def pair (probes : SourceProbes) (refuses : Alteration → Option Text) (first second : Alteration) (thread : Bool) :
    WriteCall PolicyTables PreImage Text :=
  if thread then second.call probes refuses else first.call probes refuses

/-- Two interleaved alterations that return end as one after the other, when neither commits a change to
what the other has read and not yet begun to write. -/
theorem alterations_serial (probes : SourceProbes) (refuses : Alteration → Option Text) (first second : Alteration)
    (store : PolicyTables) (schedule : List Bool) (last : Interleaving PolicyTables PreImage Text)
    (ran : Runs.run (Interleaving.step (pair probes refuses first second))
      (Interleaving.start (pair probes refuses first second) store) schedule = some last)
    (keeps : Runs.Along (Interleaving.step (pair probes refuses first second))
      (Interleaving.KeepsReads (pair probes refuses first second))
      (Interleaving.start (pair probes refuses first second) store) schedule)
    (returned : ∀ thread, last.progress thread = .returned) :
    ((first.call probes refuses).alone store >>= (second.call probes refuses).alone) = .ok last.db ∨
      ((second.call probes refuses).alone store >>= (first.call probes refuses).alone) = .ok last.db := by
  obtain ⟨one, other, apart, serial⟩ := Interleaving.serial_of_keepsReads ran keeps returned
  cases one with
  | false =>
    cases other with
    | false => exact absurd rfl apart
    | true => exact .inl serial
  | true =>
    cases other with
    | false => exact .inr serial
    | true => exact absurd rfl apart

/-- Two alterations of relations that return always end as one after the other. -/
theorem relation_alterations_serial (probes : SourceProbes) (refuses : Alteration → Option Text)
    (vcat vname vcat' vname' : Text) (change change' : PolicyTables.RelationChange) (store : PolicyTables)
    (schedule : List Bool) (last : Interleaving PolicyTables PreImage Text)
    (ran : Runs.run (Interleaving.step (pair probes refuses (.relation vcat vname change) (.relation vcat' vname' change')))
      (Interleaving.start (pair probes refuses (.relation vcat vname change) (.relation vcat' vname' change')) store)
      schedule = some last)
    (returned : ∀ thread, last.progress thread = .returned) :
    ∃ one other, one ≠ other ∧
      ((pair probes refuses (.relation vcat vname change) (.relation vcat' vname' change') one).alone store >>=
        (pair probes refuses (.relation vcat vname change) (.relation vcat' vname' change') other).alone) = .ok last.db := by
  refine Interleaving.serial_of_keepsReads ran (Interleaving.along_of_no_reads ?_ store schedule) returned
  intro thread
  cases thread <;> rfl

/-- Sources that bind nothing. -/
def noSources : SourceProbes where
  predicateError _ _ := (false, [])
  probeSchema _ _ := none
  typeFacts _ _ _ := []
  compilePaths _ _ columns := .ok columns
  plainReference _ := true
  plainColumnName _ := true
  storedExpressionsOk _ := true
  selectItems _ source := source
  selectAll source := source
  keyToSql key := key
  author := []
  authorRoles := []

/-- A catalog granted to a role. -/
def salesGrant : PolicyTables := .of
  [(.roleCatalogs, [(.role, .text "clerk".toList), (.vcat, .text "sales".toList), (.isMain, .boolean false),
     (.caps, .text []), (.rls, .text []), (.columns, .text [])])]

def setRls : Alteration := .grant "clerk".toList "sales".toList (.rls "region = 1".toList)

def setColumns : Alteration := .grant "clerk".toList "sales".toList (.columns "id, amount".toList)

/-- One call after the other. -/
theorem alterations_serial_inTurn :
    ∃ last, Runs.run (Interleaving.step (pair noSources (fun _ => none) setRls setColumns))
        (Interleaving.start (pair noSources (fun _ => none) setRls setColumns) salesGrant)
        [false, false, false, true, true, true] = some last ∧
      (((setRls.call noSources fun _ => none).alone salesGrant >>= (setColumns.call noSources fun _ => none).alone) =
          .ok last.db ∨
        ((setColumns.call noSources fun _ => none).alone salesGrant >>= (setRls.call noSources fun _ => none).alone) =
          .ok last.db) := by
  refine ⟨_, rfl, alterations_serial noSources (fun _ => none) setRls setColumns salesGrant
    [false, false, false, true, true, true] _ rfl ?_ ?_⟩
  · refine ⟨?_, ?_, ?_, ?_, ?_, ?_, trivial⟩
    · intro _ _ _ opened
      cases opened
    · intro _ _ _ opened
      cases opened
    · intro _ _ _ _ _ left read reading
      cases reading
      rfl
    · intro _ _ _ opened
      cases opened
    · intro _ _ _ opened
      cases opened
    · intro _ _ _ _ _ left read reading
      cases reading
  · intro thread
    cases thread <;> rfl

/-- Both calls read, then each writes. -/
theorem alteration_lost :
    ¬ ∀ (probes : SourceProbes) (refuses : Alteration → Option Text) (first second : Alteration)
      (store : PolicyTables) (schedule : List Bool) (last : Interleaving PolicyTables PreImage Text),
      Runs.run (Interleaving.step (pair probes refuses first second))
        (Interleaving.start (pair probes refuses first second) store) schedule = some last →
      (∀ thread, last.progress thread = .returned) →
      ((first.call probes refuses).alone store >>= (second.call probes refuses).alone) = .ok last.db ∨
        ((second.call probes refuses).alone store >>= (first.call probes refuses).alone) = .ok last.db := by
  intro always
  have serial := always noSources (fun _ => none) setRls setColumns salesGrant [false, true, false, false, true, true] _
    rfl (by intro thread; cases thread <;> rfl)
  have rows := serial.imp (congrArg fun result => result.toOption.map fun store => store.grantImage "clerk".toList "sales".toList)
    (congrArg fun result => result.toOption.map fun store => store.grantImage "clerk".toList "sales".toList)
  exact absurd rows (by decide)

end Alteration

end DuckAcl
