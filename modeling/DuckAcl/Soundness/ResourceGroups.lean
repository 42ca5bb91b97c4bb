import DuckAcl.Model.ResourceGroups
import Mathlib.Data.Char
import Mathlib.Data.List.Induction
import Mathlib.Data.List.Lex

/-! # The limits of several groups

Each limit is the most generous of those the contributing groups state, whatever the order of the rows, and
a session is charged to the group that allows the most when every one of them limits its sessions. The
limits are merged one by one: the start of a window comes from one group and its bound from another.
-/

namespace DuckAcl.ResourceGroups

/-- A limit is at least as generous as a value, where 0 may mean unlimited. -/
def AtLeast (zeroIsUnlimited : Bool) (limit value : ℕ) : Prop :=
  (zeroIsUnlimited = true ∧ limit = 0) ∨ (value ≤ limit ∧ ¬ (zeroIsUnlimited = true ∧ value = 0))

/-- The most generous of the values that are stated, a negative one counting as 0; nothing where none is. -/
structure MostGenerous (zeroIsUnlimited : Bool) (stated : ResourceGroup → Option ℤ) (rows : ResourceGroup → Prop)
    (merged : Option ℕ) : Prop where
  least : ∀ row, rows row → ∀ value, stated row = some value →
    ∃ limit, merged = some limit ∧ AtLeast zeroIsUnlimited limit value.toNat
  given : ∀ limit, merged = some limit → ∃ row, rows row ∧ ∃ value, stated row = some value ∧ limit = value.toNat

/-- The highest of the priorities that are stated, or 0. -/
structure Highest (rows : ResourceGroup → Prop) (priority : ℤ) : Prop where
  least : ∀ row, rows row → ∀ value, row.queuePriority = some value → value ≤ priority
  given : (∃ row, rows row ∧ row.queuePriority = some priority) ∨
    (priority = 0 ∧ ∀ row, rows row → row.queuePriority = none)

/-- A group limits the sessions that are charged to it. -/
def ResourceGroup.Limits (row : ResourceGroup) (sessions : ℤ) : Prop := row.maxSessions = some sessions ∧ 0 < sessions

/-- A session is charged when there are groups and each limits its sessions, and then to one that allows the most. -/
structure ChargedTo (rows : ResourceGroup → Prop) (charged : Text) (chargedMax : ℕ) : Prop where
  when : charged ≠ [] ↔ (∃ row, rows row) ∧ ∀ row, rows row → ∃ sessions, row.Limits sessions
  most : charged ≠ [] → ∃ row, rows row ∧ row.group = charged ∧ ∃ sessions, row.Limits sessions ∧
    chargedMax = sessions.toNat ∧ ∀ other, rows other → ∀ fewer, other.Limits fewer → fewer ≤ sessions

/-- The limits that come of the groups that contribute. -/
structure MergedFrom (rows : ResourceGroup → Prop) (limits : ResourceLimits) : Prop where
  windowStart : MostGenerous true ResourceGroup.windowStart rows limits.windowStart
  windowMax : MostGenerous true ResourceGroup.windowMax rows limits.windowMax
  batchBytes : MostGenerous false ResourceGroup.batchBytes rows limits.batchBytes
  maxResultRows : MostGenerous true ResourceGroup.maxResultRows rows limits.maxResultRows
  queuePriority : Highest rows limits.queuePriority
  charged : ChargedTo rows limits.charged limits.chargedMax

/-! ## One limit -/

namespace AtLeast

variable {zeroIsUnlimited : Bool} {limit value : ℕ}

theorem refl (limit : ℕ) : AtLeast zeroIsUnlimited limit limit := by
  by_cases unlimited : zeroIsUnlimited = true ∧ limit = 0
  · exact .inl unlimited
  · exact .inr ⟨le_rfl, unlimited⟩

theorem trans {middle : ℕ} (one : AtLeast zeroIsUnlimited limit middle) (two : AtLeast zeroIsUnlimited middle value) :
    AtLeast zeroIsUnlimited limit value := by
  rcases one with unlimited | ⟨less, not⟩
  · exact .inl unlimited
  · rcases two with unlimited | ⟨lesser, limited⟩
    · exact absurd unlimited not
    · exact .inr ⟨lesser.trans less, limited⟩

end AtLeast

/-- A value is merged into what came before: the result is as generous as both, and is one of them. -/
theorem generous_some (zeroIsUnlimited : Bool) (into : Option ℕ) (value : ℤ) :
    ∃ limit, generous zeroIsUnlimited into (some value) = some limit ∧ AtLeast zeroIsUnlimited limit value.toNat ∧
      (∀ index, into = some index → AtLeast zeroIsUnlimited limit index) ∧ (limit = value.toNat ∨ into = some limit) := by
  have clamped : (max value 0).toNat = value.toNat := by omega
  cases into with
  | none =>
    refine ⟨value.toNat, ?_, .refl _, ?_, .inl rfl⟩
    · rw [generous, clamped]
    · intro _ absent
      cases absent
  | some index =>
    rw [generous, clamped]
    split_ifs with unlimited larger
    · simp only [Bool.and_eq_true, Bool.or_eq_true, decide_eq_true_eq] at unlimited
      refine ⟨0, rfl, .inl ⟨unlimited.1, rfl⟩, fun _ _ => .inl ⟨unlimited.1, rfl⟩, ?_⟩
      rcases unlimited.2 with zero | zero
      · exact .inl zero.symm
      · exact .inr (congrArg some zero)
    · simp only [Bool.and_eq_true, Bool.or_eq_true, decide_eq_true_eq, not_and, not_or] at unlimited
      refine ⟨value.toNat, rfl, .refl _, fun other same => ?_, .inl rfl⟩
      cases same
      exact .inr ⟨larger.le, fun both => (unlimited both.1).2 both.2⟩
    · simp only [Bool.and_eq_true, Bool.or_eq_true, decide_eq_true_eq, not_and, not_or] at unlimited
      refine ⟨index, rfl, .inr ⟨Nat.le_of_not_lt larger, fun both => (unlimited both.1).1 both.2⟩, fun other same => ?_,
        .inr rfl⟩
      cases same
      exact .refl _

/-- Merging the values of the groups in turn gives the most generous. -/
theorem mostGenerous_foldl (zeroIsUnlimited : Bool) (stated : ResourceGroup → Option ℤ) (rows : List ResourceGroup) :
    MostGenerous zeroIsUnlimited stated (· ∈ rows)
      (rows.foldl (fun merged row => generous zeroIsUnlimited merged (stated row)) none) := by
  induction rows using List.reverseRecOn with
  | nil =>
    refine ⟨fun row member => ?_, fun limit absent => ?_⟩
    · cases member
    · cases absent
  | append_singleton rows row before =>
    rw [List.foldl_append, List.foldl_cons, List.foldl_nil]
    generalize rows.foldl (fun merged row => generous zeroIsUnlimited merged (stated row)) none = merged at before ⊢
    cases value : stated row with
    | none =>
      refine ⟨fun other member held states => ?_, fun limit same => ?_⟩
      · rcases List.mem_append.mp member with old | new
        · exact before.least other old held states
        · rw [List.mem_singleton.mp new, value] at states
          cases states
      · obtain ⟨other, member, rest⟩ := before.given limit same
        exact ⟨other, List.mem_append_left _ member, rest⟩
    | some held =>
      obtain ⟨limit, merges, least, kept, one⟩ := generous_some zeroIsUnlimited merged held
      rw [merges]
      refine ⟨fun other member value' states => ⟨limit, rfl, ?_⟩, fun other same => ?_⟩
      · rcases List.mem_append.mp member with old | new
        · obtain ⟨index, was, atLeast⟩ := before.least other old value' states
          exact (kept index was).trans atLeast
        · rw [List.mem_singleton.mp new, value] at states
          cases states
          exact least
      · cases same
        rcases one with same | was
        · exact ⟨row, List.mem_append_right _ (List.mem_singleton.mpr rfl), held, value, same⟩
        · obtain ⟨other, member, rest⟩ := before.given limit was
          exact ⟨other, List.mem_append_left _ member, rest⟩

/-! ## The loop -/

namespace Merging

theorem priority_frame (merging : Merging) (p : Option ℤ) : ∃ queuePriority anyPriority, merging.priority p =
    { merging with out := { merging.out with queuePriority }, anyPriority } := by
  cases p with
  | none => exact ⟨_, _, rfl⟩
  | some p => exact ⟨_, _, rfl⟩

theorem sessions_frame (merging : Merging) (group : Text) (maxSessions : Option ℤ) :
    ∃ charged chargedMax unlimitedSessions, merging.sessions group maxSessions =
      { merging with out := { merging.out with charged, chargedMax }, unlimitedSessions } := by
  cases maxSessions with
  | none => exact ⟨_, _, _, rfl⟩
  | some m =>
    rw [sessions]
    split_ifs
    · exact ⟨_, _, _, rfl⟩
    · exact ⟨_, _, _, rfl⟩
    · exact ⟨_, _, _, rfl⟩

/-- What becomes of the sessions depends on what there was of them. -/
theorem sessions_congr {merging other : Merging} (charged : other.out.charged = merging.out.charged)
    (chargedMax : other.out.chargedMax = merging.out.chargedMax)
    (unlimited : other.unlimitedSessions = merging.unlimitedSessions) (group : Text) (maxSessions : Option ℤ) :
    (other.sessions group maxSessions).out.charged = (merging.sessions group maxSessions).out.charged ∧
    (other.sessions group maxSessions).out.chargedMax = (merging.sessions group maxSessions).out.chargedMax ∧
    (other.sessions group maxSessions).unlimitedSessions = (merging.sessions group maxSessions).unlimitedSessions := by
  cases maxSessions with
  | none => exact ⟨charged, chargedMax, rfl⟩
  | some m =>
    rw [sessions, sessions, charged, chargedMax, unlimited]
    split_ifs
    · exact ⟨charged, chargedMax, rfl⟩
    · exact ⟨rfl, rfl, rfl⟩
    · exact ⟨charged, chargedMax, unlimited⟩

/-- Each of the four limits is merged by itself. -/
theorem add_limits (merging : Merging) (row : ResourceGroup) :
    (merging.add row).out.windowStart = generous true merging.out.windowStart row.windowStart ∧
    (merging.add row).out.windowMax = generous true merging.out.windowMax row.windowMax ∧
    (merging.add row).out.batchBytes = generous false merging.out.batchBytes row.batchBytes ∧
    (merging.add row).out.maxResultRows = generous true merging.out.maxResultRows row.maxResultRows := by
  obtain ⟨_, _, _, sessions_eq⟩ := sessions_frame ((merging.limits row).priority row.queuePriority) row.group row.maxSessions
  obtain ⟨_, _, priority_eq⟩ := priority_frame (merging.limits row) row.queuePriority
  rw [add, sessions_eq, priority_eq]
  exact ⟨rfl, rfl, rfl, rfl⟩

/-- The priority is merged by itself. -/
theorem add_priority (merging : Merging) (row : ResourceGroup) :
    (merging.add row).out.queuePriority = (merging.priority row.queuePriority).out.queuePriority ∧
    (merging.add row).anyPriority = (merging.priority row.queuePriority).anyPriority := by
  obtain ⟨_, _, _, sessions_eq⟩ := sessions_frame ((merging.limits row).priority row.queuePriority) row.group row.maxSessions
  rw [add, sessions_eq]
  cases row.queuePriority with
  | none => exact ⟨rfl, rfl⟩
  | some p => exact ⟨rfl, rfl⟩

/-- The sessions are merged by themselves. -/
theorem add_sessions (merging : Merging) (row : ResourceGroup) :
    (merging.add row).out.charged = (merging.sessions row.group row.maxSessions).out.charged ∧
    (merging.add row).out.chargedMax = (merging.sessions row.group row.maxSessions).out.chargedMax ∧
    (merging.add row).unlimitedSessions = (merging.sessions row.group row.maxSessions).unlimitedSessions := by
  obtain ⟨_, _, priority_eq⟩ := priority_frame (merging.limits row) row.queuePriority
  rw [add, priority_eq]
  refine sessions_congr ?_ ?_ ?_ _ _
  all_goals rfl

/-- The priority after some groups. -/
structure Prioritised (merging : Merging) (rows : List ResourceGroup) : Prop where
  least : ∀ row ∈ rows, ∀ value, row.queuePriority = some value →
    merging.anyPriority = true ∧ value ≤ merging.out.queuePriority
  given : merging.anyPriority = true → ∃ row ∈ rows, row.queuePriority = some merging.out.queuePriority
  none : merging.anyPriority = false → merging.out.queuePriority = 0

theorem Prioritised.add {merging : Merging} {rows : List ResourceGroup} (before : merging.Prioritised rows)
    (row : ResourceGroup) : (merging.add row).Prioritised (rows ++ [row]) := by
  obtain ⟨priority_eq, any_eq⟩ := merging.add_priority row
  cases stated : row.queuePriority with
  | none =>
    rw [stated, priority] at priority_eq any_eq
    refine ⟨fun other member value states => ?_, fun any => ?_, fun not => ?_⟩
    · rw [priority_eq, any_eq]
      rcases List.mem_append.mp member with old | new
      · exact before.least other old value states
      · rw [List.mem_singleton.mp new, stated] at states
        cases states
    · rw [priority_eq]
      obtain ⟨other, member, states⟩ := before.given (any_eq ▸ any)
      exact ⟨other, List.mem_append_left _ member, states⟩
    · rw [priority_eq]
      exact before.none (any_eq ▸ not)
  | some p =>
    rw [stated] at priority_eq any_eq
    have any : (merging.add row).anyPriority = true := any_eq
    have highest : (merging.add row).out.queuePriority =
      if merging.anyPriority then max merging.out.queuePriority p else p := priority_eq
    refine ⟨fun other member value states => ⟨any, ?_⟩, fun _ => ?_, fun not => ?_⟩
    · rw [highest]
      rcases List.mem_append.mp member with old | new
      · obtain ⟨was, least⟩ := before.least other old value states
        rw [if_pos was]
        exact le_max_of_le_left least
      · rw [List.mem_singleton.mp new, stated] at states
        cases states
        split_ifs
        · exact le_max_right _ _
        · exact le_rfl
    · rw [highest]
      have last : row ∈ rows ++ [row] := List.mem_append_right _ (List.mem_singleton.mpr rfl)
      split_ifs with was
      · rcases le_total merging.out.queuePriority p with less | more
        · rw [max_eq_right less]
          exact ⟨row, last, stated⟩
        · rw [max_eq_left more]
          obtain ⟨other, member, states⟩ := before.given was
          exact ⟨other, List.mem_append_left _ member, states⟩
      · exact ⟨row, last, stated⟩
    · rw [any] at not
      cases not

/-- The charge after some groups. -/
structure Charging (merging : Merging) (rows : List ResourceGroup) : Prop where
  unlimited : merging.unlimitedSessions = true ↔ ∃ row ∈ rows, ¬ ∃ sessions, row.Limits sessions
  none : rows = [] → merging.out.charged = []
  most : merging.unlimitedSessions = false → rows ≠ [] → ∃ row ∈ rows, row.group = merging.out.charged ∧
    ∃ sessions, row.Limits sessions ∧ merging.out.chargedMax = sessions.toNat ∧
      ∀ other ∈ rows, ∀ fewer, other.Limits fewer → fewer ≤ sessions

/-- A group that limits nothing. -/
private theorem charging_free (merging : Merging) (rows : List ResourceGroup)
    {row : ResourceGroup} (free : ¬ ∃ sessions, row.Limits sessions)
    (sets : (merging.sessions row.group row.maxSessions).unlimitedSessions = true) :
    (merging.add row).Charging (rows ++ [row]) := by
  obtain ⟨-, -, unlimited_eq⟩ := merging.add_sessions row
  have unlimited := unlimited_eq.trans sets
  refine ⟨iff_of_true unlimited ⟨row, List.mem_append_right _ (List.mem_singleton.mpr rfl), free⟩, fun empty => ?_,
    fun limited => ?_⟩
  · simp at empty
  · rw [unlimited] at limited
    cases limited

theorem Charging.add {merging : Merging} {rows : List ResourceGroup} (before : merging.Charging rows)
    (row : ResourceGroup) (named : ∀ row ∈ rows, row.group ≠ []) : (merging.add row).Charging (rows ++ [row]) := by
  cases stated : row.maxSessions with
  | none =>
    refine charging_free merging rows ?_ (by rw [stated]; rfl)
    rintro ⟨sessions, states, -⟩
    rw [stated] at states
    cases states
  | some m =>
    by_cases positive : m ≤ 0
    · refine charging_free merging rows ?_ (by rw [stated, sessions, if_pos positive])
      rintro ⟨sessions, states, more⟩
      rw [stated] at states
      cases states
      exact absurd more (not_lt.mpr positive)
    · have limits : row.Limits m := ⟨stated, not_le.mp positive⟩
      have last : row ∈ rows ++ [row] := List.mem_append_right _ (List.mem_singleton.mpr rfl)
      obtain ⟨charged_eq, max_eq, unlimited_eq⟩ := merging.add_sessions row
      rw [stated, sessions, if_neg positive] at charged_eq max_eq unlimited_eq
      have flag : (merging.add row).unlimitedSessions = merging.unlimitedSessions := by
        rw [unlimited_eq]
        split_ifs <;> rfl
      refine ⟨?_, fun empty => by simp at empty, fun limited _ => ?_⟩
      · rw [flag, before.unlimited]
        constructor
        · rintro ⟨other, member, free⟩
          exact ⟨other, List.mem_append_left _ member, free⟩
        · rintro ⟨other, member, free⟩
          rcases List.mem_append.mp member with old | new
          · exact ⟨other, old, free⟩
          · rw [List.mem_singleton.mp new] at free
            exact absurd ⟨m, limits⟩ free
      · rw [flag] at limited
        have only (other : ResourceGroup) (fewer : ℤ) (new : other ∈ [row]) (held : other.Limits fewer) : fewer = m := by
          have states := held.1
          rw [List.mem_singleton.mp new, stated] at states
          exact (Option.some.inj states).symm
        by_cases taken : (!merging.unlimitedSessions && (merging.out.charged = [] || merging.out.chargedMax < m.toNat)) = true
        · rw [if_pos taken] at charged_eq max_eq
          refine ⟨row, last, charged_eq.symm, m, limits, max_eq, fun other member fewer held => ?_⟩
          rcases List.mem_append.mp member with old | new
          · obtain ⟨most, among, name, sessions, -, was, all⟩ := before.most limited (List.ne_nil_of_mem old)
            have uncharged : merging.out.charged ≠ [] := name ▸ named most among
            simp only [limited, Bool.not_false, Bool.true_and, Bool.or_eq_true, decide_eq_true_eq, uncharged, false_or] at taken
            have := all other old fewer held
            omega
          · exact (only other fewer new held).le
        · rw [if_neg taken] at charged_eq max_eq
          simp only [limited, Bool.not_false, Bool.true_and, Bool.or_eq_true, decide_eq_true_eq, not_or, not_lt] at taken
          have some : rows ≠ [] := fun empty => taken.1 (before.none empty)
          obtain ⟨most, among, name, sessions, held, was, all⟩ := before.most limited some
          refine ⟨most, List.mem_append_left _ among, name.trans charged_eq.symm, sessions, held, max_eq.trans was,
            fun other member fewer limits' => ?_⟩
          rcases List.mem_append.mp member with old | new
          · exact all other old fewer limits'
          · have same := only other fewer new limits'
            have := held.2
            have := taken.2
            omega

end Merging

theorem prioritised_foldl (rows : List ResourceGroup) : (rows.foldl Merging.add {}).Prioritised rows := by
  induction rows using List.reverseRecOn with
  | nil =>
    refine ⟨fun row member => ?_, fun any => ?_, fun _ => rfl⟩
    · cases member
    · cases any
  | append_singleton rows row before =>
    rw [List.foldl_append]
    exact before.add row

theorem charging_foldl (rows : List ResourceGroup) (named : ∀ row ∈ rows, row.group ≠ []) :
    (rows.foldl Merging.add {}).Charging rows := by
  induction rows using List.reverseRecOn with
  | nil =>
    refine ⟨iff_of_false Bool.false_ne_true ?_, fun _ => rfl, fun _ some => absurd rfl some⟩
    rintro ⟨row, member, -⟩
    cases member
  | append_singleton rows row before =>
    rw [List.foldl_append]
    have earlier : ∀ row ∈ rows, row.group ≠ [] := fun other member => named other (List.mem_append_left _ member)
    exact (before earlier).add row earlier

/-- A limit of the groups is what its own values merge to. -/
private theorem mostGenerous_merged {zeroIsUnlimited : Bool} {stated : ResourceGroup → Option ℤ}
    (limit : Merging → Option ℕ) (begun : limit {} = none)
    (each : ∀ merging row, generous zeroIsUnlimited (limit merging) (stated row) = limit (merging.add row))
    (rows : List ResourceGroup) :
    MostGenerous zeroIsUnlimited stated (· ∈ rows) (limit (rows.foldl Merging.add {})) := by
  have merged := @List.foldl_hom _ _ _ limit Merging.add
    (fun merged row => generous zeroIsUnlimited merged (stated row)) rows {} each
  rw [← merged, begun]
  exact mostGenerous_foldl zeroIsUnlimited stated rows

/-- The limits of the groups are the most generous of theirs. -/
theorem mergeLimits_merged (rows : List ResourceGroup) (named : ∀ row ∈ rows, row.group ≠ []) :
    MergedFrom (· ∈ rows) (mergeLimits rows) := by
  have prioritised := prioritised_foldl rows
  have charging := charging_foldl rows named
  have windowStart := mostGenerous_merged (fun merging => merging.out.windowStart) rfl
    (fun merging row => (merging.add_limits row).1.symm) rows
  have windowMax := mostGenerous_merged (fun merging => merging.out.windowMax) rfl
    (fun merging row => (merging.add_limits row).2.1.symm) rows
  have batchBytes := mostGenerous_merged (fun merging => merging.out.batchBytes) rfl
    (fun merging row => (merging.add_limits row).2.2.1.symm) rows
  have maxResultRows := mostGenerous_merged (fun merging => merging.out.maxResultRows) rfl
    (fun merging row => (merging.add_limits row).2.2.2.symm) rows
  rw [mergeLimits]
  generalize rows.foldl Merging.add {} = merged at *
  have highest : Highest (· ∈ rows) merged.out.queuePriority := by
    refine ⟨fun row member value states => (prioritised.least row member value states).2, ?_⟩
    cases any : merged.anyPriority with
    | true => exact .inl (prioritised.given any)
    | false =>
      refine .inr ⟨prioritised.none any, fun row member => ?_⟩
      cases stated : row.queuePriority with
      | none => rfl
      | some value =>
        rw [(prioritised.least row member value stated).1] at any
        cases any
  by_cases unlimited : merged.unlimitedSessions = true
  · rw [if_pos unlimited]
    obtain ⟨row, member, free⟩ := charging.unlimited.mp unlimited
    exact {
      windowStart, windowMax, batchBytes, maxResultRows
      queuePriority := highest
      charged := {
        when := iff_of_false (fun some => some rfl) fun all => free (all.2 row member)
        most := fun some => absurd rfl some } }
  · rw [if_neg unlimited]
    have limited : merged.unlimitedSessions = false := Bool.eq_false_iff.mpr unlimited
    have all : ∀ row ∈ rows, ∃ sessions, row.Limits sessions := by
      intro row member
      by_contra free
      exact unlimited (charging.unlimited.mpr ⟨row, member, free⟩)
    have here (charged : merged.out.charged ≠ []) : rows ≠ [] := fun empty => charged (charging.none empty)
    refine {
      windowStart, windowMax, batchBytes, maxResultRows
      queuePriority := highest
      charged := ⟨⟨fun charged => ⟨List.exists_mem_of_ne_nil rows (here charged), all⟩, ?_⟩,
        fun charged => charging.most limited (here charged)⟩ }
    rintro ⟨⟨row, member⟩, -⟩
    obtain ⟨most, among, name, -⟩ := charging.most limited (List.ne_nil_of_mem member)
    rw [← name]
    exact named most among

/-- Where no group that states a start leaves the bound open, the start stays within the bound. -/
theorem MergedFrom.window {rows : ResourceGroup → Prop} {limits : ResourceLimits} (merged : MergedFrom rows limits)
    (within : ∀ row, rows row → ∀ start, row.windowStart = some start →
      ∃ bound, row.windowMax = some bound ∧ (bound ≤ 0 ∨ start ≤ bound))
    {start bound : ℕ} (started : limits.windowStart = some start) (bounded : limits.windowMax = some bound) :
    bound = 0 ∨ start ≤ bound := by
  obtain ⟨row, member, value, states, rfl⟩ := merged.windowStart.given start started
  obtain ⟨most, statesMax, inside⟩ := within row member value states
  obtain ⟨limit, same, least⟩ := merged.windowMax.least row member most statesMax
  rw [bounded] at same
  cases same
  rcases least with ⟨-, unlimited⟩ | ⟨less, limited⟩
  · exact .inl unlimited
  · refine .inr ?_
    rcases inside with unlimited | inside
    · exact absurd ⟨rfl, Int.toNat_of_nonpos unlimited⟩ limited
    · exact (Int.toNat_le_toNat inside).trans less

/-! ## The groups that contribute -/

namespace GroupTables

variable (tables : GroupTables)

/-- The database's order of names is an order, and tells the groups apart. -/
structure InOrder : Prop where
  total : ∀ a b, (tables.nameLe a b || tables.nameLe b a) = true
  trans : ∀ a b c, tables.nameLe a b = true → tables.nameLe b c = true → tables.nameLe a c = true
  distinct : ∀ a ∈ tables.resourceGroups, ∀ b ∈ tables.resourceGroups, tables.nameLe a.group b.group = true →
    tables.nameLe b.group a.group = true → a = b

/-- A role of the principal is in the group. -/
def Holds (roles : List Text) (row : ResourceGroup) : Prop :=
  row ∈ tables.resourceGroups ∧ ∃ role ∈ roles, (role, row.group) ∈ tables.roleResourceGroups

/-- The group is the default one, the first by name. -/
def IsDefault (row : ResourceGroup) : Prop :=
  (row ∈ tables.resourceGroups ∧ row.isDefault = some true) ∧
    ∀ other ∈ tables.resourceGroups, other.isDefault = some true → tables.nameLe row.group other.group = true

/-- The group's limits are the session's: a role's, or the default one where no role has any, and on a node
of a group only that one. -/
def Contributes (functionMode : Bool) (roles : List Text) (nodeGroup : Text) (row : ResourceGroup) : Prop :=
  functionMode = false ∧ (nodeGroup = [] ∨ row.group = nodeGroup) ∧
    (tables.Holds roles row ∨ (∀ other, ¬ tables.Holds roles other) ∧ tables.IsDefault row)

variable {tables}

theorem mem_queried {row : ResourceGroup} : row ∈ tables.queried ↔ row ∈ tables.resourceGroups := List.mem_mergeSort

theorem InOrder.sorted (ordered : tables.InOrder) :
    tables.queried.Pairwise fun a b => tables.nameLe a.group b.group = true :=
  List.pairwise_mergeSort (fun a b c => ordered.trans a.group b.group c.group) (fun a b => ordered.total a.group b.group) _

/-- The rows of the query do not depend on the order of the table. -/
theorem InOrder.queried_perm (ordered : tables.InOrder) {groups : List ResourceGroup}
    (perm : groups.Perm tables.resourceGroups) :
    GroupTables.queried { tables with resourceGroups := groups } = tables.queried := by
  have same : InOrder { tables with resourceGroups := groups } :=
    ⟨ordered.total, ordered.trans, fun a memberA b memberB =>
      ordered.distinct a (perm.mem_iff.mp memberA) b (perm.mem_iff.mp memberB)⟩
  refine List.Perm.eq_of_pairwise (fun a b memberA memberB => ?_) same.sorted ordered.sorted ?_
  · exact ordered.distinct a (perm.mem_iff.mp (mem_queried.mp memberA)) b (mem_queried.mp memberB)
  · exact (List.mergeSort_perm _ _).trans (perm.trans (List.mergeSort_perm _ _).symm)

theorem bound_iff {roles : List Text} {row : ResourceGroup} :
    tables.bound roles row = true ↔ ∃ role ∈ roles, (role, row.group) ∈ tables.roleResourceGroups := by
  simp only [bound, List.any_eq_true, Bool.and_eq_true, decide_eq_true_eq, List.contains_iff_mem]
  constructor
  · rintro ⟨⟨role, group⟩, member, rfl, held⟩
    exact ⟨role, held, member⟩
  · rintro ⟨role, held, member⟩
    exact ⟨_, member, rfl, held⟩

theorem mem_held {roles : List Text} {row : ResourceGroup} :
    row ∈ tables.queried.filter (tables.bound roles) ↔ tables.Holds roles row := by
  rw [List.mem_filter, mem_queried, bound_iff]
  rfl

/-- The first default row of the query is the default group. -/
theorem InOrder.default_iff (ordered : tables.InOrder) {row : ResourceGroup} :
    tables.queried.find? (fun row => row.isDefault.getD false) = some row ↔ tables.IsDefault row := by
  have marked (other : ResourceGroup) : other.isDefault.getD false = true ↔ other.isDefault = some true := by
    rcases other.isDefault with _ | _ | _
    all_goals simp
  have first {found : ResourceGroup} (finds : tables.queried.find? (fun row => row.isDefault.getD false) = some found) :
      tables.IsDefault found := by
    obtain ⟨isDefault, before, after, split, earlier⟩ := List.find?_eq_some_iff_append.mp finds
    have sorted := ordered.sorted
    rw [split, List.pairwise_append, List.pairwise_cons] at sorted
    refine ⟨⟨mem_queried.mp (List.mem_of_find?_eq_some finds), (marked found).mp isDefault⟩, fun other member default => ?_⟩
    have among := mem_queried.mpr member
    rw [split] at among
    rcases List.mem_append.mp among with sooner | later
    · have := earlier other sooner
      rw [(marked other).mpr default] at this
      cases this
    · rcases List.mem_cons.mp later with rfl | later
      · simpa using ordered.total other.group other.group
      · exact sorted.2.1.1 other later
  refine ⟨first, fun isDefault => ?_⟩
  cases finds : tables.queried.find? (fun row => row.isDefault.getD false) with
  | none =>
    rw [List.find?_eq_none] at finds
    exact absurd ((marked row).mpr isDefault.1.2) (finds row (mem_queried.mpr isDefault.1.1))
  | some found =>
    have other := first finds
    rw [ordered.distinct found other.1.1 row isDefault.1.1 (other.2 row isDefault.1.1 isDefault.1.2)
      (isDefault.2 found other.1.1 other.1.2)]

/-- The rows of a principal are those that contribute on a node of no group. -/
theorem InOrder.mem_rowsOf (ordered : tables.InOrder) {roles : List Text} {row : ResourceGroup} :
    row ∈ tables.rowsOf roles ↔
      tables.Holds roles row ∨ (∀ other, ¬ tables.Holds roles other) ∧ tables.IsDefault row := by
  rw [rowsOf]
  by_cases none : tables.queried.filter (tables.bound roles) = []
  · have nobody : ∀ other, ¬ tables.Holds roles other := fun other holds =>
      List.ne_nil_of_mem (mem_held.mpr holds) none
    rw [if_pos none, Option.mem_toList, ordered.default_iff]
    exact ⟨fun isDefault => .inr ⟨nobody, isDefault⟩, fun either => either.elim (absurd · (nobody row)) And.right⟩
  · rw [if_neg none, mem_held]
    refine ⟨.inl, fun either => either.elim id fun both => ?_⟩
    obtain ⟨other, member⟩ := List.exists_mem_of_ne_nil _ none
    exact absurd (mem_held.mp member) (both.1 other)

end GroupTables

/-! ## The limits of a session -/

/-- Where no group contributes, nothing is limited. -/
private theorem mergedFrom_nobody {rows : ResourceGroup → Prop} (nobody : ∀ row, ¬ rows row) (limits : ResourceLimits)
    (unset : limits.windowStart = none ∧ limits.windowMax = none ∧ limits.batchBytes = none ∧ limits.maxResultRows = none)
    (unplaced : limits.queuePriority = 0 ∧ limits.charged = []) : MergedFrom rows limits := by
  have nothing {zeroIsUnlimited : Bool} {stated : ResourceGroup → Option ℤ} :
      MostGenerous zeroIsUnlimited stated rows none :=
    ⟨fun row member => absurd member (nobody row), fun limit absent => by cases absent⟩
  exact {
    windowStart := by rw [unset.1]; exact nothing
    windowMax := by rw [unset.2.1]; exact nothing
    batchBytes := by rw [unset.2.2.1]; exact nothing
    maxResultRows := by rw [unset.2.2.2]; exact nothing
    queuePriority := ⟨fun row member => absurd member (nobody row), .inr ⟨unplaced.1, fun row member => absurd member (nobody row)⟩⟩
    charged := {
      when := iff_of_false (not_not.mpr unplaced.2) fun all => all.1.elim nobody
      most := fun charged => absurd unplaced.2 charged } }

/-- A node of no group admits everyone, and a node of a group only its members, as members of it. -/
private theorem place_cases (nodeGroup : Text) (known : Bool) (groups : List Text) :
    (nodeGroup = [] ∧ place nodeGroup known groups = {}) ∨
    (nodeGroup ≠ [] ∧ nodeGroup ∈ groups ∧ place nodeGroup known groups = { group := nodeGroup }) ∨
    (nodeGroup ≠ [] ∧ (known = false ∨ nodeGroup ∉ groups) ∧
      ∃ refusal, place nodeGroup known groups = { admitted := false, refusal }) := by
  rw [place]
  split_ifs with everyone unknown member nobody
  · exact .inl ⟨everyone, rfl⟩
  · exact .inr (.inr ⟨everyone, .inl (by simpa using unknown), _, rfl⟩)
  · exact .inr (.inl ⟨everyone, member, rfl⟩)
  · exact .inr (.inr ⟨everyone, .inr member, _, rfl⟩)
  · exact .inr (.inr ⟨everyone, .inr member, _, rfl⟩)

theorem resourceLimitsOf_merged {tables : GroupTables} (ordered : tables.InOrder)
    (named : ∀ row ∈ tables.resourceGroups, row.group ≠ []) (functionMode : Bool) (roles : List Text) (nodeGroup : Text) :
    MergedFrom (tables.Contributes functionMode roles nodeGroup) (resourceLimitsOf functionMode tables roles nodeGroup) := by
  rw [resourceLimitsOf]
  cases functionMode with
  | true =>
    rw [if_pos rfl]
    refine mergedFrom_nobody (fun row contributes => Bool.noConfusion contributes.1) _ ?_ ?_
    · split_ifs <;> exact ⟨rfl, rfl, rfl, rfl⟩
    · split_ifs <;> exact ⟨rfl, rfl⟩
  | false =>
    rw [if_neg Bool.false_ne_true]
    have listed : ∀ row ∈ tables.rowsOf roles, row ∈ tables.resourceGroups := by
      intro row member
      rcases ordered.mem_rowsOf.mp member with holds | ⟨-, isDefault⟩
      · exact holds.1
      · exact isDefault.1.1
    have contributes_iff (row : ResourceGroup) : tables.Contributes false roles nodeGroup row ↔
        (nodeGroup = [] ∨ row.group = nodeGroup) ∧ row ∈ tables.rowsOf roles := by
      rw [GroupTables.Contributes, ordered.mem_rowsOf]
      exact and_iff_right rfl
    have merged (rows : List ResourceGroup) (same : ∀ row, row ∈ rows ↔ tables.Contributes false roles nodeGroup row) :
        MergedFrom (tables.Contributes false roles nodeGroup) (mergeLimits rows) := by
      have members : (· ∈ rows) = tables.Contributes false roles nodeGroup := funext fun row => propext (same row)
      rw [← members]
      exact mergeLimits_merged rows fun row member => named row (listed row ((contributes_iff row).mp ((same row).mp member)).2)
    simp only
    rcases place_cases nodeGroup (nodeGroup = [] || tables.queried.any fun row => row.group = nodeGroup)
        ((tables.rowsOf roles).map ResourceGroup.group) with
      ⟨everyone, placed⟩ | ⟨some, member, placed⟩ | ⟨some, apart, refusal, placed⟩
    · rw [placed]
      exact merged _ fun row => by rw [if_neg (not_not.mpr rfl), contributes_iff, and_iff_right (.inl everyone)]
    · rw [placed]
      refine merged _ fun row => ?_
      rw [if_pos some, List.mem_filter, contributes_iff, decide_eq_true_eq, and_comm, or_iff_right some]
    · rw [placed]
      refine mergedFrom_nobody (fun row contributes => ?_) _ ⟨rfl, rfl, rfl, rfl⟩ ⟨rfl, rfl⟩
      obtain ⟨here, member⟩ := (contributes_iff row).mp contributes
      obtain rfl := here.resolve_left some
      rcases apart with unknown | other
      · rw [Bool.or_eq_false_iff, List.any_eq_false] at unknown
        exact unknown.2 row (GroupTables.mem_queried.mpr (listed row member)) (decide_eq_true rfl)
      · exact other (List.mem_map_of_mem member)

/-- The limits of a session are the most generous of the groups that contribute, whatever the order of the
rows; where each group that states the start of a window states its bound too, the start is within the bound. -/
theorem resource_limits_most_generous {tables : GroupTables} (ordered : tables.InOrder)
    (named : ∀ row ∈ tables.resourceGroups, row.group ≠ []) (functionMode : Bool) (roles : List Text) (nodeGroup : Text) :
    (∀ groups : List ResourceGroup, groups.Perm tables.resourceGroups →
      resourceLimitsOf functionMode { tables with resourceGroups := groups } roles nodeGroup =
        resourceLimitsOf functionMode tables roles nodeGroup) ∧
    MergedFrom (tables.Contributes functionMode roles nodeGroup) (resourceLimitsOf functionMode tables roles nodeGroup) ∧
    ((∀ row, tables.Contributes functionMode roles nodeGroup row → ∀ start, row.windowStart = some start →
        ∃ bound, row.windowMax = some bound ∧ (bound ≤ 0 ∨ start ≤ bound)) →
      ∀ start bound, (resourceLimitsOf functionMode tables roles nodeGroup).windowStart = some start →
        (resourceLimitsOf functionMode tables roles nodeGroup).windowMax = some bound → bound = 0 ∨ start ≤ bound) := by
  have merged := resourceLimitsOf_merged ordered named functionMode roles nodeGroup
  refine ⟨fun groups perm => ?_, merged, fun within start bound => merged.window within⟩
  have queried := ordered.queried_perm perm
  have rows : GroupTables.rowsOf { tables with resourceGroups := groups } roles = tables.rowsOf roles := by
    rw [GroupTables.rowsOf, GroupTables.rowsOf, queried]
    rfl
  rw [resourceLimitsOf, resourceLimitsOf, queried, rows]

/-- Names in the order of their characters. -/
def byCharacters (a b : Text) : Bool := decide (a ≤ b)

private theorem byCharacters_inOrder (groups : List ResourceGroup) (bindings : List (Text × Text))
    (once : ∀ a ∈ groups, ∀ b ∈ groups, a.group = b.group → a = b) :
    GroupTables.InOrder { resourceGroups := groups, roleResourceGroups := bindings, nameLe := byCharacters } where
  total := fun a b => by
    simp only [byCharacters, Bool.or_eq_true, decide_eq_true_eq]
    exact le_total a b
  trans := fun a b c one two => by
    simp only [byCharacters, decide_eq_true_eq] at one two ⊢
    exact one.trans two
  distinct := fun a memberA b memberB one two => by
    simp only [byCharacters, decide_eq_true_eq] at one two
    exact once a memberA b memberB (le_antisymm one two)

/-- A group for reports and one for small answers. -/
def reports : ResourceGroup := { group := "etl".toList, windowStart := some 100, maxSessions := some 4 }

def answers : ResourceGroup := { group := "web".toList, windowMax := some 10, maxResultRows := some 0, maxSessions := some 9 }

/-- A principal of both. -/
def bothGroups : GroupTables where
  resourceGroups := [reports, answers]
  roleResourceGroups := [("r".toList, "etl".toList), ("r".toList, "web".toList)]
  nameLe := byCharacters

theorem resource_limits_most_generous_both :
    (∀ groups : List ResourceGroup, groups.Perm bothGroups.resourceGroups →
      resourceLimitsOf false { bothGroups with resourceGroups := groups } ["r".toList] [] =
        resourceLimitsOf false bothGroups ["r".toList] []) ∧
    MergedFrom (bothGroups.Contributes false ["r".toList] []) (resourceLimitsOf false bothGroups ["r".toList] []) :=
  have all := resource_limits_most_generous (byCharacters_inOrder [reports, answers]
    [("r".toList, "etl".toList), ("r".toList, "web".toList)] (by decide)) (by decide) false ["r".toList] []
  ⟨all.1, all.2.1⟩

/-- The rows of a table that is in order. -/
private theorem queried_sorted {tables : GroupTables}
    (sorted : tables.resourceGroups.Pairwise fun a b => tables.nameLe a.group b.group = true) :
    tables.queried = tables.resourceGroups := List.mergeSort_of_pairwise sorted

/-- One group, of the role `r`. -/
def oneGroup (row : ResourceGroup) : GroupTables where
  resourceGroups := [row]
  roleResourceGroups := [("r".toList, row.group)]
  nameLe := byCharacters

/-- A start from one group is above the bound from another; a negative value counts as 0, which is none of those
stated; no group at all limits no sessions, and neither does a group without a name. -/
theorem resource_limits_slip :
    ((∀ row ∈ [reports, answers], ∀ start bound, row.windowStart = some start → row.windowMax = some bound → start ≤ bound) ∧
      (resourceLimitsOf false bothGroups ["r".toList] []).windowStart = some 100 ∧
      (resourceLimitsOf false bothGroups ["r".toList] []).windowMax = some 10) ∧
    (resourceLimitsOf false (oneGroup { group := "g".toList, windowStart := some (-5) }) ["r".toList] []).windowStart = some 0 ∧
    (resourceLimitsOf false { resourceGroups := [], roleResourceGroups := [], nameLe := byCharacters } ["r".toList] []).charged = [] ∧
    (resourceLimitsOf false (oneGroup { group := [], maxSessions := some 3 }) ["r".toList] []).charged = [] := by
  have both : resourceLimitsOf false bothGroups ["r".toList] [] =
      { groups := ["etl".toList, "web".toList], charged := "web".toList, chargedMax := 9, windowStart := some 100,
        windowMax := some 10, maxResultRows := some 0 } := by
    rw [resourceLimitsOf, GroupTables.rowsOf, queried_sorted (by decide)]
    decide
  have one (row : ResourceGroup) : (oneGroup row).queried = [row] := queried_sorted (List.pairwise_singleton _ _)
  have none : GroupTables.queried { resourceGroups := [], roleResourceGroups := [], nameLe := byCharacters } = [] :=
    queried_sorted List.Pairwise.nil
  refine ⟨⟨by simp [reports, answers], by rw [both], by rw [both]⟩, ?_, ?_, ?_⟩
  · rw [resourceLimitsOf, GroupTables.rowsOf, one]
    decide
  · rw [resourceLimitsOf, GroupTables.rowsOf, none]
    decide
  · rw [resourceLimitsOf, GroupTables.rowsOf, one]
    decide

end DuckAcl.ResourceGroups
