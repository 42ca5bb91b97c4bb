import Mathlib.Data.List.Basic

/-! # Lists that mention keys

A list of keyed values may mention a key several times. An upsert lets a value into the first entry of
its key, through a combination that may refuse, or appends it; what a sequence of upserts does to a
list is, key by key, what the combination does to the list's mentions of the key.
-/

namespace DuckAcl.Keyed

variable {K V : Type}

/-- A test that two keys are the same. -/
structure Sameness (same : K → K → Bool) : Prop where
  refl : ∀ key, same key key = true
  symm : ∀ {key other}, same key other = true → same other key = true
  trans : ∀ {key other third}, same key other = true → same other third = true → same key third = true

theorem Sameness.congr {same : K → K → Bool} (sameness : Sameness same) {key other : K} (equal : same key other = true)
    (third : K) : same key third = same other third := by
  rw [Bool.eq_iff_iff]
  exact ⟨sameness.trans (sameness.symm equal), sameness.trans equal⟩

variable (same : K → K → Bool) (combine : V → V → Option V)

/-- The values a list mentions for a key, in order. -/
def mentions (items : List (K × V)) (key : K) : List V :=
  (items.filter fun item => same item.1 key).map Prod.snd

/-- Let a value into the first entry of its key, or append it. -/
def upsert (item : K × V) : List (K × V) → Option (List (K × V))
  | [] => some [item]
  | existing :: rest =>
    if same existing.1 item.1 then (combine existing.2 item.2).map fun value => (existing.1, value) :: rest
    else (upsert item rest).map (existing :: ·)

/-- A sequence of upserts. -/
def upsertAll (items : List (K × V)) : List (K × V) → Option (List (K × V))
  | [] => some items
  | item :: more => (upsert same combine item items).bind fun next => upsertAll next more

/-- What a sequence of upserts does to the mentions of one key. -/
def absorb : List V → List V → Option (List V)
  | values, [] => some values
  | [], value :: more => absorb [value] more
  | first :: rest, value :: more => (combine first value).bind fun next => absorb (next :: rest) more

variable {same combine}

@[simp] theorem mentions_nil (key : K) : mentions same ([] : List (K × V)) key = [] := rfl

theorem mentions_cons (item : K × V) (items : List (K × V)) (key : K) :
    mentions same (item :: items) key = if same item.1 key then item.2 :: mentions same items key else mentions same items key := by
  unfold mentions
  rw [List.filter_cons]
  split <;> rfl

theorem mentions_append (items more : List (K × V)) (key : K) :
    mentions same (items ++ more) key = mentions same items key ++ mentions same more key := by
  simp [mentions]

theorem mem_mentions {items : List (K × V)} {key : K} {value : V} :
    value ∈ mentions same items key ↔ ∃ item ∈ items, same item.1 key = true ∧ item.2 = value := by
  simp only [mentions, List.mem_map, List.mem_filter, and_assoc]

theorem mentions_congr (sameness : Sameness same) {key other : K} (equal : same key other = true)
    (items : List (K × V)) : mentions same items key = mentions same items other := by
  unfold mentions
  congr 1
  refine List.filter_congr fun item _ => ?_
  rw [Bool.eq_iff_iff]
  exact ⟨fun here => sameness.trans here equal, fun here => sameness.trans here (sameness.symm equal)⟩

/-- One value absorbed by the first of several. -/
theorem absorb_single (first : V) (rest : List V) (value : V) :
    absorb combine (first :: rest) [value] = (combine first value).map fun next => next :: rest := by
  cases combined : combine first value <;> simp [absorb, combined]

theorem absorb_cons (values : List V) (value : V) (more : List V) :
    absorb combine values (value :: more) = (absorb combine values [value]).bind fun next => absorb combine next more := by
  cases values with
  | nil => rfl
  | cons first rest => cases combined : combine first value <;> simp [absorb, combined]

/-- What one upsert does to the mentions of each key; it refuses when its own key's mentions do. -/
theorem upsert_mentions (sameness : Sameness same) (item : K × V) (items : List (K × V)) :
    (∀ next, upsert same combine item items = some next → ∀ key, some (mentions same next key) =
        if same item.1 key then absorb combine (mentions same items key) [item.2] else some (mentions same items key)) ∧
      (upsert same combine item items = none → absorb combine (mentions same items item.1) [item.2] = none) := by
  induction items with
  | nil =>
    refine ⟨fun next ran key => ?_, fun ran => nomatch ran⟩
    cases ran
    rw [mentions_cons, mentions_nil]
    split <;> rfl
  | cons existing rest ih =>
    rw [upsert]
    by_cases here : same existing.1 item.1 = true
    · rw [if_pos here]
      constructor
      · intro next ran key
        obtain ⟨value, combined, rfl⟩ := Option.map_eq_some_iff.mp ran
        rw [mentions_cons, mentions_cons, ← sameness.congr here key]
        split
        · rw [absorb_single]
          simp [combined]
        · rfl
      · intro refused
        rw [Option.map_eq_none_iff] at refused
        rw [mentions_cons, if_pos here, absorb_single]
        simp [refused]
    · rw [if_neg here]
      constructor
      · intro next ran key
        obtain ⟨later, inner, rfl⟩ := Option.map_eq_some_iff.mp ran
        have below := ih.1 later inner key
        rw [mentions_cons, mentions_cons]
        by_cases named : same existing.1 key = true
        · have other : ¬ same item.1 key = true := fun equal => here (sameness.trans named (sameness.symm equal))
          rw [if_neg other, Option.some.injEq] at below
          rw [if_pos named, if_pos named, if_neg other, below]
        · rw [if_neg named, if_neg named]
          exact below
      · intro refused
        rw [Option.map_eq_none_iff] at refused
        rw [mentions_cons, if_neg here]
        exact ih.2 refused

/-- What a sequence of upserts does, key by key; it refuses when some key's mentions do. -/
theorem upsertAll_mentions (sameness : Sameness same) (items more : List (K × V)) :
    (∀ last, upsertAll same combine items more = some last → ∀ key,
        absorb combine (mentions same items key) (mentions same more key) = some (mentions same last key)) ∧
      (upsertAll same combine items more = none → ∃ key,
        absorb combine (mentions same items key) (mentions same more key) = none) := by
  induction more generalizing items with
  | nil =>
    refine ⟨fun last ran key => ?_, fun ran => nomatch ran⟩
    cases ran
    cases mentions same items key <;> rfl
  | cons item more ih =>
    obtain ⟨stepped, refused⟩ := @upsert_mentions _ _ _ combine sameness item items
    rw [upsertAll]
    cases ran : upsert same combine item items with
    | none =>
      refine ⟨fun last done => (nomatch done), fun _ => ⟨item.1, ?_⟩⟩
      rw [mentions_cons, if_pos (sameness.refl _), absorb_cons, refused ran]
      rfl
    | some next =>
      obtain ⟨done, failed⟩ := ih next
      have step : ∀ key, absorb combine (mentions same items key) (mentions same (item :: more) key) =
          absorb combine (mentions same next key) (mentions same more key) := by
        intro key
        have here := stepped next ran key
        rw [mentions_cons]
        split at here
        · next named => rw [if_pos named, absorb_cons, ← here]; rfl
        · next other => rw [if_neg other, Option.some.inj here]
      refine ⟨fun last ended key => ?_, fun ended => ?_⟩
      · rw [step]
        exact done last ended key
      · obtain ⟨key, refusal⟩ := failed ended
        exact ⟨key, (step key).trans refusal⟩

end DuckAcl.Keyed
