import Mathlib.Computability.Language
import Mathlib.Tactic

/-! # Regular expressions that match leftmost first

An expression tries its ways to match in order: the first branch before the second one, and a repetition as often as
it can before less often. The runs of an expression are all its ways in that order. A search answers the first run
at the leftmost place that has one.
-/

namespace DuckAcl

/-- Expressions with the anchors of the ends and one group. -/
inductive Regex (α : Type*)
  | start
  | finish
  | one (accepts : α → Bool)
  | seq (first second : Regex α)
  | either (first second : Regex α)
  | many (body : Regex α)
  | group (body : Regex α)

namespace Regex

/-- One way to match: what it takes, what the group took, and what is left. -/
structure Run (α : Type*) where
  taken : List α
  group : Option (List α)
  rest : List α
deriving DecidableEq, Repr

/-- A run and then another one. -/
def Run.andThen {α : Type*} (first second : Run α) : Run α :=
  ⟨first.taken ++ second.taken, second.group <|> first.group, second.rest⟩

variable {α : Type*}

/-- The runs of a repetition; each round takes a letter at least. -/
def manyRuns (once : Bool → List α → List (Run α)) : ℕ → Bool → List α → List (Run α)
  | 0, _, text => [⟨[], none, text⟩]
  | more + 1, atStart, text =>
    (((once atStart text).filter fun run => !run.taken.isEmpty).flatMap fun run =>
      (manyRuns once more false run.rest).map run.andThen) ++ [⟨[], none, text⟩]

/-- The runs on a text that is the rest of a longer one, or the whole. -/
def runs : Regex α → Bool → List α → List (Run α)
  | start, atStart, text => if atStart then [⟨[], none, text⟩] else []
  | finish, _, text => if text.isEmpty then [⟨[], none, text⟩] else []
  | one _, _, [] => []
  | one accepts, _, c :: rest => if accepts c then [⟨[c], none, rest⟩] else []
  | seq first second, atStart, text => (first.runs atStart text).flatMap fun run =>
      (second.runs (atStart && run.taken.isEmpty) run.rest).map run.andThen
  | either first second, atStart, text => first.runs atStart text ++ second.runs atStart text
  | many body, atStart, text => manyRuns body.runs text.length atStart text
  | group body, atStart, text => (body.runs atStart text).map fun run => { run with group := some run.taken }

section Equations

variable (atStart : Bool) (text : List α)

@[simp] theorem runs_start : (start : Regex α).runs atStart text = if atStart then [⟨[], none, text⟩] else [] := rfl

@[simp] theorem runs_finish : (finish : Regex α).runs atStart text = if text.isEmpty then [⟨[], none, text⟩] else [] := rfl

@[simp] theorem runs_one_nil (accepts : α → Bool) : (one accepts).runs atStart [] = [] := rfl

@[simp] theorem runs_one_cons (accepts : α → Bool) (c : α) :
    (one accepts).runs atStart (c :: text) = if accepts c then [⟨[c], none, text⟩] else [] := rfl

@[simp] theorem runs_seq (first second : Regex α) :
    (seq first second).runs atStart text = (first.runs atStart text).flatMap fun run =>
      (second.runs (atStart && run.taken.isEmpty) run.rest).map run.andThen := rfl

@[simp] theorem runs_either (first second : Regex α) :
    (either first second).runs atStart text = first.runs atStart text ++ second.runs atStart text := rfl

@[simp] theorem runs_group (body : Regex α) :
    (group body).runs atStart text = (body.runs atStart text).map fun run => { run with group := some run.taken } := rfl

private theorem runs_rounds (body : Regex α) :
    (many body).runs atStart text = manyRuns body.runs text.length atStart text := rfl

end Equations

/-- The first run at the leftmost place that has one. -/
def search (regex : Regex α) : Bool → List α → Option (Run α)
  | atStart, [] => (regex.runs atStart []).head?
  | atStart, c :: rest =>
    match (regex.runs atStart (c :: rest)).head? with
    | some run => some run
    | none => search regex false rest

/-- The group of the first match, and nothing where there is no match. -/
def extract (regex : Regex α) (text : List α) : List α :=
  ((regex.search true text).bind Run.group).getD []

/-- The matches one after the other. After one that takes nothing the search goes on a letter later. -/
def matchesFrom (regex : Regex α) : ℕ → Bool → List α → List (List α)
  | 0, _, _ => []
  | more + 1, atStart, text =>
    match regex.search atStart text with
    | none => []
    | some run =>
      run.taken :: regex.matchesFrom more false (if run.taken.isEmpty then run.rest.drop 1 else run.rest)

/-- All matches. -/
def extractAll (regex : Regex α) (text : List α) : List (List α) := regex.matchesFrom (text.length + 1) true text

/-! ## What a run takes -/

theorem manyRuns_text {once : Bool → List α → List (Run α)}
    (splits : ∀ atStart text, ∀ run ∈ once atStart text, text = run.taken ++ run.rest) (fuel : ℕ) {atStart : Bool}
    {text : List α} {run : Run α} (among : run ∈ manyRuns once fuel atStart text) : text = run.taken ++ run.rest := by
  induction fuel generalizing atStart text run with
  | zero => rw [List.mem_singleton.mp among]; rfl
  | succ more ih =>
    rw [manyRuns, List.mem_append, List.mem_flatMap, List.mem_singleton] at among
    rcases among with ⟨first, taken, later⟩ | rfl
    · obtain ⟨second, among, rfl⟩ := List.mem_map.mp later
      have begins := splits atStart text first (List.mem_of_mem_filter taken)
      rw [begins, ih among, Run.andThen]
      simp
    · rfl

/-- What is taken and what is left make up the text. -/
theorem text_of_run {regex : Regex α} {atStart : Bool} {text : List α} {run : Run α}
    (among : run ∈ regex.runs atStart text) : text = run.taken ++ run.rest := by
  induction regex generalizing atStart text run with
  | start =>
    rw [runs_start] at among
    split_ifs at among <;> simp_all
  | finish =>
    rw [runs_finish] at among
    split_ifs at among <;> simp_all
  | one accepts =>
    cases text with
    | nil => cases among
    | cons c rest =>
      rw [runs_one_cons] at among
      split_ifs at among <;> simp_all
  | seq first second one two =>
    rw [runs_seq, List.mem_flatMap] at among
    obtain ⟨before, taken, later⟩ := among
    obtain ⟨after, among, rfl⟩ := List.mem_map.mp later
    rw [one taken, two among, Run.andThen]
    simp
  | either first second one two => exact (List.mem_append.mp among).elim one two
  | many body ih => exact manyRuns_text (fun _ _ _ => ih) _ among
  | group body ih =>
    rw [runs_group] at among
    obtain ⟨inner, within, rfl⟩ := List.mem_map.mp among
    have whole : text = inner.taken ++ inner.rest := ih within
    exact whole

theorem shorter_of_run {regex : Regex α} {atStart : Bool} {text : List α} {run : Run α}
    (among : run ∈ (regex.runs atStart text).filter fun run => !run.taken.isEmpty) : run.rest.length < text.length := by
  obtain ⟨among, takes⟩ := List.mem_filter.mp among
  have some' : run.taken ≠ [] := by simpa using takes
  have letters := List.length_pos_iff.mpr some'
  rw [text_of_run among, List.length_append]
  omega

/-- One more round than there are letters changes nothing. -/
private theorem manyRuns_succ (body : Regex α) {fuel : ℕ} {atStart : Bool} {text : List α} (enough : text.length ≤ fuel) :
    manyRuns body.runs (fuel + 1) atStart text = manyRuns body.runs fuel atStart text := by
  induction fuel generalizing atStart text with
  | zero =>
    have none' : (body.runs atStart text).filter (fun run => !run.taken.isEmpty) = [] := by
      rw [List.eq_nil_iff_forall_not_mem]
      intro run among
      have shorter := shorter_of_run among
      omega
    rw [manyRuns, manyRuns, none']
    rfl
  | succ more ih =>
    rw [manyRuns, manyRuns]
    congr 1
    refine List.flatMap_congr fun run among => ?_
    have shorter := shorter_of_run among
    rw [ih (by omega)]

private theorem manyRuns_enough (body : Regex α) {fuel : ℕ} {atStart : Bool} {text : List α} (enough : text.length ≤ fuel) :
    manyRuns body.runs fuel atStart text = manyRuns body.runs text.length atStart text := by
  induction fuel, enough using Nat.le_induction with
  | base => rfl
  | succ fuel enough ih => rw [manyRuns_succ body enough, ih]

/-- A repetition takes one more round, or none. -/
theorem runs_many (body : Regex α) (atStart : Bool) (text : List α) :
    (many body).runs atStart text =
      (((body.runs atStart text).filter fun run => !run.taken.isEmpty).flatMap fun run =>
        ((many body).runs false run.rest).map run.andThen) ++ [⟨[], none, text⟩] := by
  rw [runs_rounds, ← manyRuns_succ body le_rfl, manyRuns]
  congr 1
  refine List.flatMap_congr fun run among => ?_
  rw [runs_rounds, manyRuns_enough body (shorter_of_run among).le]

/-! ## What an expression matches -/

/-- An expression without anchors. -/
def Plain : Regex α → Prop
  | start => False
  | finish => False
  | one _ => True
  | seq first second => first.Plain ∧ second.Plain
  | either first second => first.Plain ∧ second.Plain
  | many body => body.Plain
  | group body => body.Plain

/-- The texts an expression matches as a whole; anchors take nothing. -/
def language : Regex α → Language α
  | start => 1
  | finish => 1
  | one accepts => {text | ∃ c, text = [c] ∧ accepts c = true}
  | seq first second => first.language * second.language
  | either first second => first.language + second.language
  | many body => KStar.kstar body.language
  | group body => body.language

/-- Where no anchor asks for an end, a run takes every text of the language that the text starts with. -/
theorem exists_run_iff {regex : Regex α} (plain : regex.Plain) {atStart : Bool} {text taken rest : List α} :
    (∃ run ∈ regex.runs atStart text, run.taken = taken ∧ run.rest = rest) ↔ text = taken ++ rest ∧ taken ∈ regex.language := by
  induction regex generalizing atStart text taken rest with
  | start => exact plain.elim
  | finish => exact plain.elim
  | one accepts =>
    cases text with
    | nil =>
      constructor
      · rintro ⟨_, among, -⟩
        cases among
      · rintro ⟨whole, c, rfl, -⟩
        cases whole
    | cons c rest' =>
      rw [runs_one_cons]
      constructor
      · rintro ⟨run, among, rfl, rfl⟩
        split_ifs at among with accepted
        · rw [List.mem_singleton.mp among]
          exact ⟨rfl, c, rfl, accepted⟩
        · cases among
      · rintro ⟨whole, d, rfl, accepted⟩
        obtain ⟨rfl, rfl⟩ := List.cons.inj whole
        rw [if_pos accepted]
        exact ⟨_, List.mem_singleton_self _, rfl, rfl⟩
  | seq first second one two =>
    rw [runs_seq, language, Language.mem_mul]
    constructor
    · rintro ⟨run, among, rfl, rfl⟩
      obtain ⟨before, takes, later⟩ := List.mem_flatMap.mp among
      obtain ⟨after, goes, rfl⟩ := List.mem_map.mp later
      obtain ⟨whole, firstTakes⟩ := (one plain.1).mp ⟨before, takes, rfl, rfl⟩
      obtain ⟨remains, secondTakes⟩ := (two plain.2).mp ⟨after, goes, rfl, rfl⟩
      refine ⟨?_, before.taken, firstTakes, after.taken, secondTakes, rfl⟩
      rw [whole, remains]
      exact (List.append_assoc _ _ _).symm
    · rintro ⟨whole, left, firstTakes, right, secondTakes, rfl⟩
      rw [List.append_assoc] at whole
      obtain ⟨before, takes, rfl, remains⟩ := (one plain.1).mpr ⟨whole, firstTakes⟩
      obtain ⟨after, goes, rfl, rfl⟩ := (two plain.2).mpr ⟨remains, secondTakes⟩
      exact ⟨before.andThen after, List.mem_flatMap.mpr ⟨before, takes, List.mem_map.mpr ⟨after, goes, rfl⟩⟩, rfl, rfl⟩
  | either first second one two =>
    rw [runs_either, language, Language.mem_add, and_or_left, ← @one plain.1 atStart, ← @two plain.2 atStart]
    simp only [List.mem_append, or_and_right, exists_or]
  | many body ih =>
    rw [language]
    constructor
    · rintro ⟨run, among, rfl, rfl⟩
      refine ⟨text_of_run among, ?_⟩
      induction length : text.length using Nat.strong_induction_on generalizing atStart text run with
      | h letters rounds =>
        subst length
        rw [runs_many, List.mem_append, List.mem_flatMap, List.mem_singleton] at among
        rcases among with ⟨first, takes, later⟩ | rfl
        · obtain ⟨second, goes, rfl⟩ := List.mem_map.mp later
          have shorter := shorter_of_run takes
          obtain ⟨-, firstTakes⟩ := (ih plain).mp ⟨first, List.mem_of_mem_filter takes, rfl, rfl⟩
          obtain ⟨pieces, whole, each⟩ := Language.mem_kstar.mp (rounds _ shorter second goes rfl)
          refine Language.mem_kstar.mpr ⟨first.taken :: pieces, ?_, List.forall_mem_cons.mpr ⟨firstTakes, each⟩⟩
          rw [List.flatten_cons, ← whole]
          rfl
        · exact Language.nil_mem_kstar _
    · rintro ⟨rfl, takes⟩
      rw [Language.kstar_def_nonempty] at takes
      obtain ⟨pieces, rfl, each⟩ := takes
      induction pieces generalizing atStart with
      | nil =>
        rw [runs_many]
        exact ⟨⟨[], none, rest⟩, List.mem_append_right _ (List.mem_singleton_self _), rfl, rfl⟩
      | cons piece pieces rounds =>
        obtain ⟨⟨firstTakes, given⟩, others⟩ := List.forall_mem_cons.mp each
        have whole : (piece :: pieces).flatten ++ rest = piece ++ (pieces.flatten ++ rest) := by
          rw [List.flatten_cons, List.append_assoc]
        obtain ⟨first, among, rfl, remains⟩ := (ih plain).mpr ⟨whole, firstTakes⟩
        obtain ⟨second, goes, taken, rfl⟩ := rounds others
        refine ⟨first.andThen second, ?_, by rw [Run.andThen, taken, List.flatten_cons], rfl⟩
        rw [runs_many]
        refine List.mem_append_left _ (List.mem_flatMap.mpr ⟨first, List.mem_filter.mpr ⟨among, by simpa using given⟩, ?_⟩)
        rw [remains]
        exact List.mem_map.mpr ⟨second, goes, rfl⟩
  | group body ih =>
    rw [language, ← @ih plain atStart text taken rest, runs_group]
    simp only [List.mem_map, exists_exists_and_eq_and]

/-! ## Which run comes first -/

theorem search_of_head {regex : Regex α} {atStart : Bool} {text : List α} {run : Run α}
    (first : (regex.runs atStart text).head? = some run) : regex.search atStart text = some run := by
  cases text with
  | nil => exact first
  | cons c rest => rw [search, first]

theorem search_of_none {regex : Regex α} {atStart : Bool} {c : α} {rest : List α}
    (none : regex.runs atStart (c :: rest) = []) : regex.search atStart (c :: rest) = regex.search false rest := by
  rw [search, none]
  rfl

@[simp] theorem andThen_nothing (text : List α) (run : Run α) : Run.andThen ⟨[], none, text⟩ run = run := by
  rcases run with ⟨taken, _ | group, rest⟩ <;> rfl

theorem andThen_assoc (first second third : Run α) :
    (first.andThen second).andThen third = first.andThen (second.andThen third) := by
  rcases third with ⟨taken, _ | group, rest⟩ <;> simp [Run.andThen]

/-- Up to the end of the text there is one way at most, and the group of it is the text. -/
theorem head_to_finish {body : Regex α} (plain : body.Plain) {atStart : Bool} {text : List α} (whole : text ∈ body.language) :
    ((seq (group body) finish).runs atStart text).head? = some ⟨text, some text, []⟩ := by
  have only : ∀ run ∈ (seq (group body) finish).runs atStart text, run = ⟨text, some text, []⟩ := by
    intro run among
    rw [runs_seq, runs_group, List.flatMap_map, List.mem_flatMap] at among
    obtain ⟨inner, takes, later⟩ := among
    obtain ⟨last, ends, rfl⟩ := List.mem_map.mp later
    rw [runs_finish] at ends
    split_ifs at ends with nothing
    · have ended : inner.rest = [] := List.isEmpty_iff.mp nothing
      rw [List.mem_singleton.mp ends, text_of_run takes, Run.andThen]
      simp [ended]
    · cases ends
  obtain ⟨run, takes, taken, ended⟩ := (@exists_run_iff _ _ plain atStart _ _ _).mpr ⟨(List.append_nil text).symm, whole⟩
  cases all : (seq (group body) finish).runs atStart text with
  | nil =>
    have among : ({ run with group := some run.taken } : Run α).andThen ⟨[], none, run.rest⟩ ∈
        (seq (group body) finish).runs atStart text := by
      rw [runs_seq, runs_group, List.flatMap_map, List.mem_flatMap]
      refine ⟨run, takes, List.mem_map.mpr ⟨_, ?_, rfl⟩⟩
      rw [runs_finish, if_pos (by simp [ended])]
      exact List.mem_singleton_self _
    rw [all] at among
    cases among
  | cons first others =>
    rw [List.head?_cons, only first (by rw [all]; exact List.mem_cons_self)]

theorem runs_to_finish {body : Regex α} (plain : body.Plain) {atStart : Bool} {text : List α} (other : text ∉ body.language) :
    (seq (group body) finish).runs atStart text = [] := by
  rw [List.eq_nil_iff_forall_not_mem]
  intro run among
  rw [runs_seq, runs_group, List.flatMap_map, List.mem_flatMap] at among
  obtain ⟨inner, takes, later⟩ := among
  obtain ⟨last, ends, rfl⟩ := List.mem_map.mp later
  rw [runs_finish] at ends
  split_ifs at ends with nothing
  · rw [List.isEmpty_iff] at nothing
    have whole := ((@exists_run_iff _ _ plain atStart _ _ _).mp ⟨inner, takes, rfl, nothing⟩)
    rw [List.append_nil] at whole
    exact other (whole.1 ▸ whole.2)
  · cases ends

/-- A round that can be taken in one way is taken first. -/
theorem many_round {body : Regex α} {atStart : Bool} {text : List α} {first : Run α}
    (round : body.runs atStart text = [first]) (takes : first.taken ≠ []) :
    (many body).runs atStart text = ((many body).runs false first.rest).map first.andThen ++ [⟨[], none, text⟩] := by
  rw [runs_many, round]
  simp [takes]

theorem many_no_round {body : Regex α} {atStart : Bool} {text : List α} (stops : body.runs atStart text = []) :
    (many body).runs atStart text = [⟨[], none, text⟩] := by
  rw [runs_many, stops]
  rfl

/-- What comes first after the round, comes first. -/
theorem head_round {body next : Regex α} {atStart : Bool} {text : List α} {first run : Run α}
    (round : body.runs atStart text = [first]) (takes : first.taken ≠ [])
    (later : ((seq (many body) next).runs false first.rest).head? = some run) :
    ((seq (many body) next).runs atStart text).head? = some (first.andThen run) := by
  have moved : ∀ second : Run α, ((next.runs (atStart && (first.andThen second).taken.isEmpty) (first.andThen second).rest).map
      (first.andThen second).andThen) =
        ((next.runs (false && second.taken.isEmpty) second.rest).map second.andThen).map first.andThen := by
    intro second
    have some' : (first.andThen second).taken.isEmpty = false := by
      simp [Run.andThen, takes]
    rw [some', Bool.and_false, Bool.false_and, List.map_map]
    exact List.map_congr_left fun third _ => andThen_assoc first second third
  rw [runs_seq] at later
  rw [runs_seq, many_round round takes, List.flatMap_append, List.flatMap_map]
  simp only [moved]
  rw [← List.map_flatMap, List.head?_append, List.head?_map, later]
  rfl

/-- Where no round can be taken, what follows matches. -/
theorem runs_no_round {body next : Regex α} {atStart : Bool} {text : List α} (stops : body.runs atStart text = []) :
    (seq (many body) next).runs atStart text = next.runs atStart text := by
  have same : (fun run : Run α => Run.andThen ⟨[], none, text⟩ run) = id := funext (andThen_nothing text)
  rw [runs_seq, many_no_round stops]
  simp [same]

/-- After a match the next ones are looked for in what is left. -/
theorem matchesFrom_of_search {regex : Regex α} {more : ℕ} {atStart : Bool} {text : List α} {run : Run α}
    (found : regex.search atStart text = some run) (takes : run.taken ≠ []) :
    regex.matchesFrom (more + 1) atStart text = run.taken :: regex.matchesFrom more false run.rest := by
  rw [matchesFrom, found]
  simp [takes]

theorem matchesFrom_of_none {regex : Regex α} {fuel : ℕ} {atStart : Bool} {c : α} {rest : List α}
    (stops : regex.runs atStart (c :: rest) = []) :
    regex.matchesFrom fuel atStart (c :: rest) = regex.matchesFrom fuel false rest := by
  cases fuel with
  | zero => rfl
  | succ more => rw [matchesFrom, matchesFrom, search_of_none stops]

end Regex

end DuckAcl
