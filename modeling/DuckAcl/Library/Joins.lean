import Mathlib.Data.List.Basic

/-! # Joins of two lists of rows

A join takes each left row with the right rows its condition admits. The right side may depend on the
left row, as a lateral one does; an outer join pads the rows that found no partner, and a semi or anti
join only asks whether there was one. Some joins take the best of the admitted rows instead of all of
them. What matters to a caller is when rows can be left out of either side without the wanted rows of
the result changing.
-/

namespace DuckAcl

/-- What a join does with a row that found no partner. -/
inductive JoinKind where
  | inner
  | left
  | right
  | full
  | semi
  | anti
deriving DecidableEq, Repr

/-- A semi or anti join offers the columns of its left side alone. -/
def JoinKind.hidesRight : JoinKind → Bool
  | .semi | .anti => true
  | _ => false

/-- The rows a join takes of those its condition admits. -/
structure Choice (α β : Type) where
  pick : α → List β → List β
  pick_mem : ∀ {left admitted row}, row ∈ pick left admitted → row ∈ admitted

section

variable {α β : Type} (on : α → β → Bool) (choice : Option (Choice α β))

/-- The right rows a left row is joined with. -/
def joinMatches (right : α → List β) (l : α) : List β :=
  match choice with
  | none => (right l).filter (on l)
  | some choice => choice.pick l ((right l).filter (on l))

/-- What a left row gives. -/
def joinFrom (kind : JoinKind) (right : α → List β) (l : α) : List (Option α × Option β) :=
  let partners := joinMatches on choice right l
  match kind with
  | .inner | .right => partners.map fun r => (some l, some r)
  | .left | .full => if partners = [] then [(some l, none)] else partners.map fun r => (some l, some r)
  | .semi => if partners = [] then [] else [(some l, none)]
  | .anti => if partners = [] then [(some l, none)] else []

/-- The right rows no left row was joined with, where the join keeps them. -/
def joinUnmatched [DecidableEq β] (kind : JoinKind) (left : List α) (right : α → List β) (free : List β) : List (Option α × Option β) :=
  match kind with
  | .right | .full =>
    (free.filter fun r => left.all fun l => r ∉ joinMatches on choice right l).map fun r => (none, some r)
  | .inner | .left | .semi | .anti => []

/-- The rows of a join; `free` is the right side read without a left row. -/
def joinRows [DecidableEq β] (kind : JoinKind) (left : List α) (right : α → List β) (free : List β) : List (Option α × Option β) :=
  left.flatMap (joinFrom on choice kind right) ++ joinUnmatched on choice kind left right free

theorem mem_joinMatches {right : α → List β} {l : α} {r : β} (member : r ∈ joinMatches on choice right l) :
    r ∈ right l ∧ on l r = true := by
  unfold joinMatches at member
  split at member
  · exact List.mem_filter.mp member
  · exact List.mem_filter.mp (Choice.pick_mem _ member)

/-- When rows may be left out of the sides of a join: `wanted` rows of the result stand on rows that the
sides keep, a wanted row without a partner would have found none among the rows left out, and a join
that takes the best of the admitted rows is offered the same ones. -/
structure Narrowable (wanted : Option α × Option β → Bool) (keepLeft : α → Bool) (keepRight : β → Bool) : Prop where
  both : ∀ {l r}, on l r = true → wanted (some l, some r) = true → keepLeft l = true ∧ keepRight r = true
  leftAlone : ∀ {l}, wanted (some l, none) = true → keepLeft l = true ∧ ∀ r, on l r = true → keepRight r = true
  rightAlone : ∀ {r}, wanted (none, some r) = true → keepRight r = true ∧ ∀ l, on l r = true → keepLeft l = true
  chosen : choice ≠ none → ∀ {l r}, keepLeft l = true → on l r = true → keepRight r = true

variable {on : α → β → Bool} {choice : Option (Choice α β)} {wanted : Option α × Option β → Bool}
  {keepLeft : α → Bool} {keepRight : β → Bool}

/-- Rows that are kept wherever a test passes can be left out before the test. -/
theorem filter_of_kept {γ : Type} {keep test : γ → Bool} {rows others : List γ} (kept : ∀ row, test row = true → keep row = true)
    (same : rows.filter keep = others.filter keep) : rows.filter test = others.filter test := by
  have narrowed : ∀ list : List γ, list.filter test = (list.filter keep).filter test := by
    intro list
    rw [List.filter_filter]
    refine List.filter_congr fun row _ => ?_
    cases passes : test row with
    | false => rfl
    | true => simp [kept row passes]
  rw [narrowed rows, narrowed others, same]

namespace Narrowable

variable (narrowable : Narrowable on choice wanted keepLeft keepRight)
include narrowable

/-- A left row whose partners are all kept has the same ones before and after the narrowing. -/
private theorem matches_eq {right other : α → List β} {l : α} (kept : ∀ r, on l r = true → keepRight r = true)
    (same : (right l).filter keepRight = (other l).filter keepRight) :
    joinMatches on choice right l = joinMatches on choice other l := by
  have admitted : (right l).filter (on l) = (other l).filter (on l) := filter_of_kept kept same
  unfold joinMatches
  cases choice with
  | none => exact admitted
  | some choice => exact congrArg (choice.pick l) admitted

/-- The wanted pairs of a kept left row are the same before and after. -/
private theorem pairs_eq {right other : α → List β} {l : α} (kept : keepLeft l = true)
    (same : (right l).filter keepRight = (other l).filter keepRight) :
    ((joinMatches on choice right l).map fun r => (some l, some r)).filter wanted
      = ((joinMatches on choice other l).map fun r => (some l, some r)).filter wanted := by
  cases chosen : choice with
  | some picked =>
    have all := fun r => narrowable.chosen (by simp [chosen]) (l := l) (r := r) kept
    rw [← chosen, narrowable.matches_eq all same]
  | none =>
    simp only [joinMatches, List.filter_map, List.filter_filter]
    congr 1
    refine filter_of_kept (fun r passes => ?_) same
    rw [Bool.and_eq_true] at passes
    exact (narrowable.both passes.2 passes.1).2

/-- What a kept left row gives of the wanted rows. -/
private theorem from_eq (kind : JoinKind) {right other : α → List β} {l : α} (kept : keepLeft l = true)
    (same : (right l).filter keepRight = (other l).filter keepRight) :
    (joinFrom on choice kind right l).filter wanted = (joinFrom on choice kind other l).filter wanted := by
  have pairs := narrowable.pairs_eq kept same
  cases alone : wanted (some l, none) with
  | true =>
    have matched := narrowable.matches_eq (narrowable.leftAlone alone).2 same
    cases kind <;> simp only [joinFrom, matched]
  | false =>
    cases kind with
    | inner | right => exact pairs
    | left | full =>
      have padded : ∀ partners : List β,
          (if partners = [] then [(some l, none)] else partners.map fun r => (some l, some r)).filter wanted
            = (partners.map fun r => (some l, some r)).filter wanted := by
        intro partners
        by_cases empty : partners = []
        · simp [empty, alone]
        · rw [if_neg empty]
      simp only [joinFrom, padded, pairs]
    | semi | anti =>
      simp only [joinFrom]
      split <;> split <;> simp [alone]

/-- A left row that is not kept gives no wanted row. -/
private theorem from_nil (kind : JoinKind) (right : α → List β) {l : α} (gone : keepLeft l = false) :
    (joinFrom on choice kind right l).filter wanted = [] := by
  have alone : wanted (some l, none) = false := by
    cases wants : wanted (some l, none) with
    | false => rfl
    | true => rw [(narrowable.leftAlone wants).1] at gone; cases gone
  have pairs : ((joinMatches on choice right l).map fun r => (some l, some r)).filter wanted = [] := by
    rw [List.filter_eq_nil_iff]
    intro out member
    obtain ⟨r, matched, rfl⟩ := List.mem_map.mp member
    intro wants
    rw [(narrowable.both (mem_joinMatches on choice matched).2 wants).1] at gone
    cases gone
  cases kind with
  | inner | right => exact pairs
  | left | full =>
    simp only [joinFrom]
    split
    · simp [alone]
    · exact pairs
  | semi | anti =>
    simp only [joinFrom]
    split <;> simp [alone]

/-- The wanted rows come from the kept left rows. -/
private theorem flatMap_kept (kind : JoinKind) (left : List α) (right : α → List β) :
    (left.flatMap (joinFrom on choice kind right)).filter wanted
      = (left.filter keepLeft).flatMap fun l => (joinFrom on choice kind right l).filter wanted := by
  induction left with
  | nil => rfl
  | cons l left ih =>
    rw [List.flatMap_cons, List.filter_append, ih]
    cases kept : keepLeft l with
    | true => rw [List.filter_cons_of_pos kept, List.flatMap_cons]
    | false => rw [List.filter_cons_of_neg (by simp [kept]), narrowable.from_nil kind right kept, List.nil_append]

/-- Whether a wanted right row stays alone is decided by the kept left rows. -/
private theorem alone_iff [DecidableEq β] (left : List α) (right : α → List β) {r : β} (wants : wanted (none, some r) = true) :
    (left.all fun l => r ∉ joinMatches on choice right l)
      = (left.filter keepLeft).all fun l => r ∉ joinMatches on choice right l := by
  rw [Bool.eq_iff_iff]
  simp only [List.all_eq_true, decide_eq_true_eq, List.mem_filter, and_imp]
  refine ⟨fun alone l member _ => alone l member, fun alone l member matched => ?_⟩
  exact alone l member ((narrowable.rightAlone wants).2 l (mem_joinMatches on choice matched).2) matched

/-- A kept right row is a partner of a kept left row before the narrowing exactly when it is one after. -/
private theorem mem_matches_iff {right other : α → List β} {l : α} {r : β} (keptLeft : keepLeft l = true)
    (kept : keepRight r = true) (same : (right l).filter keepRight = (other l).filter keepRight) :
    r ∈ joinMatches on choice right l ↔ r ∈ joinMatches on choice other l := by
  cases chosen : choice with
  | some picked =>
    have all := fun r => narrowable.chosen (by simp [chosen]) (l := l) (r := r) keptLeft
    rw [← chosen, narrowable.matches_eq all same]
  | none =>
    have member : r ∈ (right l).filter keepRight ↔ r ∈ (other l).filter keepRight := by rw [same]
    simp only [List.mem_filter, kept, and_true] at member
    simp only [joinMatches, List.mem_filter, member]

private theorem unmatched_eq [DecidableEq β] (kind : JoinKind) {left others : List α} {right other : α → List β} {free freed : List β}
    (sameLeft : left.filter keepLeft = others.filter keepLeft)
    (sameRight : ∀ l, keepLeft l = true → (right l).filter keepRight = (other l).filter keepRight)
    (sameFree : free.filter keepRight = freed.filter keepRight) :
    (joinUnmatched on choice kind left right free).filter wanted
      = (joinUnmatched on choice kind others other freed).filter wanted := by
  have rest : ((free.filter fun r => left.all fun l => r ∉ joinMatches on choice right l).map fun r => (none, some r)).filter wanted
      = ((freed.filter fun r => others.all fun l => r ∉ joinMatches on choice other l).map fun r => (none, some r)).filter wanted := by
    simp only [List.filter_map, List.filter_filter, Function.comp_def]
    congr 1
    have tests : ∀ r, (wanted (none, some r) && left.all fun l => r ∉ joinMatches on choice right l)
        = (wanted (none, some r) && others.all fun l => r ∉ joinMatches on choice other l) := by
      intro r
      cases wants : wanted (none, some r) with
      | false => rfl
      | true =>
        have kept := (narrowable.rightAlone wants).1
        rw [narrowable.alone_iff left right wants, narrowable.alone_iff others other wants, sameLeft]
        congr 1
        rw [Bool.eq_iff_iff]
        simp only [List.all_eq_true, decide_eq_true_eq, List.mem_filter, and_imp]
        refine forall_congr' fun l => forall_congr' fun _ => forall_congr' fun keptLeft => not_congr ?_
        exact narrowable.mem_matches_iff keptLeft kept (sameRight l keptLeft)
    rw [funext tests]
    refine filter_of_kept (fun r passes => ?_) sameFree
    rw [Bool.and_eq_true] at passes
    exact (narrowable.rightAlone passes.1).1
  cases kind with
  | right | full => exact rest
  | inner | left | semi | anti => rfl

/-- A join whose sides agree on the rows they keep gives the same wanted rows. -/
theorem filter_joinRows [DecidableEq β] (kind : JoinKind) {left others : List α} {right other : α → List β} {free freed : List β}
    (sameLeft : left.filter keepLeft = others.filter keepLeft)
    (sameRight : ∀ l, keepLeft l = true → (right l).filter keepRight = (other l).filter keepRight)
    (sameFree : free.filter keepRight = freed.filter keepRight) :
    (joinRows on choice kind left right free).filter wanted = (joinRows on choice kind others other freed).filter wanted := by
  unfold joinRows
  rw [List.filter_append, List.filter_append, narrowable.unmatched_eq kind sameLeft sameRight sameFree,
    narrowable.flatMap_kept, narrowable.flatMap_kept, sameLeft]
  congr 1
  rw [List.flatMap_def, List.flatMap_def]
  congr 1
  refine List.map_congr_left fun l member => ?_
  have kept := (List.mem_filter.mp member).2
  exact narrowable.from_eq kind kept (sameRight l kept)

end Narrowable

end

end DuckAcl
