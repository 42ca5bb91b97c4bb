import DuckAcl.Model.FunctionDecisions
import DuckAcl.Soundness.FunctionCategories

/-! # A cached decision is the decision

The key of a decision joins the roles by a separator, so two principals may share a key when a role's name
holds one. Roles without separators are told apart up to their order, and the order matters for the
category a decision names. Where a set of roles comes in one order, every answer is what the model of the
call resolves.
-/

namespace DuckAcl

open Runs

/-! ## The key -/

/-- No role's name holds a separator of the key. -/
def Separable (roles : List Text) : Prop := ∀ role ∈ roles, '\x1e' ∉ role ∧ '\x1f' ∉ role

instance (roles : List Text) : Decidable (Separable roles) := inferInstanceAs (Decidable (∀ role ∈ roles, _))

theorem FunctionKind.text_free (kind : FunctionKind) : '\x1f' ∉ kind.text := by
  cases kind <;> decide

theorem FunctionKind.text_inj {kind other : FunctionKind} (same : kind.text = other.text) : kind = other := by
  cases kind <;> cases other <;> first | rfl | exact absurd same (by decide)

section

variable {print : WrittenName → Text} {roles others : List Text} {written written' : WrittenName}
  {kind kind' : FunctionKind}

/-- Calls under one key are for the same name and kind, and for the same roles or for none but everyone's. -/
theorem decisionKey_inj (injective : Function.Injective print) (separable : Separable roles) (separable' : Separable others)
    (same : decisionKey print roles written kind = decisionKey print others written' kind') :
    written = written' ∧ kind = kind' ∧
      (roles.Perm others ∨ (roles = [] ∧ others = [[]]) ∨ (roles = [[]] ∧ others = [])) := by
  have perm := List.perm_insertionSort (· ≤ ·) roles
  have perm' := List.perm_insertionSort (· ≤ ·) others
  have sorted : ∀ role ∈ roles.insertionSort (· ≤ ·), '\x1e' ∉ role ∧ '\x1f' ∉ role :=
    fun role member => separable role (perm.mem_iff.mp member)
  have sorted' : ∀ role ∈ others.insertionSort (· ≤ ·), '\x1e' ∉ role ∧ '\x1f' ∉ role :=
    fun role member => separable' role (perm'.mem_iff.mp member)
  obtain ⟨joined, rest⟩ := Text.split_at_first
    (Text.intercalate_free (by decide) fun role member => (sorted role member).2)
    (Text.intercalate_free (by decide) fun role member => (sorted' role member).2) same
  obtain ⟨printed, kinds⟩ := Text.split_at_last kind.text_free kind'.text_free rest
  refine ⟨injective printed, FunctionKind.text_inj kinds, ?_⟩
  rcases Text.intercalate_inj (fun role member => (sorted role member).1) (fun role member => (sorted' role member).1)
    joined with equal | ⟨none, empty⟩ | ⟨empty, none⟩
  · exact .inl (perm.symm.trans (equal ▸ perm'))
  · rw [none] at perm
    rw [empty] at perm'
    exact .inr (.inl ⟨perm.symm.eq_nil, List.perm_singleton.mp perm'.symm⟩)
  · rw [empty] at perm
    rw [none] at perm'
    exact .inr (.inr ⟨List.perm_singleton.mp perm.symm, perm'.symm.eq_nil⟩)

end

/-- The role `''` is everyone's already. -/
theorem FunctionCategoryModel.resolve_everyone (model : FunctionCategoryModel) (written : WrittenName)
    (kind : FunctionKind) : model.resolve [[]] written kind = model.resolve [] written kind := by
  have twice : ∀ (keys categories : RoleRules → Finset Text) (verdict : FunctionVerdict) (candidate : FunctionCandidate),
      model.judgePass keys categories verdict candidate ([[]] ++ [[]]) =
        model.judgePass keys categories verdict candidate ([] ++ [[]]) := by
    intro keys categories verdict candidate
    simp only [List.singleton_append, List.nil_append, judgePass]
    split <;> rfl
  have judged : ∀ candidate, model.judge [[]] candidate = model.judge [] candidate := by
    intro candidate
    unfold judge
    dsimp only
    rw [twice, twice]
  have listed := model.resolve_chosen [[]] written kind
  have implied := model.resolve_chosen [] written kind
  cases found : model.chosen written kind with
  | none =>
    simp only [found] at implied
    exact implied.1 [[]]
  | some candidate =>
    simp only [found] at listed implied
    rw [listed, implied, judged]

/-! ## The table -/

namespace DecisionStore

variable {print : WrittenName → Text}

/-- The condition on a step: the roles asked for hold no separator, and come in the order they came in
before for this name. -/
def Meets (store : DecisionStore) : DecisionEvent → Prop
  | .ask roles written kind => Separable roles ∧
    ∀ earlier ∈ store.asked, earlier.written.path = written.path → earlier.kind = kind → earlier.roles.Perm roles →
      earlier.roles = roles
  | _ => True

instance (store : DecisionStore) (event : DecisionEvent) : Decidable (store.Meets event) :=
  match event with
  | .ask roles written kind => inferInstanceAs (Decidable (Separable roles ∧
      ∀ earlier ∈ store.asked, earlier.written.path = written.path → earlier.kind = kind → earlier.roles.Perm roles →
        earlier.roles = roles))
  | .swap _ | .back _ | .look _ | .keep _ => .isTrue trivial

/-- What a call asks was asked. -/
def Asked (store : DecisionStore) (call : ResolveCall) : Prop :=
  ∃ asked ∈ store.asked, asked.roles = call.roles ∧ asked.written = call.written ∧ asked.kind = call.kind

/-- The answer to a call is what its model resolves. -/
def Right (store : DecisionStore) (call : ResolveCall) (decision : FunctionDecision) : Prop :=
  ∃ model, store.models[call.model]? = some model ∧ decision = model.resolve call.roles call.written call.kind

/-- What holds in every state of a run that meets the condition. -/
structure Kept (print : WrittenName → Text) (store : DecisionStore) : Prop where
  separable : ∀ call ∈ store.asked, Separable call.roles
  ordered : ∀ call ∈ store.asked, ∀ other ∈ store.asked, call.written = other.written → call.kind = other.kind →
    call.roles.Perm other.roles → call.roles = other.roles
  calls : ∀ call ∈ store.calls, store.Asked call
  /-- every decision of the table is one of its model -/
  table : ∀ pointer ∈ store.cached, ∃ model, store.models[pointer]? = some model ∧
    ∀ key decision, store.decisions.find key = some decision → ∃ call ∈ store.asked,
      decisionKey print call.roles call.written call.kind = key ∧
        decision = model.resolve call.roles call.written call.kind
  answers : ∀ answer ∈ store.answers, store.Right answer.1 answer.2

theorem kept_initial (print : WrittenName → Text) : Kept print {} := by
  constructor <;> simp

variable {store : DecisionStore}

/-- Two calls under one key have one decision. -/
theorem Kept.agree (kept : store.Kept print) (injective : Function.Injective print) {call other : ResolveCall}
    (asked : store.Asked call) (known : other ∈ store.asked)
    (same : decisionKey print other.roles other.written other.kind = decisionKey print call.roles call.written call.kind)
    (model : FunctionCategoryModel) :
    model.resolve other.roles other.written other.kind = model.resolve call.roles call.written call.kind := by
  obtain ⟨question, there, roles, written, kind⟩ := asked
  rw [← roles, ← written, ← kind] at same ⊢
  obtain ⟨names, kinds, alike⟩ := decisionKey_inj injective (kept.separable other known)
    (kept.separable question there) same
  rw [names, kinds]
  rcases alike with perm | ⟨none, empty⟩ | ⟨empty, none⟩
  · rw [kept.ordered other known question there names kinds perm]
  · rw [none, empty, model.resolve_everyone]
  · rw [none, empty, model.resolve_everyone]

theorem Kept.look (kept : store.Kept print) (injective : Function.Injective print) {index : ℕ} {call : ResolveCall}
    (found : store.calls[index]? = some call) (of : store.cached = some call.model) {decision : FunctionDecision}
    (held : store.decisions.find (decisionKey print call.roles call.written call.kind) = some decision) :
    Kept print
      { store with calls := store.calls.eraseIdx index, answers := store.answers ++ [(call, decision)] } := by
  refine ⟨kept.separable, kept.ordered, fun other member => kept.calls other ?_, kept.table, ?_⟩
  · exact (List.eraseIdx_sublist _ _).subset member
  · intro answer member
    rcases List.mem_append.mp member with old | new
    · exact kept.answers answer old
    · obtain rfl := List.mem_singleton.mp new
      obtain ⟨model, there, entries⟩ := kept.table call.model of
      obtain ⟨other, known, key, value⟩ := entries _ _ held
      refine ⟨model, there, value.trans ?_⟩
      exact kept.agree injective (kept.calls call (List.mem_of_getElem? found)) known key model

theorem Kept.keep (kept : store.Kept print) {index : ℕ} {call : ResolveCall} (found : store.calls[index]? = some call)
    {model : FunctionCategoryModel} (there : store.models[call.model]? = some model) :
    Kept print
      { store.keep print call (model.resolve call.roles call.written call.kind) with
        calls := store.calls.eraseIdx index
        answers := store.answers ++ [(call, model.resolve call.roles call.written call.kind)] } := by
  refine ⟨kept.separable, kept.ordered, fun other member => kept.calls other ?_, ?_, ?_⟩
  · exact (List.eraseIdx_sublist _ _).subset member
  · intro pointer same
    obtain rfl := Option.some.inj same
    refine ⟨model, there, fun key decision held => ?_⟩
    obtain ⟨question, known, roles, written, kind⟩ := kept.calls call (List.mem_of_getElem? found)
    simp only [DecisionStore.keep, Memo.find_store] at held
    split_ifs at held with own mine
    · obtain rfl := Option.some.inj held
      exact ⟨question, known, by rw [roles, written, kind, own], by rw [roles, written, kind]⟩
    · obtain ⟨cached, same, entries⟩ := kept.table call.model mine
      obtain rfl := Option.some.inj (same.symm.trans there)
      exact entries key decision (Memo.find_clearIfOversized held)
    · exact absurd (Memo.find_clearIfOversized held) (by simp)
  · intro answer member
    rcases List.mem_append.mp member with old | new
    · exact kept.answers answer old
    · obtain rfl := List.mem_singleton.mp new
      exact ⟨model, there, rfl⟩

/-- A step that meets the condition keeps the invariant. -/
theorem Kept.step {next : DecisionStore} {event : DecisionEvent} (kept : store.Kept print)
    (injective : Function.Injective print) (meets : store.Meets event) (stepped : store.step print event = some next) :
    next.Kept print := by
  cases event with
  | swap model =>
    obtain rfl := Option.some.inj stepped
    have more : ∀ {pointer : ℕ} {held : FunctionCategoryModel}, store.models[pointer]? = some held →
        (store.models ++ [model])[pointer]? = some held := by
      intro pointer held there
      rw [List.getElem?_append_left (List.getElem?_eq_some_iff.mp there).1]
      exact there
    refine ⟨kept.separable, kept.ordered, kept.calls, fun pointer same => ?_, fun answer member => ?_⟩
    · obtain ⟨held, there, entries⟩ := kept.table pointer same
      exact ⟨held, more there, entries⟩
    · obtain ⟨held, there, right⟩ := kept.answers answer member
      exact ⟨held, more there, right⟩
  | back pointer =>
    simp only [DecisionStore.step] at stepped
    split_ifs at stepped
    obtain rfl := Option.some.inj stepped
    exact ⟨kept.separable, kept.ordered, kept.calls, kept.table, kept.answers⟩
  | ask roles written kind =>
    simp only [DecisionStore.step] at stepped
    split_ifs at stepped
    obtain rfl := Option.some.inj stepped
    obtain ⟨separable, ordered⟩ := meets
    have before : ∀ call ∈ store.asked, call.written = written → call.kind = kind → call.roles.Perm roles →
        call.roles = roles :=
      fun call known name => ordered call known (congrArg WrittenName.path name)
    refine ⟨?_, ?_, ?_, ?_, kept.answers⟩
    · intro call member
      rcases List.mem_append.mp member with old | new
      · exact kept.separable call old
      · obtain rfl := List.mem_singleton.mp new
        exact separable
    · intro call member other there name kinds perm
      rcases List.mem_append.mp member with old | new <;> rcases List.mem_append.mp there with old' | new'
      · exact kept.ordered call old other old' name kinds perm
      · obtain rfl := List.mem_singleton.mp new'
        exact before call old name kinds perm
      · obtain rfl := List.mem_singleton.mp new
        exact (before other old' name.symm kinds.symm perm.symm).symm
      · rw [List.mem_singleton.mp new, List.mem_singleton.mp new']
    · intro call member
      rcases List.mem_append.mp member with old | new
      · obtain ⟨asked, known, same⟩ := kept.calls call old
        exact ⟨asked, List.mem_append_left _ known, same⟩
      · exact ⟨call, List.mem_append_right _ new, rfl, rfl, rfl⟩
    · intro pointer same
      obtain ⟨model, there, entries⟩ := kept.table pointer same
      refine ⟨model, there, fun key decision held => ?_⟩
      obtain ⟨call, known, right⟩ := entries key decision held
      exact ⟨call, List.mem_append_left _ known, right⟩
  | look index =>
    simp only [DecisionStore.step] at stepped
    split at stepped
    · cases stepped
    · rename_i call found
      split at stepped
      · cases stepped
      · split at stepped
        · rename_i decision held
          obtain rfl := Option.some.inj stepped
          split_ifs at held with mine
          exact kept.look injective found mine held
        · obtain rfl := Option.some.inj stepped
          refine ⟨kept.separable, kept.ordered, fun other member => ?_, kept.table, kept.answers⟩
          rcases List.mem_or_eq_of_mem_set member with old | rfl
          · exact kept.calls other old
          · exact kept.calls call (List.mem_of_getElem? found)
  | keep index =>
    simp only [DecisionStore.step] at stepped
    split at stepped
    · cases stepped
    · rename_i call found
      split at stepped
      · split at stepped
        · cases stepped
        · rename_i model there
          obtain rfl := Option.some.inj stepped
          exact kept.keep found there
      · cases stepped

end DecisionStore

/-- In every model that edits made, a denied call stays denied with more roles, and an admitted one is of
no key in the never set, nor one that a row of the roles or everyone's denies, by name or by category. In
every run whose steps meet the condition, every answer is what the model in force resolved. -/
theorem function_decisions_final {print : WrittenName → Text} (injective : Function.Injective print) :
    (∀ edits roles written kind, let model := FunctionCategoryModel.edited edits
      let decision := model.resolve roles written kind
      (∀ more, roles ⊆ more → decision.verdict = .denied → (model.resolve more written kind).verdict = .denied) ∧
        (decision.verdict = .admitted →
          functionNeverCallable decision.key.name decision.key.database = false ∧
            ∀ role ∈ roles ++ [[]], decision.key.serialize ∉ (model.rulesOf role).keysDenied ∧
              ∀ category ∈ model.categoriesOf decision.key, Text.fold category ∉ (model.rulesOf role).categoriesDenied)) ∧
      ∀ events store, Along (DecisionStore.step print) DecisionStore.Meets {} events →
        run (DecisionStore.step print) {} events = some store →
          ∀ answer ∈ store.answers, store.Right answer.1 answer.2 := by
  refine ⟨fun edits roles written kind => ⟨fun more contains denied => ?_, fun admitted => ?_⟩, fun events store along ran => ?_⟩
  · exact FunctionCategoryModel.resolve_denied_more contains denied
  · obtain ⟨candidate, chosen, key, callable, undenied⟩ := FunctionCategoryModel.resolve_admitted admitted
    have member := FunctionCategoryModel.chosen_mem chosen
    rw [key, (FunctionCategoryModel.single_edited edits).categoriesOf member]
    exact ⟨callable, undenied⟩
  · have kept : store.Kept print := run_keeps (DecisionStore.step print) DecisionStore.Meets
      (fun kept meets stepped => kept.step injective meets stepped) (DecisionStore.kept_initial print) along ran
    exact kept.answers

/-- Names print as their parts joined by dots, a part quoted where it has to be. -/
private def printed (written : WrittenName) : Text := NamePath.toKey written.path

private theorem printed_injective : Function.Injective printed := by
  rintro ⟨path, isName, short⟩ ⟨path', isName', short'⟩ same
  have read := NamePath.fromKey_toKey isName
  rw [show NamePath.toKey path = NamePath.toKey path' from same, NamePath.fromKey_toKey isName'] at read
  obtain rfl := Option.some.inj read
  rfl

/-- The bare name `f`. -/
private def plainName : WrittenName := ⟨[['f']], ⟨by simp, by simp⟩, by simp⟩

/-- Everyone may call `f`, and the role `a` may not. -/
private def deniedToOne : FunctionCategoryModel :=
  let key : FunctionKey := { database := "system".toList, schema := "main".toList, name := ['f'], kind := .scalar }
  .edited [.addNameGrant [] key true, .addNameGrant ['a'] key false]

private def twoPrincipals : List DecisionEvent :=
  [.swap deniedToOne, .ask [['c']] plainName .scalar, .look 0, .keep 0, .ask [['a'], ['b']] plainName .scalar, .look 0,
    .keep 0, .ask [['c']] plainName .scalar, .look 0]

theorem function_decisions_final_two : Function.Injective printed ∧
    ((run (DecisionStore.step printed) {} twoPrincipals).map fun store => store.answers.map (·.2.verdict)) =
      some [.admitted, .denied, .admitted] ∧
    ∀ store, run (DecisionStore.step printed) {} twoPrincipals = some store →
      ∀ answer ∈ store.answers, store.Right answer.1 answer.2 := by
  refine ⟨printed_injective, by decide, fun store ran => ?_⟩
  exact (function_decisions_final printed_injective).2 twoPrincipals store (by decide) ran

/-- A role whose name holds the separator of the key: the decision cached for it answers the two roles the
key reads as, and lets in a call that is denied to one of them. -/
theorem function_decisions_collide :
    ((run (DecisionStore.step printed) {} [.swap deniedToOne, .ask [['a', '\x1e', 'b']] plainName .scalar, .look 0, .keep 0,
        .ask [['a'], ['b']] plainName .scalar, .look 0]).map fun store =>
          store.answers.map fun answer => (answer.1.roles, answer.2.verdict)) =
        some [([['a', '\x1e', 'b']], .admitted), ([['a'], ['b']], .admitted)] ∧
      (deniedToOne.resolve [['a'], ['b']] plainName .scalar).verdict = .denied := by
  decide

end DuckAcl
