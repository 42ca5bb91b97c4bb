import DuckAcl.Model.ClientStorage
import Mathlib.Data.List.Nodup
import Mathlib.Data.List.Perm.Basic

/-! # A client through its storage

The texts of a client are JSON texts of its lists, and are read as they were written, but for empty texts:
a list drops them. A specification writes an empty text into a list where a single `""` stands for the list
of one; every other way of writing one drops or refuses it. The properties of a specification are applied in
any order alike.
-/

namespace DuckAcl.ClientStorage

open JsonValue

/-! ## What is written -/

private theorem hexValue_hexDigit : ∀ n < 16, hexValue (hexDigit n) = some n := by
  decide

theorem jsonQuote_written (value : Text) : Written (.str value) (jsonQuote value) := by
  rw [jsonQuote]
  refine .str ?_
  induction value with
  | nil => exact .nil
  | cons c value ih =>
    rw [List.flatMap_cons]
    split
    · exact .escape rfl ih
    · exact .escape rfl ih
    · exact .escape rfl ih
    · exact .escape rfl ih
    · exact .escape rfl ih
    · next noQuote noEscape _ _ _ =>
      split_ifs with control
      · have whole : Char.ofNat (16 * (c.toNat / 16) + c.toNat % 16) = c := by
          rw [Nat.div_add_mod]
          exact Char.ofNat_toNat c
        have spells := Spelled.unicode (hexValue_hexDigit (c.toNat / 16) (by omega))
          (hexValue_hexDigit (c.toNat % 16) (Nat.mod_lt _ (by decide))) ih
        rw [whole] at spells
        exact spells
      · exact .raw (Nat.le_of_not_lt control) noQuote noEscape ih

/-- Whether a string may be spelled as it is. -/
def plainText (text : Text) : Bool := text.all fun c => decide (32 ≤ c.toNat) && c != '"' && c != '\\'

theorem spelled_plain {text : Text} (plain : plainText text = true) : Spelled text text := by
  induction text with
  | nil => exact .nil
  | cons c text ih =>
    simp only [plainText, List.all_cons, Bool.and_eq_true, decide_eq_true_eq, bne_iff_ne, ne_eq] at plain
    obtain ⟨⟨⟨printed, noQuote⟩, noEscape⟩, rest⟩ := plain
    exact .raw printed noQuote noEscape (ih rest)

/-- Items that are written one after the other. -/
theorem items_intercalate {α : Type} {value : α → JsonValue} {text : α → Text} {list : List α}
    (each : ∀ a ∈ list, Written (value a) (text a)) (some : list ≠ []) :
    Items (list.map value) ([','].intercalate (list.map text)) := by
  induction list with
  | nil => exact absurd rfl some
  | cons a list ih =>
    have first := each a List.mem_cons_self
    cases list with
    | nil => simpa [List.intercalate] using Items.one first
    | cons b list =>
      have rest := ih (fun other member => each other (List.mem_cons_of_mem _ member)) (by simp)
      have split : [','].intercalate ((a :: b :: list).map text) =
          text a ++ ',' :: ([] ++ [','].intercalate ((b :: list).map text)) := by
        simp [List.intercalate]
      rw [split]
      exact .cons first (fun c member => by cases member) rest

/-- The value of a list of texts. -/
def listValue (values : List Text) : JsonValue := .arr (values.map .str)

theorem storedList_written {values : List Text} (some : values ≠ []) : Written (listValue values) (storedList values) := by
  rw [storedList, bracketed, if_neg (by simpa using some)]
  exact .arr (items_intercalate (fun value _ => jsonQuote_written value) some)

/-- The value of a condition. -/
def conditionValue (condition : ClaimCondition) : JsonValue :=
  .obj [("path".toList, .str condition.path), ("op".toList, .str condition.op.text), ("values".toList, listValue condition.values)]

/-- Its text. -/
def conditionText (condition : ClaimCondition) : Text :=
  "\x7b\"path\":".toList ++ jsonQuote condition.path ++ ",\"op\":".toList ++ jsonQuote condition.op.text ++
    ",\"values\":".toList ++ storedList condition.values ++ "\x7d".toList

/-- The value of an attribute. -/
def attributeValue (each : AttributeDef) : JsonValue :=
  .obj [("name".toList, .str each.name),
    if each.isConstant then ("constant".toList, .str each.constant) else ("paths".toList, listValue each.paths)]

/-- Its text. -/
def attributeText (each : AttributeDef) : Text :=
  "\x7b\"name\":".toList ++ jsonQuote each.name ++
    (if each.isConstant then ",\"constant\":".toList ++ jsonQuote each.constant
      else ",\"paths\":".toList ++ storedList each.paths) ++ "\x7d".toList

private theorem keys_plain :
    ∀ key ∈ ["path".toList, "op".toList, "values".toList, "name".toList, "constant".toList, "paths".toList], plainText key = true := by
  simp [plainText]

theorem no_blank : Blank [] := fun c member => by cases member

/-- A condition's object. -/
theorem condition_shape {path op values : JsonValue} {pathText opText valuesText : Text} (isPath : Written path pathText)
    (isOp : Written op opText) (isValues : Written values valuesText) :
    Written (.obj [("path".toList, path), ("op".toList, op), ("values".toList, values)])
      ("\x7b\"path\":".toList ++ pathText ++ ",\"op\":".toList ++ opText ++ ",\"values\":".toList ++ valuesText ++ "\x7d".toList) := by
  have last := Members.one (spelled_plain (keys_plain "values".toList (by simp))) no_blank isValues
  have middle := Members.cons (spelled_plain (keys_plain "op".toList (by simp))) no_blank isOp no_blank last
  have first := Members.cons (spelled_plain (keys_plain "path".toList (by simp))) no_blank isPath no_blank middle
  have written := Written.obj first
  have texts : "\x7b\"path\":".toList = '\x7b' :: '"' :: ("path".toList ++ ['"', ':']) ∧
      ",\"op\":".toList = ',' :: '"' :: ("op".toList ++ ['"', ':']) ∧
      ",\"values\":".toList = ',' :: '"' :: ("values".toList ++ ['"', ':']) ∧ "\x7d".toList = ['\x7d'] := by decide
  obtain ⟨one, two, three, four⟩ := texts
  simp only [one, two, three, four, List.append_assoc, List.cons_append, List.nil_append] at written ⊢
  exact written

private theorem condition_written {condition : ClaimCondition} (some : condition.values ≠ []) :
    Written (conditionValue condition) (conditionText condition) :=
  condition_shape (jsonQuote_written _) (jsonQuote_written _) (storedList_written some)

/-- The object of a constant. -/
theorem constant_shape {name constant : JsonValue} {nameText constantText : Text} (isName : Written name nameText)
    (isConstant : Written constant constantText) :
    Written (.obj [("name".toList, name), ("constant".toList, constant)])
      ("\x7b\"name\":".toList ++ nameText ++ (",\"constant\":".toList ++ constantText) ++ "\x7d".toList) := by
  have last := Members.one (spelled_plain (keys_plain "constant".toList (by simp))) no_blank isConstant
  have written := Written.obj (Members.cons (spelled_plain (keys_plain "name".toList (by simp))) no_blank isName no_blank last)
  have texts : "\x7b\"name\":".toList = '\x7b' :: '"' :: ("name".toList ++ ['"', ':']) ∧
      ",\"constant\":".toList = ',' :: '"' :: ("constant".toList ++ ['"', ':']) ∧ "\x7d".toList = ['\x7d'] := by decide
  obtain ⟨one, two, three⟩ := texts
  simp only [one, two, three, List.append_assoc, List.cons_append, List.nil_append] at written ⊢
  exact written

/-- The object of an attribute that is read from paths. -/
theorem paths_shape {name paths : JsonValue} {nameText pathsText : Text} (isName : Written name nameText)
    (isPaths : Written paths pathsText) :
    Written (.obj [("name".toList, name), ("paths".toList, paths)])
      ("\x7b\"name\":".toList ++ nameText ++ (",\"paths\":".toList ++ pathsText) ++ "\x7d".toList) := by
  have last := Members.one (spelled_plain (keys_plain "paths".toList (by simp))) no_blank isPaths
  have written := Written.obj (Members.cons (spelled_plain (keys_plain "name".toList (by simp))) no_blank isName no_blank last)
  have texts : "\x7b\"name\":".toList = '\x7b' :: '"' :: ("name".toList ++ ['"', ':']) ∧
      ",\"paths\":".toList = ',' :: '"' :: ("paths".toList ++ ['"', ':']) ∧ "\x7d".toList = ['\x7d'] := by decide
  obtain ⟨one, two, three⟩ := texts
  simp only [one, two, three, List.append_assoc, List.cons_append, List.nil_append] at written ⊢
  exact written

private theorem attribute_written {each : AttributeDef} (some : each.isConstant = true ∨ each.paths ≠ []) :
    Written (attributeValue each) (attributeText each) := by
  unfold attributeText attributeValue
  cases constant : each.isConstant with
  | true => exact constant_shape (jsonQuote_written _) (jsonQuote_written _)
  | false =>
    have paths : each.paths ≠ [] := some.resolve_left (by rw [constant]; exact Bool.false_ne_true)
    exact paths_shape (jsonQuote_written _) (storedList_written paths)

/-! ## What is read back -/

/-- A condition that a specification or a stored text may give. -/
structure ProperCondition (condition : ClaimCondition) : Prop where
  path : condition.path ≠ []
  values : condition.values ≠ []
  single : condition.op ≠ .oneOf → condition.values.length = 1

/-- An attribute that a specification or a stored text may give. -/
structure ProperAttribute (each : AttributeDef) : Prop where
  name : each.name ≠ []
  constant : each.isConstant = true → each.paths = []
  paths : each.isConstant = false → each.paths ≠ [] ∧ each.constant = []

theorem conditionOf_proper {item : JsonValue} {condition : ClaimCondition} (read : conditionOf item = .ok condition) :
    ProperCondition condition := by
  cases item with
  | obj members =>
    rw [conditionOf, Outcome.bind_eq_ok] at read
    obtain ⟨path, -, read⟩ := read
    obtain ⟨name, -, read⟩ := Outcome.bind_eq_ok.mp read
    obtain ⟨op, -, read⟩ := Outcome.bind_eq_ok.mp read
    obtain ⟨values, -, read⟩ := Outcome.bind_eq_ok.mp read
    split_ifs at read with missing several
    · cases read
    · cases read
    · cases read
      obtain ⟨path, values⟩ := not_or.mp missing
      exact ⟨path, values, fun other => not_not.mp fun more => several ⟨other, more⟩⟩
  | _ => cases read

theorem map_eq_ok {α β : Type} {x : Except Text α} {f : α → β} {b : β} :
    x.map f = .ok b ↔ ∃ a, x = .ok a ∧ f a = b := by
  cases x with
  | error e => exact iff_of_false (fun absurd => by cases absurd) fun some => by obtain ⟨a, same, -⟩ := some; cases same
  | ok a => simp [Except.map]

theorem attributeOf_proper {item : JsonValue} {each : AttributeDef} (read : attributeOf item = .ok each) :
    ProperAttribute each := by
  cases item with
  | obj members =>
    rw [attributeOf, Outcome.bind_eq_ok] at read
    obtain ⟨name, -, read⟩ := read
    obtain ⟨made, isMade, read⟩ := Outcome.bind_eq_ok.mp read
    split_ifs at read with missing
    · cases read
    · cases read
      obtain ⟨named, paths⟩ := not_or.mp missing
      rw [readAttribute] at isMade
      cases constant : constantOf members with
      | some value =>
        rw [constant] at isMade
        obtain ⟨text, -, rfl⟩ := map_eq_ok.mp isMade
        exact ⟨named, fun _ => rfl, fun not => by cases not⟩
      | none =>
        rw [constant] at isMade
        obtain ⟨list, -, rfl⟩ := map_eq_ok.mp isMade
        exact ⟨named, fun is => absurd is Bool.false_ne_true, fun _ => ⟨fun none => paths ⟨rfl, none⟩, rfl⟩⟩
  | _ => cases read

theorem mappedAttribute_proper {entry : Text × JsonValue} {each : AttributeDef}
    (read : mappedAttribute entry = .ok each) : ProperAttribute each ∧ [] ∉ each.paths := by
  rw [mappedAttribute] at read
  split_ifs at read with missing
  · cases read
  · cases read
    obtain ⟨name, key⟩ := not_or.mp missing
    exact ⟨⟨name, fun is => absurd is Bool.false_ne_true, fun _ => ⟨by simp, rfl⟩⟩, by simpa using Ne.symm key⟩

/-- Every answer of a sequence is the answer on some item. -/
theorem mem_of_mapM {α β : Type} {step : α → Except Text β} {items : List α} {answers : List β}
    (ran : items.mapM step = .ok answers) {answer : β} (member : answer ∈ answers) : ∃ item ∈ items, step item = .ok answer := by
  induction items generalizing answers with
  | nil =>
    cases ran
    cases member
  | cons item items ih =>
    rw [List.mapM_cons, Outcome.bind_eq_ok] at ran
    obtain ⟨first, here, ran⟩ := ran
    obtain ⟨rest, later, ran⟩ := Outcome.bind_eq_ok.mp ran
    cases ran
    rcases List.mem_cons.mp member with rfl | member
    · exact ⟨item, List.mem_cons_self, here⟩
    · obtain ⟨other, among, same⟩ := ih later member
      exact ⟨other, List.mem_cons_of_mem _ among, same⟩

/-- A sequence answers with what its items stand for exactly when each step does. -/
theorem mapM_answers {α β : Type} {step : α → Except Text β} {item : β → α} {answers : List β} :
    (answers.map item).mapM step = .ok answers ↔ ∀ answer ∈ answers, step (item answer) = .ok answer := by
  induction answers with
  | nil => exact iff_of_true rfl fun answer member => by cases member
  | cons answer answers ih =>
    rw [List.map_cons, List.mapM_cons, Outcome.bind_eq_ok, List.forall_mem_cons, ← ih]
    constructor
    · rintro ⟨first, here, ran⟩
      obtain ⟨rest, later, ran⟩ := Outcome.bind_eq_ok.mp ran
      cases ran
      exact ⟨here, later⟩
    · rintro ⟨here, later⟩
      exact ⟨answer, here, Outcome.bind_eq_ok.mpr ⟨answers, later, rfl⟩⟩

private theorem stringItems_texts (key : Text) (values : List Text) :
    stringItems key (values.map .str) = .ok (values.filter (· ≠ [])) := by
  induction values with
  | nil => rfl
  | cons value values ih =>
    rw [List.map_cons, stringItems, ih]
    by_cases empty : value = []
    · simp [empty, Except.map]
    · simp [empty, Except.map]

theorem stringArray_list (values : List Text) (key : Text) :
    stringArray (listValue values) key = .ok (values.filter (· ≠ [])) := stringItems_texts key values

/-- The texts of a list without empty ones are read as they are. -/
private theorem filter_eq_iff {values : List Text} : values.filter (· ≠ []) = values ↔ [] ∉ values := by
  rw [List.filter_eq_self]
  constructor
  · intro all member
    exact absurd (all [] member) (by simp)
  · intro none value member
    refine decide_eq_true fun empty => none (empty ▸ member)

theorem conditionOf_value {condition : ClaimCondition} (proper : ProperCondition condition) :
    conditionOf (conditionValue condition) = .ok condition ↔ [] ∉ condition.values := by
  have op : parseOp condition.op.text = .ok condition.op := by
    cases condition.op <;> rfl
  have members : objGet [("path".toList, .str condition.path), ("op".toList, .str condition.op.text),
        ("values".toList, listValue condition.values)] "path" = some (.str condition.path) ∧
      objGet [("path".toList, .str condition.path), ("op".toList, .str condition.op.text),
        ("values".toList, listValue condition.values)] "op" = some (.str condition.op.text) ∧
      objGet [("path".toList, .str condition.path), ("op".toList, .str condition.op.text),
        ("values".toList, listValue condition.values)] "values" = some (listValue condition.values) := ⟨rfl, rfl, rfl⟩
  rw [conditionValue, conditionOf, members.1, members.2.1, members.2.2, stringOf, stringOf, stringArray_list, ← filter_eq_iff]
  constructor
  · intro read
    obtain ⟨path, isPath, read⟩ := Outcome.bind_eq_ok.mp read
    obtain ⟨name, isName, read⟩ := Outcome.bind_eq_ok.mp read
    obtain ⟨op', isOp, read⟩ := Outcome.bind_eq_ok.mp read
    obtain ⟨values, isValues, read⟩ := Outcome.bind_eq_ok.mp read
    cases isValues
    split_ifs at read
    · cases read
    · cases read
    · exact congrArg ClaimCondition.values (Except.ok.inj read)
  · intro same
    rw [same]
    refine Outcome.bind_eq_ok.mpr ⟨_, rfl, Outcome.bind_eq_ok.mpr ⟨_, rfl, Outcome.bind_eq_ok.mpr ⟨_, op,
      Outcome.bind_eq_ok.mpr ⟨_, rfl, ?_⟩⟩⟩⟩
    rw [if_neg (not_or.mpr ⟨proper.path, proper.values⟩), if_neg fun both => both.2 (proper.single both.1)]

theorem attributeOf_value {each : AttributeDef} (proper : ProperAttribute each) :
    attributeOf (attributeValue each) = .ok each ↔ each.isConstant = true ∨ [] ∉ each.paths := by
  obtain ⟨name, paths, isConstant, constant⟩ := each
  have named : name ≠ [] := proper.name
  cases isConstant with
  | true =>
    obtain rfl : paths = [] := proper.constant rfl
    refine iff_of_true ?_ (.inl rfl)
    refine Outcome.bind_eq_ok.mpr ⟨name, rfl, Outcome.bind_eq_ok.mpr ⟨_, rfl, ?_⟩⟩
    rw [if_neg]
    rintro (none | ⟨not, -⟩)
    · exact named none
    · cases not
  | false =>
    obtain ⟨given, rfl⟩ := proper.paths rfl
    rw [or_iff_right Bool.false_ne_true, ← filter_eq_iff]
    have made : constantOf [("name".toList, JsonValue.str name), ("paths".toList, listValue paths)] = none ∧
        objGet [("name".toList, .str name), ("paths".toList, listValue paths)] "paths" = some (listValue paths) := ⟨rfl, rfl⟩
    have answers : attributeOf (attributeValue { name, paths, isConstant := false, constant := [] }) =
        if paths.filter (· ≠ []) = [] then
          bad "an attribute has a name and either the claim paths it is read from or a CONSTANT".toList
        else .ok { name, paths := paths.filter (· ≠ []) } := by
      have made_ok : readAttribute name [("name".toList, .str name), ("paths".toList, listValue paths)] =
          .ok { name, paths := paths.filter (· ≠ []) } := by
        rw [readAttribute, made.1, made.2, stringArray_list]
        rfl
      have stepped : attributeOf (attributeValue { name, paths, isConstant := false, constant := [] }) =
          (readAttribute name [("name".toList, .str name), ("paths".toList, listValue paths)] >>= fun read =>
            if read.name = [] ∨ (read.isConstant = false ∧ read.paths = []) then
              bad "an attribute has a name and either the claim paths it is read from or a CONSTANT".toList
            else .ok read) := rfl
      rw [stepped, made_ok]
      refine if_congr ?_ rfl rfl
      exact ⟨fun missing => (missing.resolve_left named).2, fun none => .inr ⟨rfl, none⟩⟩
    rw [answers]
    constructor
    · intro read
      split_ifs at read
      · cases read
      · exact (AttributeDef.mk.inj (Except.ok.inj read)).2.1
    · intro same
      rw [same, if_neg given]

/-! ## Reloading -/

/-- A text that starts and ends with brackets. -/
private theorem trim_bracketed (inside : Text) : Text.trim ('[' :: (inside ++ [']'])) = '[' :: (inside ++ [']']) := by
  refine Text.trim_eq_self (fun c first => ?_) (fun c last => ?_)
  · obtain rfl : '[' = c := by simpa using first
    rfl
  · obtain rfl : ']' = c := by simpa [List.getLast?_cons, List.getLast?_append] using last
    rfl

private theorem bracketed_cases (items : List Text) (some : items ≠ []) :
    bracketed items = '[' :: ([','].intercalate items ++ [']']) := by
  rw [bracketed, if_neg some]
  rfl

private theorem cell_litOrNull (value : Text) : cell (litOrNull value) = value := by
  rw [litOrNull]
  split_ifs with empty
  · rw [empty]
    rfl
  · rfl

variable {yyjsonRead : Text → Option JsonValue}

theorem parseStoredList_stored (reads : Reads yyjsonRead) (values : List Text) :
    parseStoredList yyjsonRead (storedList values) = .ok (values.filter (· ≠ [])) := by
  by_cases none : values = []
  · subst none
    rfl
  · have written := storedList_written none
    have shape := bracketed_cases (values.map jsonQuote) (by simpa using none)
    rw [← storedList] at shape
    rw [shape] at written ⊢
    rw [parseStoredList, trim_bracketed]
    simp only [reads _ _ written]
    exact stringArray_list values _

theorem parseStoredConditions_stored (reads : Reads yyjsonRead) {conditions : List ClaimCondition}
    (proper : ∀ condition ∈ conditions, ProperCondition condition) :
    parseStoredConditions yyjsonRead (storedConditions conditions) = .ok conditions ↔
      ∀ condition ∈ conditions, [] ∉ condition.values := by
  by_cases none : conditions = []
  · subst none
    exact iff_of_true rfl fun condition member => by cases member
  · have written := Written.arr (items_intercalate (fun condition member => condition_written (proper condition member).values) none)
    have shape : storedConditions conditions = '[' :: ([','].intercalate (conditions.map conditionText) ++ [']']) :=
      bracketed_cases (conditions.map conditionText) (by simpa using none)
    rw [shape, parseStoredConditions, trim_bracketed, if_neg (List.cons_ne_nil _ _), reads _ _ written]
    refine mapM_answers.trans ?_
    exact forall₂_congr fun condition member => conditionOf_value (proper condition member)

theorem parseStoredAttributes_stored (reads : Reads yyjsonRead) {attributes : List AttributeDef}
    (proper : ∀ each ∈ attributes, ProperAttribute each) :
    parseStoredAttributes yyjsonRead (storedAttributes attributes) = .ok attributes ↔
      ∀ each ∈ attributes, each.isConstant = true ∨ [] ∉ each.paths := by
  by_cases none : attributes = []
  · subst none
    exact iff_of_true rfl fun each member => by cases member
  · have listed (each : AttributeDef) (member : each ∈ attributes) : each.isConstant = true ∨ each.paths ≠ [] := by
      cases constant : each.isConstant with
      | true => exact .inl rfl
      | false => exact .inr ((proper each member).paths constant).1
    have written := Written.arr (items_intercalate (fun each member => attribute_written (listed each member)) none)
    have shape : storedAttributes attributes = '[' :: ([','].intercalate (attributes.map attributeText) ++ [']']) :=
      bracketed_cases (attributes.map attributeText) (by simpa using none)
    rw [shape, parseStoredAttributes, trim_bracketed, if_neg (List.cons_ne_nil _ _), reads _ _ written]
    refine mapM_answers.trans ?_
    exact forall₂_congr fun each member => attributeOf_value (proper each member)

/-- No list of the client has an empty text. -/
structure Whole (client : IdentityClient) : Prop where
  audiences : [] ∉ client.audiences
  azp : [] ∉ client.azp
  conditions : ∀ condition ∈ client.conditions, [] ∉ condition.values
  rolesFrom : [] ∉ client.rolesFrom
  rolesConstant : [] ∉ client.rolesConstant
  attributes : ∀ each ∈ client.attributes, each.isConstant = true ∨ [] ∉ each.paths
  subject : [] ∉ client.subject
  flows : [] ∉ client.flows

/-- The client's conditions and attributes are such as may be given. -/
structure Proper (client : IdentityClient) : Prop where
  conditions : ∀ condition ∈ client.conditions, ProperCondition condition
  attributes : ∀ each ∈ client.attributes, ProperAttribute each

/-- A client is read as it was exactly when no list of it has an empty text. -/
theorem reload_iff (reads : Reads yyjsonRead) {client : IdentityClient} (proper : Proper client) :
    reload yyjsonRead client = .ok client ↔ Whole client := by
  have conditions_iff := parseStoredConditions_stored reads proper.conditions
  have attributes_iff := parseStoredAttributes_stored reads proper.attributes
  have unmapped : ∀ asRole : Bool,
      decide ((if asRole = true then "as_role".toList else "ignore".toList) = "as_role".toList) = asRole := by
    decide
  rw [reload, clientFromRow]
  simp only [clientValues, cell_litOrNull, parseStoredList_stored reads]
  constructor
  · intro read
    obtain ⟨audiences, isAudiences, read⟩ := Outcome.bind_eq_ok.mp read
    obtain ⟨azp, isAzp, read⟩ := Outcome.bind_eq_ok.mp read
    obtain ⟨conditions, isConditions, read⟩ := Outcome.bind_eq_ok.mp read
    obtain ⟨rolesFrom, isRolesFrom, read⟩ := Outcome.bind_eq_ok.mp read
    obtain ⟨rolesConstant, isRolesConstant, read⟩ := Outcome.bind_eq_ok.mp read
    obtain ⟨attributes, isAttributes, read⟩ := Outcome.bind_eq_ok.mp read
    obtain ⟨subject, isSubject, read⟩ := Outcome.bind_eq_ok.mp read
    obtain ⟨flows, isFlows, read⟩ := Outcome.bind_eq_ok.mp read
    have same := Except.ok.inj read
    have field {α : Type} (get : IdentityClient → α) := congrArg get same
    have list {values filtered : List Text} (isFiltered : (.ok (values.filter (· ≠ [])) : Except Text (List Text)) = .ok filtered)
        (equal : filtered = values) : [] ∉ values := by
      cases isFiltered
      exact filter_eq_iff.mp equal
    exact {
      audiences := list isAudiences (field IdentityClient.audiences)
      azp := list isAzp (field IdentityClient.azp)
      conditions := conditions_iff.mp (isConditions.trans (congrArg Except.ok (field IdentityClient.conditions)))
      rolesFrom := list isRolesFrom (field IdentityClient.rolesFrom)
      rolesConstant := list isRolesConstant (field IdentityClient.rolesConstant)
      attributes := attributes_iff.mp (isAttributes.trans (congrArg Except.ok (field IdentityClient.attributes)))
      subject := list isSubject (field IdentityClient.subject)
      flows := list isFlows (field IdentityClient.flows) }
  · intro whole
    rw [filter_eq_iff.mpr whole.audiences, filter_eq_iff.mpr whole.azp, conditions_iff.mpr whole.conditions,
      filter_eq_iff.mpr whole.rolesFrom, filter_eq_iff.mpr whole.rolesConstant, attributes_iff.mpr whole.attributes,
      filter_eq_iff.mpr whole.subject, filter_eq_iff.mpr whole.flows]
    exact congrArg (fun asRole => Except.ok { client with unmappedAsRole := asRole }) (unmapped client.unmappedAsRole)

theorem conditionsOf_proper {value : Option JsonValue} {conditions : List ClaimCondition}
    (read : conditionsOf value = .ok conditions) : ∀ condition ∈ conditions, ProperCondition condition := by
  intro condition member
  unfold conditionsOf at read
  split at read
  · cases read
    cases member
  · cases read
    cases member
  · obtain ⟨item, -, same⟩ := mem_of_mapM read member
    exact conditionOf_proper same
  · cases read

theorem attributesOf_proper {value : Option JsonValue} {attributes : List AttributeDef}
    (read : attributesOf value = .ok attributes) : ∀ each ∈ attributes, ProperAttribute each := by
  intro each member
  unfold attributesOf at read
  split at read
  · cases read
    cases member
  · cases read
    cases member
  · obtain ⟨item, -, same⟩ := mem_of_mapM read member
    exact (mappedAttribute_proper same).1
  · obtain ⟨item, -, same⟩ := mem_of_mapM read member
    exact attributeOf_proper same
  · cases read

private theorem parseStoredConditions_proper {text : Text} {conditions : List ClaimCondition}
    (read : parseStoredConditions yyjsonRead text = .ok conditions) : ∀ condition ∈ conditions, ProperCondition condition := by
  unfold parseStoredConditions at read
  dsimp only at read
  split_ifs at read
  · cases read
    exact fun condition member => by cases member
  · split at read
    · exact conditionsOf_proper read
    · cases read

private theorem parseStoredAttributes_proper {text : Text} {attributes : List AttributeDef}
    (read : parseStoredAttributes yyjsonRead text = .ok attributes) : ∀ each ∈ attributes, ProperAttribute each := by
  unfold parseStoredAttributes at read
  dsimp only at read
  split_ifs at read
  · cases read
    exact fun each member => by cases member
  · split at read
    · exact attributesOf_proper read
    · cases read

/-- A client that was read is such as may be given. -/
theorem proper_of_reload {client other : IdentityClient} (read : reload yyjsonRead other = .ok client) : Proper client := by
  rw [reload, clientFromRow] at read
  obtain ⟨audiences, -, read⟩ := Outcome.bind_eq_ok.mp read
  obtain ⟨azp, -, read⟩ := Outcome.bind_eq_ok.mp read
  obtain ⟨conditions, isConditions, read⟩ := Outcome.bind_eq_ok.mp read
  obtain ⟨rolesFrom, -, read⟩ := Outcome.bind_eq_ok.mp read
  obtain ⟨rolesConstant, -, read⟩ := Outcome.bind_eq_ok.mp read
  obtain ⟨attributes, isAttributes, read⟩ := Outcome.bind_eq_ok.mp read
  obtain ⟨subject, -, read⟩ := Outcome.bind_eq_ok.mp read
  obtain ⟨flows, -, read⟩ := Outcome.bind_eq_ok.mp read
  cases Except.ok.inj read
  exact ⟨parseStoredConditions_proper isConditions, parseStoredAttributes_proper isAttributes⟩


end DuckAcl.ClientStorage
