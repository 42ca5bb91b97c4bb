import DuckAcl.Model.SessionState

/-! # A session's state in its cookie

Base64url and the escapes of a string are read back as they were written, and so is every member of the
object, whatever members there are. The form that stands in for a state past the bound is not measured
again: a long principal or many pins take it past the bound too.
-/

namespace DuckAcl

namespace SessionState

-- A statement about every byte of a text is decided over the text and not over the 256 bytes there are.
attribute [local instance (high)] List.decidableBAll

/-! ## Base64 -/

theorem b64Value_b64At (n shift : ℕ) : b64Value (b64At n shift) = some (n / 2 ^ shift % 64) := by
  have each : ∀ k < 64, b64Value (b64Url.getD k 0) = some k := by decide +kernel
  exact each _ (Nat.mod_lt _ (by decide))

/-- The loop on a character that was written. -/
theorem decodeFrom_b64At (buffer bits n shift : ℕ) (rest : Bytes) :
    decodeFrom buffer bits (b64At n shift :: rest) =
      if 8 ≤ bits + 6 then
        (decodeFrom ((buffer * 64 + n / 2 ^ shift % 64) % 2 ^ 32) (bits + 6 - 8) rest).map
          (UInt8.ofNat ((buffer * 64 + n / 2 ^ shift % 64) % 2 ^ 32 / 2 ^ (bits + 6 - 8) % 256) :: ·)
      else decodeFrom ((buffer * 64 + n / 2 ^ shift % 64) % 2 ^ 32) (bits + 6) rest := by
  rw [decodeFrom, b64Value_b64At]
  rfl

private theorem ofNat_eq {n : ℕ} {b : UInt8} (same : n = b.toNat) : UInt8.ofNat n = b := by
  rw [same, UInt8.ofNat_toNat]

theorem decodeFrom_encode (bytes : Bytes) (buffer : ℕ) : decodeFrom buffer 0 (base64UrlEncode bytes) = some bytes := by
  induction bytes using base64UrlEncode.induct generalizing buffer with
  | case1 a b c rest ih =>
    have ha := a.toNat_lt
    have hb := b.toNat_lt
    have hc := c.toNat_lt
    simp only [base64UrlEncode, decodeFrom_b64At, Nat.reduceAdd, Nat.reduceLeDiff, ↓reduceIte, Nat.reduceSub, Nat.reducePow,
      ih, Option.map_some, Option.some.injEq, List.cons.injEq, and_true]
    exact ⟨ofNat_eq (by omega), ofNat_eq (by omega), ofNat_eq (by omega)⟩
  | case2 a =>
    have ha := a.toNat_lt
    simp only [base64UrlEncode, decodeFrom_b64At, Nat.reduceAdd, Nat.reduceLeDiff, ↓reduceIte, Nat.reduceSub, Nat.reducePow]
    rw [decodeFrom, if_pos (by omega), Option.map_some, ofNat_eq (b := a) (by omega)]
  | case3 a b =>
    have ha := a.toNat_lt
    have hb := b.toNat_lt
    simp only [base64UrlEncode, decodeFrom_b64At, Nat.reduceAdd, Nat.reduceLeDiff, ↓reduceIte, Nat.reduceSub, Nat.reducePow]
    rw [decodeFrom, if_pos (by omega), Option.map_some, Option.map_some, ofNat_eq (b := a) (by omega),
      ofNat_eq (b := b) (by omega)]
  | case4 => simp [base64UrlEncode, decodeFrom, Nat.mod_one]

theorem length_base64UrlEncode (bytes : Bytes) : (base64UrlEncode bytes).length = (4 * bytes.length + 2) / 3 := by
  induction bytes using base64UrlEncode.induct with
  | case1 a b c rest ih =>
    simp only [base64UrlEncode, List.length_cons, ih]
    omega
  | case2 a => simp [base64UrlEncode]
  | case3 a b => simp [base64UrlEncode]
  | case4 => rfl

theorem base64UrlDecode_encode (bytes : Bytes) : base64UrlDecode (base64UrlEncode bytes) = some bytes := by
  have length := length_base64UrlEncode bytes
  rw [base64UrlDecode, if_neg (by omega), decodeFrom_encode]

/-! ## Strings -/

theorem spelled_escaped (c : UInt8) {content spelled : Bytes} (rest : Json.Spelled content spelled) :
    Json.Spelled (c :: content) (escaped c ++ spelled) := by
  unfold escaped
  split_ifs with quoted escape newline carriage tab control
  · subst quoted
    exact .escape rfl rest
  · subst escape
    exact .escape rfl rest
  · subst newline
    exact .escape rfl rest
  · subst carriage
    exact .escape rfl rest
  · subst tab
    exact .escape rfl rest
  · have digits : ∀ n < 16, Json.hexValue (hexByte n) = some n := by decide
    have small : c.toNat < 32 := control
    have whole : UInt8.ofNat (16 * (c.toNat / 16) + c.toNat % 16) = c := ofNat_eq (by omega)
    have spells := Json.Spelled.unicode (digits (c.toNat / 16) (by omega)) (digits (c.toNat % 16) (by omega)) (by omega) rest
    rw [whole] at spells
    exact spells
  · exact .raw (UInt8.not_lt.mp control) quoted escape rest

theorem quoted_quote {value : Bytes} (valid : Json.Utf8 value) : Json.Quoted value (quote value) := by
  refine ⟨valid, value.flatMap escaped, ?_, rfl⟩
  clear valid
  induction value with
  | nil => exact .nil
  | cons c value ih => exact spelled_escaped c ih

/-! ## The object that is written -/

/-- What a session may hold: texts in UTF-8 without a NUL, listed settings each once, and known pins. -/
structure Carried (state : SessionState) : Prop where
  principal : state.principal ≠ []
  portable : ∀ setting ∈ state.settings, setting.1 ∈ portableSettings
  once : (state.settings.map Prod.fst).Nodup
  known : ∀ pin ∈ state.pinned, isKnownPin pin = true
  texts : ∀ value ∈ [state.principal, state.useCatalog, state.useSchema] ++ state.settings.map Prod.snd,
    Json.Utf8 value ∧ (0 : UInt8) ∉ value

/-- The members of the object. -/
def members (state : SessionState) : List (Bytes × Json.Flat) :=
  [(ascii "v", .digit 1), (ascii "p", .str state.principal)] ++
    (if state.useCatalog ≠ [] ∨ state.useSchema ≠ [] then
      [(ascii "use", .obj [(ascii "catalog", state.useCatalog), (ascii "schema", state.useSchema)])]
      else []) ++
    (if state.settings ≠ [] then [(ascii "set", .obj state.settings)] else []) ++
    if state.pinned ≠ [] then [(ascii "pinned", .arr state.pinned)] else []

section Written

variable {state : SessionState}

/-- The names of the object's members and of their members are ASCII without a NUL. -/
theorem names_ascii : ∀ name ∈ [ascii "v", ascii "p", ascii "use", ascii "set", ascii "pinned", ascii "catalog", ascii "schema"],
    (0 : UInt8) ∉ name ∧ ∀ b ∈ name, b < 128 := by
  decide

/-- Each member's name is new, whichever members came before. -/
theorem names_apart : ascii "p" ∉ [ascii "v"] ∧ ascii "use" ∉ [ascii "v", ascii "p"] ∧
    ascii "set" ∉ [ascii "v", ascii "p", ascii "use"] ∧ ascii "pinned" ∉ [ascii "v", ascii "p", ascii "use", ascii "set"] := by
  decide

theorem portable_listed : ∀ name ∈ portableSettings,
    ((0 : UInt8) ∉ name ∧ portableSetting name = some name) ∧ ∀ b ∈ name, b < 128 := by
  decide

theorem utf8_listed : ∀ name ∈ portableSettings, Json.Utf8 name :=
  fun name listed => Json.utf8_of_ascii (portable_listed name listed).2

theorem pins_ascii : ∀ pin ∈ [ascii "transaction", ascii "temp", ascii "view_as", ascii "context"],
    (∀ b ∈ pin, b < 128) ∧ (0 : UInt8) ∉ pin := by
  decide

theorem utf8_pin {pin : Bytes} (known : isKnownPin pin = true) : Json.Utf8 pin ∧ (0 : UInt8) ∉ pin := by
  simp only [isKnownPin, Bool.or_eq_true, decide_eq_true_eq, or_assoc] at known
  have facts := pins_ascii pin (by simpa using known)
  exact ⟨Json.utf8_of_ascii facts.1, facts.2⟩

theorem pair_member {α : Type} {written : α → Bytes → Prop} {name : String} {value : α} {text : Bytes}
    (small : ∀ b ∈ ascii name, b < 128) (writes : written value text) :
    Json.Pair written (ascii name, value) (member name text) :=
  ⟨_, _, quoted_quote (Json.utf8_of_ascii small), writes, rfl⟩

/-- A member that is written only when there is something to write. -/
private theorem forall_optional {α β : Type} {relation : α → β → Prop} {given : Prop} [Decidable given] {a : α} {b : β}
    (holds : given → relation a b) :
    List.Forall₂ relation (if given then [a] else []) (if given then [b] else []) := by
  split_ifs with here
  · exact .cons (holds here) .nil
  · exact .nil

theorem document_json (carried : Carried state) : Json.Document state.members state.json := by
  have valid : ∀ value ∈ [state.principal, state.useCatalog, state.useSchema] ++ state.settings.map Prod.snd,
      Json.Utf8 value := fun value listed => (carried.texts value listed).1
  refine ⟨by simp [members], _, ?_, rfl⟩
  refine List.rel_append (List.rel_append (List.rel_append ?_ ?_) ?_) ?_
  · refine .cons (pair_member (names_ascii _ (by simp)).2 (.digit (by decide))) (.cons ?_ .nil)
    exact pair_member (names_ascii _ (by simp)).2 (.str (quoted_quote (valid _ (by simp))))
  · refine forall_optional fun _ => pair_member (names_ascii _ (by simp)).2 (.obj (by simp) ?_)
    refine .cons (pair_member (names_ascii _ (by simp)).2 (quoted_quote (valid _ (by simp)))) (.cons ?_ .nil)
    exact pair_member (names_ascii _ (by simp)).2 (quoted_quote (valid _ (by simp)))
  · refine forall_optional fun some => pair_member (names_ascii _ (by simp)).2 (.obj some ?_)
    rw [List.forall₂_map_right_iff, List.forall₂_same]
    intro setting among
    exact ⟨_, _, quoted_quote (utf8_listed _ (carried.portable setting among)),
      quoted_quote (valid _ (List.mem_append_right _ (List.mem_map_of_mem among))), rfl⟩
  · refine forall_optional fun some => pair_member (names_ascii _ (by simp)).2 (.arr some ?_)
    rw [List.forall₂_map_right_iff, List.forall₂_same]
    exact fun pin among => quoted_quote (utf8_pin (carried.known pin among)).1

/-! ## The object that is read -/

theorem text_str {value : Bytes} (clean : (0 : UInt8) ∉ value) : text (.str value) = some value := by
  rw [text, if_neg clean]

theorem readUse_parts (read : SessionState) {catalog schema : Bytes} (cleanCatalog : (0 : UInt8) ∉ catalog)
    (cleanSchema : (0 : UInt8) ∉ schema) :
    [(ascii "catalog", Json.str catalog), (ascii "schema", Json.str schema)].foldlM readUse read =
      some { read with useCatalog := catalog, useSchema := schema } := by
  have first : readUse read (ascii "catalog", .str catalog) = some { read with useCatalog := catalog } := by
    rw [readUse, if_neg (names_ascii _ (by simp)).1, text_str cleanCatalog]
    rfl
  have second : readUse { read with useCatalog := catalog } (ascii "schema", .str schema) =
      some { read with useCatalog := catalog, useSchema := schema } := by
    rw [readUse, if_neg (names_ascii _ (by simp)).1, text_str cleanSchema]
    rfl
  simp [first, second]

theorem readSetting_each {settings : List (Bytes × Bytes)} (read : SessionState)
    (portable : ∀ setting ∈ settings, setting.1 ∈ portableSettings)
    (once : ((read.settings ++ settings).map Prod.fst).Nodup)
    (clean : ∀ setting ∈ settings, (0 : UInt8) ∉ setting.2) :
    (settings.map fun setting => (setting.1, Json.str setting.2)).foldlM readSetting read =
      some { read with settings := read.settings ++ settings } := by
  induction settings generalizing read with
  | nil => simp
  | cons setting settings ih =>
    obtain ⟨⟨cleanName, known⟩, -⟩ := portable_listed setting.1 (portable setting List.mem_cons_self)
    have fresh : read.settings.any (·.1 = setting.1) = false := by
      rw [List.any_eq_false]
      intro other among same
      rw [List.map_append, List.nodup_append] at once
      exact once.2.2 other.1 (List.mem_map_of_mem among) setting.1 (by simp) (by simpa using same)
    have here : readSetting read (setting.1, .str setting.2) = some { read with settings := read.settings ++ [setting] } := by
      rw [readSetting, if_neg cleanName, text_str (clean setting List.mem_cons_self), Option.bind_some, known,
        Option.bind_some, fresh]
      rfl
    rw [List.map_cons, List.foldlM_cons, here]
    have rest := ih { read with settings := read.settings ++ [setting] }
      (fun other among => portable other (List.mem_cons_of_mem _ among)) (by simpa using once)
      (fun other among => clean other (List.mem_cons_of_mem _ among))
    simpa using rest

theorem readPin_each {pins : List Bytes} (read : SessionState) (known : ∀ pin ∈ pins, isKnownPin pin = true) :
    (pins.map Json.str).foldlM readPin read = some { read with pinned := read.pinned ++ pins } := by
  induction pins generalizing read with
  | nil => simp
  | cons pin pins ih =>
    have named := known pin List.mem_cons_self
    have here : readPin read (.str pin) = some { read with pinned := read.pinned ++ [pin] } := by
      rw [readPin, text_str (utf8_pin named).2, Option.map_some, if_pos named]
    rw [List.map_cons, List.foldlM_cons, here]
    have rest := ih { read with pinned := read.pinned ++ [pin] }
      (fun other among => known other (List.mem_cons_of_mem _ among))
    simpa using rest

theorem readMember_version : readMember {} (ascii "v", .int 1) = some { keys := [ascii "v"], versioned := true } := by
  rfl

theorem readMember_principal {principal : Bytes} (clean : (0 : UInt8) ∉ principal) (some : principal ≠ []) :
    readMember { keys := [ascii "v"], versioned := true } (ascii "p", .str principal) =
      .some { keys := [ascii "v", ascii "p"], read := { principal }, versioned := true, owned := true } := by
  have fresh : ¬ ((0 : UInt8) ∈ ascii "p" ∨ ascii "p" ∈ [ascii "v"]) :=
    not_or.mpr ⟨(names_ascii _ (by simp)).1, names_apart.1⟩
  have other : ascii "p" ≠ ascii "v" := List.ne_of_not_mem_cons names_apart.1
  simp only [readMember, if_neg fresh, if_neg other, ↓reduceIte, text_str clean, Option.bind_some, if_neg some]
  rfl

theorem readMember_use {reading : Reading} {catalog schema : Bytes} (fresh : ascii "use" ∉ reading.keys)
    (cleanCatalog : (0 : UInt8) ∉ catalog) (cleanSchema : (0 : UInt8) ∉ schema) :
    readMember reading (ascii "use", (Json.Flat.obj [(ascii "catalog", catalog), (ascii "schema", schema)]).json) =
      some { reading with
        keys := reading.keys ++ [ascii "use"]
        read := { reading.read with useCatalog := catalog, useSchema := schema } } := by
  have new : ¬ ((0 : UInt8) ∈ ascii "use" ∨ ascii "use" ∈ reading.keys) := not_or.mpr ⟨(names_ascii _ (by simp)).1, fresh⟩
  have others : ascii "use" ≠ ascii "v" ∧ ascii "use" ≠ ascii "p" := by simpa using names_apart.2.1
  have parts := readUse_parts reading.read cleanCatalog cleanSchema
  simp only [readMember, if_neg new, if_neg others.1, if_neg others.2, ↓reduceIte, Json.Flat.json, List.map_cons,
    List.map_nil, parts, Option.map_some]

theorem readMember_set {reading : Reading} {settings : List (Bytes × Bytes)} (fresh : ascii "set" ∉ reading.keys)
    (none : reading.read.settings = []) (portable : ∀ setting ∈ settings, setting.1 ∈ portableSettings)
    (once : (settings.map Prod.fst).Nodup) (clean : ∀ setting ∈ settings, (0 : UInt8) ∉ setting.2) :
    readMember reading (ascii "set", (Json.Flat.obj settings).json) =
      some { reading with keys := reading.keys ++ [ascii "set"], read := { reading.read with settings := settings } } := by
  have new : ¬ ((0 : UInt8) ∈ ascii "set" ∨ ascii "set" ∈ reading.keys) := not_or.mpr ⟨(names_ascii _ (by simp)).1, fresh⟩
  have others : ascii "set" ≠ ascii "v" ∧ ascii "set" ≠ ascii "p" ∧ ascii "set" ≠ ascii "use" := by
    simpa using names_apart.2.2.1
  have each := readSetting_each reading.read portable (by simpa [none] using once) clean
  simp only [readMember, if_neg new, if_neg others.1, if_neg others.2.1, if_neg others.2.2, ↓reduceIte, Json.Flat.json, each,
    Option.map_some, none, List.nil_append]

theorem readMember_pinned {reading : Reading} {pins : List Bytes} (fresh : ascii "pinned" ∉ reading.keys)
    (none : reading.read.pinned = []) (known : ∀ pin ∈ pins, isKnownPin pin = true) :
    readMember reading (ascii "pinned", (Json.Flat.arr pins).json) =
      some { reading with keys := reading.keys ++ [ascii "pinned"], read := { reading.read with pinned := pins } } := by
  have new : ¬ ((0 : UInt8) ∈ ascii "pinned" ∨ ascii "pinned" ∈ reading.keys) := not_or.mpr ⟨(names_ascii _ (by simp)).1, fresh⟩
  have others : ascii "pinned" ≠ ascii "v" ∧ ascii "pinned" ≠ ascii "p" ∧ ascii "pinned" ≠ ascii "use" ∧
    ascii "pinned" ≠ ascii "set" := by simpa using names_apart.2.2.2
  have each := readPin_each reading.read known
  simp only [readMember, if_neg new, if_neg others.1, if_neg others.2.1, if_neg others.2.2.1, if_neg others.2.2.2,
    ↓reduceIte, Json.Flat.json, each, Option.map_some, none, List.nil_append]

/-- A member that may be absent: read, or nothing to read. -/
private theorem foldlM_optional (given : Prop) [Decidable given] (entry : Bytes × Json.Flat) (reading : Reading)
    (next : SessionState) (absent : ¬ given → reading.read = next)
    (made : given → readMember reading (entry.1, entry.2.json) =
      some { reading with keys := reading.keys ++ [entry.1], read := next }) :
    ∃ after : Reading, ((if given then [entry] else []).map fun entry => (entry.1, entry.2.json)).foldlM readMember reading =
        some after ∧ after.read = next ∧ after.versioned = reading.versioned ∧ after.owned = reading.owned ∧
      ∀ key ∈ after.keys, key ∈ reading.keys ∨ key = entry.1 := by
  split_ifs with here
  · refine ⟨{ reading with keys := reading.keys ++ [entry.1], read := next }, ?_, rfl, rfl, rfl, ?_⟩
    · simp [made here]
    · intro key member
      simpa using member
  · exact ⟨reading, rfl, absent here, rfl, rfl, fun key member => .inl member⟩

/-- Every member that was written is read, whichever there are. -/
theorem readMember_members (carried : Carried state) :
    ∃ reading, (state.members.map fun entry => (entry.1, entry.2.json)).foldlM readMember {} = some reading ∧
      reading.read = state ∧ reading.versioned = true ∧ reading.owned = true := by
  have clean : ∀ value ∈ [state.principal, state.useCatalog, state.useSchema] ++ state.settings.map Prod.snd,
      (0 : UInt8) ∉ value := fun value listed => (carried.texts value listed).2
  let start : Reading :=
    { keys := [ascii "v", ascii "p"], read := { principal := state.principal }, versioned := true, owned := true }
  have begun : ([(ascii "v", Json.Flat.digit 1), (ascii "p", .str state.principal)].map fun entry =>
      (entry.1, entry.2.json)).foldlM readMember {} = some start := by
    have second := readMember_principal (clean _ (by simp)) carried.principal
    simp only [List.map_cons, List.map_nil, List.foldlM_cons, List.foldlM_nil, Json.Flat.json]
    exact (congrArg (Option.bind · _) readMember_version).trans (congrArg (Option.bind · _) second)
  obtain ⟨afterUse, useRead, useIs, useVersioned, useOwned, useKeys⟩ := foldlM_optional
    (state.useCatalog ≠ [] ∨ state.useSchema ≠ [])
    (ascii "use", .obj [(ascii "catalog", state.useCatalog), (ascii "schema", state.useSchema)]) start
    { principal := state.principal, useCatalog := state.useCatalog, useSchema := state.useSchema }
    (fun none => by
      rw [not_or, not_not, not_not] at none
      simp [start, none])
    (fun _ => readMember_use names_apart.2.1 (clean _ (by simp)) (clean _ (by simp)))
  have useNames : ∀ key ∈ afterUse.keys, key ∈ [ascii "v", ascii "p", ascii "use"] := by
    intro key member
    rcases useKeys key member with old | rfl
    · exact List.mem_append_left [ascii "use"] old
    · simp
  obtain ⟨afterSet, setRead, setIs, setVersioned, setOwned, setKeys⟩ := foldlM_optional
    (state.settings ≠ []) (ascii "set", .obj state.settings) afterUse
    { principal := state.principal, useCatalog := state.useCatalog, useSchema := state.useSchema,
      settings := state.settings }
    (fun none => by rw [useIs, not_not.mp none])
    (fun _ => by
      have read := readMember_set (fun member => names_apart.2.2.1 (useNames _ member)) (by rw [useIs]) carried.portable carried.once
        (fun setting among => clean _ (List.mem_append_right _ (List.mem_map_of_mem among)))
      rw [useIs] at read
      exact read)
  have setNames : ∀ key ∈ afterSet.keys, key ∈ [ascii "v", ascii "p", ascii "use", ascii "set"] := by
    intro key member
    rcases setKeys key member with old | rfl
    · exact List.mem_append_left [ascii "set"] (useNames key old)
    · simp
  obtain ⟨afterPins, pinsRead, pinsAre, pinsVersioned, pinsOwned, -⟩ := foldlM_optional
    (state.pinned ≠ []) (ascii "pinned", .arr state.pinned) afterSet state
    (fun none => by
      rw [setIs]
      cases state
      simp only [not_not] at none
      rw [none])
    (fun _ => by
      have read := readMember_pinned (fun member => names_apart.2.2.2 (setNames _ member)) (by rw [setIs]) carried.known
      rw [setIs] at read
      exact read)
  refine ⟨afterPins, ?_, pinsAre, ?_, ?_⟩
  · rw [members, List.map_append, List.map_append, List.map_append, List.foldlM_append, List.foldlM_append,
      List.foldlM_append, begun]
    simp only [Option.bind_eq_bind, Option.bind_some, useRead, setRead, pinsRead]
  · rw [pinsVersioned, setVersioned, useVersioned]
  · rw [pinsOwned, setOwned, useOwned]

/-- A state that was written whole is read whole. -/
theorem decode_json {yyjsonRead : Bytes → Option Json} (reads : Json.Reads yyjsonRead) (carried : Carried state)
    (short : (base64UrlEncode state.json).length ≤ maxInput) :
    decodeSessionState yyjsonRead (base64UrlEncode state.json) = .ok state := by
  obtain ⟨reading, read, rfl, versioned, owned⟩ := readMember_members carried
  have length := length_base64UrlEncode reading.read.json
  have positive : 0 < reading.read.json.length := by
    rw [json, between, List.length_cons]
    exact Nat.succ_pos _
  have some : base64UrlEncode reading.read.json ≠ [] := by
    intro empty
    rw [empty, List.length_nil] at length
    omega
  rw [decodeSessionState, if_neg some, if_neg (Nat.not_lt.mpr short), base64UrlDecode_encode, Option.bind_some,
    reads _ _ (document_json carried)]
  simp only [read, versioned, owned, Bool.and_self, ↓reduceIte]

theorem Carried.bounded (carried : Carried state) : Carried state.bounded where
  principal := carried.principal
  portable := by simp [SessionState.bounded]
  once := by simp [SessionState.bounded]
  known := by
    intro pin member
    rcases List.mem_append.mp member with old | new
    · exact carried.known pin old
    · obtain rfl := List.mem_singleton.mp new
      rfl
  texts := by
    have none : Json.Utf8 [] ∧ (0 : UInt8) ∉ ([] : Bytes) := ⟨⟨[], rfl⟩, by simp⟩
    intro value listed
    simp only [SessionState.bounded, List.map_nil, List.append_nil, List.mem_cons, List.not_mem_nil, or_false] at listed
    rcases listed with rfl | rfl | rfl
    · exact carried.texts _ (by simp)
    · exact none
    · exact none

end Written

/-! ## The size of what is written -/

/-- The size of a character as `Quote` writes it. -/
def escapedLength (c : UInt8) : ℕ :=
  if c = 34 ∨ c = 92 ∨ c = 10 ∨ c = 13 ∨ c = 9 then 2 else if c < 32 then 6 else 1

def quotedLength (value : Bytes) : ℕ := (value.map escapedLength).sum + 2

/-- The size of the object: each text quoted, with the names and the punctuation around it. -/
def jsonLength (state : SessionState) : ℕ :=
  12 + quotedLength state.principal +
    (if state.useCatalog ≠ [] ∨ state.useSchema ≠ [] then 29 + quotedLength state.useCatalog + quotedLength state.useSchema
      else 0) +
    (if state.settings ≠ [] then
      8 + (state.settings.map fun setting => quotedLength setting.1 + quotedLength setting.2 + 2).sum else 0) +
    if state.pinned ≠ [] then 11 + (state.pinned.map fun pin => quotedLength pin + 1).sum else 0

theorem length_quote (value : Bytes) : (quote value).length = quotedLength value := by
  have each : ∀ c, (escaped c).length = escapedLength c := by
    intro c
    unfold escaped escapedLength
    split_ifs <;> simp_all
  simp only [quote, quotedLength, List.length_cons, List.length_append, List.length_flatMap, each, List.length_nil]

theorem length_separated (items : List Bytes) (some : items ≠ []) :
    ([44].intercalate items).length + 1 = (items.map fun item => item.length + 1).sum := by
  induction items with
  | nil => exact absurd rfl some
  | cons item items ih =>
    cases items with
    | nil => simp [List.intercalate]
    | cons next items =>
      have rest := ih (by simp)
      simp only [List.intercalate, List.intersperse_cons_cons, List.flatten_cons, List.length_append, List.length_cons,
        List.length_nil, List.map_cons, List.sum_cons] at rest ⊢
      omega

theorem length_between (start close : UInt8) (items : List Bytes) (some : items ≠ []) :
    (between start close items).length = (items.map fun item => item.length + 1).sum + 1 := by
  have := length_separated items some
  simp only [between, List.length_cons, List.length_append, List.length_nil]
  omega

theorem length_json (state : SessionState) : state.json.length = jsonLength state := by
  have names : (quote (ascii "v")).length = 3 ∧ (quote (ascii "p")).length = 3 ∧ (quote (ascii "use")).length = 5 ∧
      (quote (ascii "catalog")).length = 9 ∧ (quote (ascii "schema")).length = 8 ∧ (quote (ascii "set")).length = 5 ∧
      (quote (ascii "pinned")).length = 8 := by decide
  obtain ⟨v, p, use, catalog, schema, set, pinned⟩ := names
  rw [json, length_between _ _ _ (by simp)]
  simp only [List.map_append, List.sum_append, List.map_cons, List.map_nil, List.sum_cons, List.sum_nil]
  have useLength : ((if state.useCatalog ≠ [] ∨ state.useSchema ≠ [] then
      [member "use" (between 123 125 [member "catalog" (quote state.useCatalog), member "schema" (quote state.useSchema)])]
      else []).map fun item => item.length + 1).sum =
      if state.useCatalog ≠ [] ∨ state.useSchema ≠ [] then 29 + quotedLength state.useCatalog + quotedLength state.useSchema
      else 0 := by
    split_ifs
    · rw [List.map_cons, List.map_nil, List.sum_cons, List.sum_nil, member, List.length_append, List.length_cons,
        length_between _ _ _ (by simp)]
      simp only [List.map_cons, List.map_nil, List.sum_cons, List.sum_nil, member, List.length_append, List.length_cons,
        use, catalog, schema, length_quote]
      omega
    · rfl
  have setLength : ((if state.settings ≠ [] then
      [member "set" (between 123 125 (state.settings.map fun setting => quote setting.1 ++ 58 :: quote setting.2))]
      else []).map fun item => item.length + 1).sum =
      if state.settings ≠ [] then
        8 + (state.settings.map fun setting => quotedLength setting.1 + quotedLength setting.2 + 2).sum else 0 := by
    split_ifs with some
    · rw [List.map_cons, List.map_nil, List.sum_cons, List.sum_nil, member, List.length_append, List.length_cons,
        length_between _ _ _ (by simpa using some), List.map_map]
      have each : ((fun item : Bytes => item.length + 1) ∘ fun setting : Bytes × Bytes => quote setting.1 ++ 58 :: quote setting.2) =
          fun setting => quotedLength setting.1 + quotedLength setting.2 + 2 := by
        funext setting
        simp only [Function.comp_apply, List.length_append, List.length_cons, length_quote]
        omega
      rw [each, set]
      omega
    · rfl
  have pinnedLength : ((if state.pinned ≠ [] then [member "pinned" (between 91 93 (state.pinned.map quote))]
      else []).map fun item => item.length + 1).sum =
      if state.pinned ≠ [] then 11 + (state.pinned.map fun pin => quotedLength pin + 1).sum else 0 := by
    split_ifs with some
    · rw [List.map_cons, List.map_nil, List.sum_cons, List.sum_nil, member, List.length_append, List.length_cons,
        length_between _ _ _ (by simpa using some), List.map_map]
      have each : ((fun item : Bytes => item.length + 1) ∘ quote) = fun pin => quotedLength pin + 1 := by
        funext pin
        simp only [Function.comp_apply, length_quote]
      rw [each, pinned]
      omega
    · rfl
  rw [useLength, setLength, pinnedLength, jsonLength]
  simp only [member, List.length_append, List.length_cons, List.length_nil, v, p, length_quote]
  omega

/-! ## The round trip -/

/-- What a state's cookie is to do: carry the state whole within the bound, else its principal and its pins with
the context dropped, and stay within the bound. -/
def Survives (yyjsonRead : Bytes → Option Json) (state : SessionState) : Prop :=
  ((base64UrlEncode state.json).length ≤ maxBytes →
    decodeSessionState yyjsonRead (encodeSessionState state) = .ok state) ∧
  (maxBytes < (base64UrlEncode state.json).length →
    decodeSessionState yyjsonRead (encodeSessionState state) =
      .ok { principal := state.principal, pinned := state.pinned ++ [ascii "context"] }) ∧
  (encodeSessionState state).length ≤ maxBytes

theorem base64_within (bytes : Bytes) : (base64UrlEncode bytes).length ≤ maxBytes ↔ bytes.length ≤ 768 := by
  rw [length_base64UrlEncode, maxBytes]
  omega

/-- A cookie does what it is to do exactly when the object, or the one with the principal, the pins and
`context`, has at most 768 bytes. -/
theorem session_state_survives {yyjsonRead : Bytes → Option Json} (reads : Json.Reads yyjsonRead) {state : SessionState}
    (held : state.empty = false) (carried : Carried state) :
    Survives yyjsonRead state ↔ jsonLength state ≤ 768 ∨ jsonLength state.bounded ≤ 768 := by
  have input : maxBytes ≤ maxInput := by decide
  have encoded : encodeSessionState state =
      if maxBytes < (base64UrlEncode state.json).length then base64UrlEncode state.bounded.json
      else base64UrlEncode state.json := by
    rw [encodeSessionState, held]
    rfl
  rw [← length_json, ← length_json, ← base64_within, ← base64_within, Survives, encoded]
  by_cases long : maxBytes < (base64UrlEncode state.json).length
  · rw [if_pos long]
    constructor
    · exact fun survives => .inr survives.2.2
    · rintro (short | short)
      · exact absurd short (Nat.not_le.mpr long)
      · exact ⟨fun short => absurd short (Nat.not_le.mpr long),
          fun _ => decode_json reads carried.bounded (short.trans input), short⟩
  · rw [if_neg long]
    have short : (base64UrlEncode state.json).length ≤ maxBytes := Nat.le_of_not_lt long
    constructor
    · exact fun _ => .inl short
    · exact fun _ => ⟨fun _ => decode_json reads carried (short.trans input), fun beyond => absurd beyond long, short⟩

/-- A state with a time zone and an open transaction. -/
def berlin : SessionState :=
  { principal := ascii "0123456789abcdef", settings := [(ascii "TimeZone", ascii "Europe/Berlin")]
    pinned := [ascii "transaction"] }

theorem carried_ascii {state : SessionState} (principal : state.principal ≠ [])
    (portable : ∀ setting ∈ state.settings, setting.1 ∈ portableSettings)
    (once : (state.settings.map Prod.fst).Nodup) (known : ∀ pin ∈ state.pinned, isKnownPin pin = true)
    (texts : ∀ value ∈ [state.principal, state.useCatalog, state.useSchema] ++ state.settings.map Prod.snd,
      ∀ b ∈ value, 0 < b ∧ b < 128) : Carried state where
  principal := principal
  portable := portable
  once := once
  known := known
  texts := fun value listed =>
    ⟨Json.utf8_of_ascii fun b member => (texts value listed b member).2,
      fun zero => by simpa using (texts value listed 0 zero).1⟩

theorem session_state_survives_berlin :
    jsonLength berlin ≤ 768 ∧ Survives Json.readDocument berlin := by
  have carried : Carried berlin :=
    carried_ascii (by decide) (by decide) (by decide) (by decide) (by decide)
  have short : jsonLength berlin ≤ 768 := by decide
  exact ⟨short, (session_state_survives Json.readDocument_reads (by decide) carried).mpr (.inl short)⟩

/-- A session of a principal with a long name. -/
def longNamed : SessionState := { principal := List.replicate 800 97, pinned := [ascii "transaction"] }

/-- The cookie of a long principal is past the bound. -/
theorem session_state_unbounded :
    ¬ ∀ (yyjsonRead : Bytes → Option Json), Json.Reads yyjsonRead → ∀ state : SessionState, state.empty = false →
      Carried state → Survives yyjsonRead state := by
  intro every
  have carried : Carried longNamed :=
    carried_ascii (by decide +kernel) (by decide +kernel) (by decide +kernel) (by decide +kernel) (by decide +kernel)
  have survives := every Json.readDocument Json.readDocument_reads longNamed (by decide) carried
  have bound := survives.2.2
  have long : ¬ jsonLength longNamed ≤ 768 ∧ ¬ jsonLength longNamed.bounded ≤ 768 := by decide +kernel
  rw [← length_json, ← length_json, ← base64_within, ← base64_within] at long
  rw [encodeSessionState, if_neg (by decide), if_pos (Nat.lt_of_not_le long.1)] at bound
  exact long.2 bound

end SessionState

end DuckAcl
