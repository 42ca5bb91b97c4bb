import DuckAcl.Soundness.SessionState
import Mathlib.Data.List.Nodup

/-! # The cookies that are read

A cookie is the base64url text of one object, and everything in it is checked: each member is named once and
has its shape, each setting is a listed one named once. The parts of `use` are the exception: they may
repeat, and the later one is read.
-/

namespace DuckAcl

namespace SessionState

-- As for the cookies that are written: over the bytes of a text only.
attribute [local instance (high)] List.decidableBAll

/-! ## Base64 -/

private theorem b64Value_spec {c : UInt8} {v : ℕ} (value : b64Value c = some v) : v < 64 ∧ b64Url.getD v 0 = c := by
  have each : ∀ n < 256, ∀ v ∈ b64Value (UInt8.ofNat n), v < 64 ∧ b64Url.getD v 0 = UInt8.ofNat n := by decide +kernel
  have here := each c.toNat c.toNat_lt
  rw [UInt8.ofNat_toNat] at here
  exact here v value

/-- The bits of a character of a text, at their place in a number. -/
private theorem b64At_of_value {c : UInt8} {v n shift : ℕ} (value : b64Value c = some v) (bits : n / 2 ^ shift % 64 = v) :
    b64At n shift = c := by
  rw [b64At, bits]
  exact (b64Value_spec value).2

/-- The loop on a character that fills a byte. -/
private theorem decodeFrom_full {buffer bits : ℕ} {c : UInt8} {rest text : Bytes} (full : 8 ≤ bits + 6)
    (decoded : decodeFrom buffer bits (c :: rest) = some text) :
    ∃ v tail, b64Value c = some v ∧ decodeFrom ((buffer * 64 + v) % 2 ^ 32) (bits + 6 - 8) rest = some tail ∧
      text = UInt8.ofNat ((buffer * 64 + v) % 2 ^ 32 / 2 ^ (bits + 6 - 8) % 256) :: tail := by
  rw [decodeFrom, Option.bind_eq_some_iff] at decoded
  obtain ⟨v, value, decoded⟩ := decoded
  simp only [full, ↓reduceIte, Option.map_eq_some_iff] at decoded
  obtain ⟨tail, later, rfl⟩ := decoded
  exact ⟨v, tail, value, later, rfl⟩

/-- The loop on a character that fills none. -/
private theorem decodeFrom_partial {buffer bits : ℕ} {c : UInt8} {rest text : Bytes} (few : ¬ 8 ≤ bits + 6)
    (decoded : decodeFrom buffer bits (c :: rest) = some text) :
    ∃ v, b64Value c = some v ∧ decodeFrom ((buffer * 64 + v) % 2 ^ 32) (bits + 6) rest = some text := by
  rw [decodeFrom, Option.bind_eq_some_iff] at decoded
  obtain ⟨v, value, decoded⟩ := decoded
  simp only [few, ↓reduceIte] at decoded
  exact ⟨v, value, decoded⟩

private theorem decodeFrom_end {buffer bits : ℕ} {text : Bytes} (decoded : decodeFrom buffer bits [] = some text) :
    buffer % 2 ^ bits = 0 ∧ text = [] := by
  rw [decodeFrom] at decoded
  split_ifs at decoded with clear
  exact ⟨clear, (Option.some.inj decoded).symm⟩

/-- What the loop reads from whole groups of four characters, and two or three more, is written so. -/
private theorem encode_decodeFrom (length : ℕ) : ∀ (value : Bytes), value.length = length → value.length % 4 ≠ 1 →
    ∀ (buffer : ℕ) (text : Bytes), decodeFrom buffer 0 value = some text → base64UrlEncode text = value := by
  induction length using Nat.strong_induction_on with
  | _ length ih =>
    rintro value sized whole buffer text decoded
    rcases value with _ | ⟨a, value⟩
    · rw [(decodeFrom_end decoded).2]
      rfl
    obtain ⟨va, valueA, afterA⟩ := decodeFrom_partial (by decide) decoded
    rcases value with _ | ⟨b, value⟩
    · exact absurd rfl whole
    obtain ⟨vb, tailB, valueB, afterB, rfl⟩ := decodeFrom_full (by decide) afterA
    have smallA := (b64Value_spec valueA).1
    have smallB := (b64Value_spec valueB).1
    simp only [Nat.zero_add, Nat.reduceAdd, Nat.reduceSub, Nat.reducePow] at afterB ⊢
    rcases value with _ | ⟨c, value⟩
    · obtain ⟨clear, rfl⟩ := decodeFrom_end afterB
      rw [base64UrlEncode, b64At_of_value valueA, b64At_of_value valueB]
      · simp only [UInt8.toNat_ofNat', Nat.reducePow]
        omega
      · simp only [UInt8.toNat_ofNat', Nat.reducePow]
        omega
    obtain ⟨vc, tailC, valueC, afterC, rfl⟩ := decodeFrom_full (by decide) afterB
    have smallC := (b64Value_spec valueC).1
    simp only [Nat.reduceAdd, Nat.reduceSub, Nat.reducePow] at afterC ⊢
    rcases value with _ | ⟨d, value⟩
    · obtain ⟨clear, rfl⟩ := decodeFrom_end afterC
      rw [base64UrlEncode, b64At_of_value valueA, b64At_of_value valueB, b64At_of_value valueC]
      · simp only [UInt8.toNat_ofNat', Nat.reducePow]
        omega
      · simp only [UInt8.toNat_ofNat', Nat.reducePow]
        omega
      · simp only [UInt8.toNat_ofNat', Nat.reducePow]
        omega
    obtain ⟨vd, tailD, valueD, afterD, rfl⟩ := decodeFrom_full (by decide) afterC
    have smallD := (b64Value_spec valueD).1
    simp only [Nat.reduceAdd, Nat.reduceSub, Nat.reducePow] at afterD ⊢
    simp only [List.length_cons] at sized whole
    have rest := ih value.length (by omega) value rfl (by omega) _ tailD afterD
    rw [base64UrlEncode, rest, b64At_of_value valueA, b64At_of_value valueB, b64At_of_value valueC, b64At_of_value valueD]
    · simp only [UInt8.toNat_ofNat', Nat.reducePow]
      omega
    · simp only [UInt8.toNat_ofNat', Nat.reducePow]
      omega
    · simp only [UInt8.toNat_ofNat', Nat.reducePow]
      omega
    · simp only [UInt8.toNat_ofNat', Nat.reducePow]
      omega

/-- A value is read as the text it is the base64url of, and as nothing when it is of none. -/
theorem base64UrlDecode_eq_some_iff {value text : Bytes} :
    base64UrlDecode value = some text ↔ value = base64UrlEncode text := by
  constructor
  · intro decoded
    rw [base64UrlDecode] at decoded
    split_ifs at decoded with whole
    exact (encode_decodeFrom _ value rfl whole 0 text decoded).symm
  · rintro rfl
    exact base64UrlDecode_encode text

theorem base64UrlEncode_injective : Function.Injective base64UrlEncode := by
  intro text other same
  have decoded := base64UrlDecode_encode text
  rw [same, base64UrlDecode_encode] at decoded
  exact (Option.some.inj decoded).symm

/-! ## Reading the members -/

/-- A string without a NUL. -/
private theorem text_eq_some_iff {value : Json} {string : Bytes} :
    text value = some string ↔ value = .str string ∧ (0 : UInt8) ∉ string := by
  constructor
  · intro read
    cases value with
    | str content =>
      rw [text] at read
      split_ifs at read with clean
      cases read
      exact ⟨rfl, clean⟩
    | _ => cases read
  · rintro ⟨rfl, clean⟩
    exact text_str clean

/-- A fold that may stop keeps what each of its steps keeps. -/
private theorem foldlM_keeps {α β : Type} (kept : β → Prop) {step : β → α → Option β} {items : List α} {start next : β}
    (each : ∀ item ∈ items, ∀ before after, kept before → step before item = some after → kept after)
    (begun : kept start) (read : items.foldlM step start = some next) : kept next := by
  induction items generalizing start with
  | nil =>
    cases read
    exact begun
  | cons item items ih =>
    rw [List.foldlM_cons, Option.bind_eq_bind, Option.bind_eq_some_iff] at read
    obtain ⟨middle, first, rest⟩ := read
    exact ih (fun other among => each other (List.mem_cons_of_mem _ among))
      (each item List.mem_cons_self start middle begun first) rest

/-- A fold whose steps go on for their items alone. -/
private theorem foldlM_succeeds_iff {α β : Type} {step : β → α → Option β} {good : α → Prop}
    (each : ∀ before item, (∃ after, step before item = some after) ↔ good item) (items : List α) (start : β) :
    (∃ next, items.foldlM step start = some next) ↔ ∀ item ∈ items, good item := by
  induction items generalizing start with
  | nil => exact iff_of_true ⟨start, rfl⟩ fun item member => by cases member
  | cons item items ih =>
    simp only [List.foldlM_cons, Option.bind_eq_bind, Option.bind_eq_some_iff, List.forall_mem_cons]
    constructor
    · rintro ⟨next, middle, first, rest⟩
      exact ⟨(each start item).mp ⟨middle, first⟩, (ih middle).mp ⟨next, rest⟩⟩
    · rintro ⟨first, rest⟩
      obtain ⟨middle, first⟩ := (each start item).mpr first
      obtain ⟨next, rest⟩ := (ih middle).mpr rest
      exact ⟨next, middle, first, rest⟩

private theorem readUse_eq_some_iff {read next : SessionState} {part : Bytes × Json} :
    readUse read part = some next ↔ ∃ value, text part.2 = some value ∧
      (part.1 = ascii "catalog" ∧ next = { read with useCatalog := value } ∨
        part.1 = ascii "schema" ∧ next = { read with useSchema := value }) := by
  obtain ⟨name, value⟩ := part
  have apart : ascii "schema" ≠ ascii "catalog" := by decide
  by_cases catalog : name = ascii "catalog"
  · subst catalog
    simp only [readUse, (names_ascii (ascii "catalog") (by simp)).1, ↓reduceIte, Option.bind_eq_some_iff]
    refine exists_congr fun _ => and_congr_right fun _ => ?_
    simp [apart.symm, eq_comm]
  · by_cases schema : name = ascii "schema"
    · subst schema
      simp only [readUse, (names_ascii (ascii "schema") (by simp)).1, apart, ↓reduceIte, Option.bind_eq_some_iff]
      refine exists_congr fun _ => and_congr_right fun _ => ?_
      simp [eq_comm]
    · simp [readUse, catalog, schema]

private theorem readSetting_eq_some_iff {read next : SessionState} {setting : Bytes × Json} :
    readSetting read setting = some next ↔ (0 : UInt8) ∉ setting.1 ∧ ∃ value known, text setting.2 = some value ∧
      portableSetting setting.1 = some known ∧ known ∉ read.settings.map Prod.fst ∧
        next = { read with settings := read.settings ++ [(known, value)] } := by
  rw [readSetting]
  by_cases clean : (0 : UInt8) ∈ setting.1
  · simp [clean]
  · rw [if_neg clean]
    simp only [Option.bind_eq_some_iff, clean, not_false_eq_true, true_and]
    refine exists_congr fun value => ?_
    rw [← exists_and_left]
    refine exists_congr fun known => and_congr_right fun _ => and_congr_right fun _ => ?_
    have seen : read.settings.any (·.1 = known) = true ↔ known ∈ read.settings.map Prod.fst := by
      simp [List.any_eq_true, List.mem_map]
    by_cases repeated : known ∈ read.settings.map Prod.fst
    · rw [if_pos (seen.mpr repeated)]
      simp [repeated]
    · rw [if_neg (mt seen.mp repeated)]
      simp [repeated, eq_comm]

private theorem readPin_eq_some_iff {read next : SessionState} {pin : Json} :
    readPin read pin = some next ↔ ∃ name, text pin = some name ∧
      next = { read with pinned := read.pinned ++ [if isKnownPin name then name else ascii "context"] } := by
  rw [readPin, Option.map_eq_some_iff]
  exact exists_congr fun name => and_congr_right fun _ => eq_comm

/-- The settings are read when each is a listed one with a text, and no two are one setting. -/
private theorem settings_succeed {settings : List (Bytes × Json)} (read : SessionState)
    (once : (read.settings.map fun setting => some setting.1).Nodup) :
    (∃ next, settings.foldlM readSetting read = some next) ↔
      (∀ setting ∈ settings, (0 : UInt8) ∉ setting.1 ∧ (text setting.2).isSome = true ∧
        (portableSetting setting.1).isSome = true) ∧
      ((read.settings.map fun setting => some setting.1) ++ settings.map fun setting => portableSetting setting.1).Nodup := by
  induction settings generalizing read with
  | nil =>
    refine iff_of_true ⟨read, rfl⟩ ⟨fun setting member => ?_, by simpa using once⟩
    cases member
  | cons setting settings ih =>
    have listed (known : Bytes) : known ∈ read.settings.map Prod.fst ↔
        some known ∈ read.settings.map fun setting => some setting.1 := by
      simp [List.mem_map]
    simp only [List.foldlM_cons, Option.bind_eq_bind, Option.bind_eq_some_iff, readSetting_eq_some_iff,
      List.forall_mem_cons, List.map_cons]
    constructor
    · rintro ⟨next, middle, ⟨clean, value, known, held, portable, fresh, rfl⟩, rest⟩
      have later := (ih { read with settings := read.settings ++ [(known, value)] } (by
        rw [List.map_append, List.nodup_append]
        refine ⟨once, by simp, ?_⟩
        rintro _ among _ new rfl
        obtain rfl : _ = some known := by simpa using new
        exact fresh ((listed known).mpr among))).mp ⟨next, rest⟩
      refine ⟨⟨⟨clean, by rw [held]; rfl, by rw [portable]; rfl⟩, later.1⟩, ?_⟩
      rw [portable]
      simpa using later.2
    · rintro ⟨⟨⟨clean, held, portable⟩, each⟩, nodup⟩
      obtain ⟨value, held⟩ := Option.isSome_iff_exists.mp held
      obtain ⟨known, portable⟩ := Option.isSome_iff_exists.mp portable
      rw [portable] at nodup
      have fresh : known ∉ read.settings.map Prod.fst := by
        intro seen
        exact (List.nodup_append.mp nodup).2.2 _ ((listed known).mp seen) _ List.mem_cons_self rfl
      have together : ((({ read with settings := read.settings ++ [(known, value)] } : SessionState).settings.map
          fun setting => some setting.1) ++ settings.map fun setting => portableSetting setting.1).Nodup := by
        simpa using nodup
      obtain ⟨next, rest⟩ := (ih { read with settings := read.settings ++ [(known, value)] }
        (List.nodup_append.mp together).1).mpr ⟨each, together⟩
      exact ⟨next, _, ⟨clean, value, known, held, portable, fresh, rfl⟩, rest⟩

/-! ## The object -/

/-- What reading a member comes to. -/
inductive Taken (read : SessionState) : Bytes × Json → SessionState → Prop where
  | version {version : ℤ} (one : version % 4294967296 = 1) : Taken read (ascii "v", .int version) read
  | principal {name : Bytes} (given : name ≠ []) (clean : (0 : UInt8) ∉ name) :
      Taken read (ascii "p", .str name) { read with principal := name }
  | use {parts : List (Bytes × Json)} {next : SessionState} (each : parts.foldlM readUse read = some next) :
      Taken read (ascii "use", .obj parts) next
  | set {settings : List (Bytes × Json)} {next : SessionState} (each : settings.foldlM readSetting read = some next) :
      Taken read (ascii "set", .obj settings) next
  | pinned {pins : List Json} {next : SessionState} (each : pins.foldlM readPin read = some next) :
      Taken read (ascii "pinned", .arr pins) next

private theorem taken_named {read next : SessionState} {entry : Bytes × Json} (taken : Taken read entry next) :
    entry.1 ∈ [ascii "v", ascii "p", ascii "use", ascii "set", ascii "pinned"] := by
  cases taken <;> simp

/-- A member is read when its key is new and it has the shape its key asks for. -/
private theorem readMember_eq_some_iff {reading next : Reading} {entry : Bytes × Json} :
    readMember reading entry = some next ↔ entry.1 ∉ reading.keys ∧ ∃ read, Taken reading.read entry read ∧
      next = { keys := reading.keys ++ [entry.1], read, versioned := reading.versioned || decide (entry.1 = ascii "v"),
               owned := reading.owned || decide (entry.1 = ascii "p") } := by
  obtain ⟨name, value⟩ := entry
  have apart : ascii "p" ≠ ascii "v" ∧ ascii "use" ≠ ascii "v" ∧ ascii "use" ≠ ascii "p" ∧ ascii "set" ≠ ascii "v" ∧
      ascii "set" ≠ ascii "p" ∧ ascii "set" ≠ ascii "use" ∧ ascii "pinned" ≠ ascii "v" ∧ ascii "pinned" ≠ ascii "p" ∧
      ascii "pinned" ≠ ascii "use" ∧ ascii "pinned" ≠ ascii "set" := by decide
  obtain ⟨pv, uv, up, sv, sp, su, nv, np, nu, ns⟩ := apart
  constructor
  · intro read
    rw [readMember] at read
    split_ifs at read with stop version principal use set pinned
    · obtain ⟨-, fresh⟩ := not_or.mp stop
      subst version
      cases value with
      | int version =>
        dsimp only at read
        split_ifs at read with one
        cases read
        exact ⟨fresh, _, .version one, by simp [pv.symm]⟩
      | _ => cases read
    · obtain ⟨-, fresh⟩ := not_or.mp stop
      subst principal
      obtain ⟨name, held, rest⟩ := Option.bind_eq_some_iff.mp read
      obtain ⟨rfl, clean⟩ := text_eq_some_iff.mp held
      split_ifs at rest with given
      cases rest
      exact ⟨fresh, _, .principal given clean, by simp [pv]⟩
    · obtain ⟨-, fresh⟩ := not_or.mp stop
      subst use
      cases value with
      | obj parts =>
        obtain ⟨next, each, rfl⟩ := Option.map_eq_some_iff.mp read
        exact ⟨fresh, _, .use each, by simp [uv, up]⟩
      | _ => cases read
    · obtain ⟨-, fresh⟩ := not_or.mp stop
      subst set
      cases value with
      | obj settings =>
        obtain ⟨next, each, rfl⟩ := Option.map_eq_some_iff.mp read
        exact ⟨fresh, _, .set each, by simp [sv, sp]⟩
      | _ => cases read
    · obtain ⟨-, fresh⟩ := not_or.mp stop
      subst pinned
      cases value with
      | arr pins =>
        obtain ⟨next, each, rfl⟩ := Option.map_eq_some_iff.mp read
        exact ⟨fresh, _, .pinned each, by simp [nv, np]⟩
      | _ => cases read
  · rintro ⟨fresh, read, taken, rfl⟩
    have clean : (0 : UInt8) ∉ name := (names_ascii name (by have := taken_named taken; simp only [List.mem_cons] at this ⊢; tauto)).1
    have begun : ¬ ((0 : UInt8) ∈ name ∨ name ∈ reading.keys) := not_or.mpr ⟨clean, fresh⟩
    rw [readMember, if_neg begun]
    cases taken with
    | version one => simp [one, pv.symm]
    | principal given spotless => simp [pv, text_str spotless, given]
    | use each => simp [uv, up, each]
    | set each => simp [sv, sp, su, each]
    | pinned each => simp [nv, np, nu, ns, each]

/-- The shape of a member of a cookie's object. -/
inductive Admitted : Bytes × Json → Prop where
  | version {version : ℤ} (one : version % 4294967296 = 1) : Admitted (ascii "v", .int version)
  | principal {name : Bytes} (given : name ≠ []) (clean : (0 : UInt8) ∉ name) : Admitted (ascii "p", .str name)
  | use {parts : List (Bytes × Json)}
      (each : ∀ part ∈ parts, part.1 ∈ [ascii "catalog", ascii "schema"] ∧ (text part.2).isSome = true) :
      Admitted (ascii "use", .obj parts)
  | set {settings : List (Bytes × Json)}
      (each : ∀ setting ∈ settings, (0 : UInt8) ∉ setting.1 ∧ (text setting.2).isSome = true ∧
        (portableSetting setting.1).isSome = true)
      (once : (settings.map fun setting => portableSetting setting.1).Nodup) : Admitted (ascii "set", .obj settings)
  | pinned {pins : List Json} (each : ∀ pin ∈ pins, (text pin).isSome = true) : Admitted (ascii "pinned", .arr pins)

/-- The objects of which a state is read. -/
structure Admissible (members : List (Bytes × Json)) : Prop where
  once : (members.map Prod.fst).Nodup
  versioned : ascii "v" ∈ members.map Prod.fst
  owned : ascii "p" ∈ members.map Prod.fst
  each : ∀ entry ∈ members, Admitted entry

private theorem admitted_iff {read : SessionState} {entry : Bytes × Json}
    (unset : entry.1 = ascii "set" → read.settings = []) :
    (∃ next, Taken read entry next) ↔ Admitted entry := by
  have parts_iff (parts : List (Bytes × Json)) : (∃ next, parts.foldlM readUse read = some next) ↔
      ∀ part ∈ parts, part.1 ∈ [ascii "catalog", ascii "schema"] ∧ (text part.2).isSome = true := by
    refine foldlM_succeeds_iff (fun before part => ?_) parts read
    simp only [readUse_eq_some_iff, Option.isSome_iff_exists, List.mem_cons, List.not_mem_nil, or_false]
    constructor
    · rintro ⟨next, value, held, ⟨named, -⟩ | ⟨named, -⟩⟩
      · exact ⟨.inl named, value, held⟩
      · exact ⟨.inr named, value, held⟩
    · rintro ⟨named | named, value, held⟩
      · exact ⟨_, value, held, .inl ⟨named, rfl⟩⟩
      · exact ⟨_, value, held, .inr ⟨named, rfl⟩⟩
  have settings_iff (settings : List (Bytes × Json)) (none : read.settings = []) :
      (∃ next, settings.foldlM readSetting read = some next) ↔
        (∀ setting ∈ settings, (0 : UInt8) ∉ setting.1 ∧ (text setting.2).isSome = true ∧
          (portableSetting setting.1).isSome = true) ∧ (settings.map fun setting => portableSetting setting.1).Nodup := by
    simpa [none] using @settings_succeed settings read (by simp [none])
  have pins_iff (pins : List Json) : (∃ next, pins.foldlM readPin read = some next) ↔ ∀ pin ∈ pins, (text pin).isSome = true := by
    refine foldlM_succeeds_iff (fun before pin => ?_) pins read
    simp only [readPin_eq_some_iff, Option.isSome_iff_exists]
    constructor
    · rintro ⟨next, name, held, -⟩
      exact ⟨name, held⟩
    · rintro ⟨name, held⟩
      exact ⟨_, name, held, rfl⟩
  constructor
  · rintro ⟨next, taken⟩
    cases taken with
    | version one => exact .version one
    | principal given clean => exact .principal given clean
    | use each => exact .use ((parts_iff _).mp ⟨next, each⟩)
    | set each =>
      obtain ⟨shaped, once⟩ := (settings_iff _ (unset rfl)).mp ⟨next, each⟩
      exact .set shaped once
    | pinned each => exact .pinned ((pins_iff _).mp ⟨next, each⟩)
  · intro admitted
    cases admitted with
    | version one => exact ⟨_, .version one⟩
    | principal given clean => exact ⟨_, .principal given clean⟩
    | use each =>
      obtain ⟨next, each⟩ := (parts_iff _).mpr each
      exact ⟨next, .use each⟩
    | set each once =>
      obtain ⟨next, each⟩ := (settings_iff _ (unset rfl)).mpr ⟨each, once⟩
      exact ⟨next, .set each⟩
    | pinned each =>
      obtain ⟨next, each⟩ := (pins_iff _).mpr each
      exact ⟨next, .pinned each⟩

/-- Only `set` reads settings. -/
private theorem taken_settings {read next : SessionState} {entry : Bytes × Json} (taken : Taken read entry next)
    (other : entry.1 ≠ ascii "set") : next.settings = read.settings := by
  cases taken with
  | version one => rfl
  | principal given clean => rfl
  | use each =>
    refine foldlM_keeps (fun state => state.settings = read.settings) (fun part _ before after kept step => ?_) rfl each
    obtain ⟨value, -, ⟨-, rfl⟩ | ⟨-, rfl⟩⟩ := readUse_eq_some_iff.mp step
    · exact kept
    · exact kept
  | set each => exact absurd rfl other
  | pinned each =>
    refine foldlM_keeps (fun state => state.settings = read.settings) (fun pin _ before after kept step => ?_) rfl each
    obtain ⟨name, -, rfl⟩ := readPin_eq_some_iff.mp step
    exact kept

/-- The members are read when their keys are new and each has its shape. -/
private theorem members_succeed {members : List (Bytes × Json)} (reading : Reading) (once : reading.keys.Nodup)
    (unset : ascii "set" ∉ reading.keys → reading.read.settings = []) :
    (∃ next, members.foldlM readMember reading = some next) ↔
      (reading.keys ++ members.map Prod.fst).Nodup ∧ ∀ entry ∈ members, Admitted entry := by
  induction members generalizing reading with
  | nil =>
    refine iff_of_true ⟨reading, rfl⟩ ⟨by simpa using once, fun entry member => ?_⟩
    cases member
  | cons entry members ih =>
    have grown {read : SessionState} (fresh : entry.1 ∉ reading.keys) (taken : Taken reading.read entry read) :
        (reading.keys ++ [entry.1]).Nodup ∧ (ascii "set" ∉ reading.keys ++ [entry.1] → read.settings = []) := by
      refine ⟨?_, fun new => ?_⟩
      · rw [List.nodup_append]
        refine ⟨once, by simp, ?_⟩
        rintro key among _ new rfl
        exact fresh (List.mem_singleton.mp new ▸ among)
      · rw [List.mem_append, List.mem_singleton, not_or] at new
        rw [taken_settings taken (Ne.symm new.2), unset new.1]
    have admits (fresh : entry.1 ∉ reading.keys) : (∃ next, Taken reading.read entry next) ↔ Admitted entry :=
      admitted_iff fun set => unset (set ▸ fresh)
    have keys_eq : reading.keys ++ (entry :: members).map Prod.fst = (reading.keys ++ [entry.1]) ++ members.map Prod.fst := by
      simp
    simp only [List.foldlM_cons, Option.bind_eq_bind, Option.bind_eq_some_iff, readMember_eq_some_iff, List.forall_mem_cons]
    rw [keys_eq]
    constructor
    · rintro ⟨next, _, ⟨fresh, read, taken, rfl⟩, rest⟩
      obtain ⟨nodup, unset'⟩ := grown fresh taken
      obtain ⟨keys, each⟩ := (ih _ nodup unset').mp ⟨next, rest⟩
      exact ⟨keys, (admits fresh).mp ⟨read, taken⟩, each⟩
    · rintro ⟨keys, admitted, each⟩
      have fresh : entry.1 ∉ reading.keys := fun seen =>
        (List.nodup_append.mp (List.nodup_append.mp keys).1).2.2 entry.1 seen entry.1 (List.mem_singleton.mpr rfl) rfl
      obtain ⟨read, taken⟩ := (admits fresh).mpr admitted
      obtain ⟨nodup, unset'⟩ := grown fresh taken
      obtain ⟨next, rest⟩ := (ih { keys := reading.keys ++ [entry.1], read,
                                   versioned := reading.versioned || decide (entry.1 = ascii "v"),
                                   owned := reading.owned || decide (entry.1 = ascii "p") } nodup unset').mpr ⟨keys, each⟩
      exact ⟨next, _, ⟨fresh, read, taken, rfl⟩, rest⟩

/-- The flags tell whether `v` and `p` were among the members. -/
private theorem members_flags {members : List (Bytes × Json)} {reading next : Reading}
    (read : members.foldlM readMember reading = some next) :
    (next.versioned = true ↔ reading.versioned = true ∨ ascii "v" ∈ members.map Prod.fst) ∧
      (next.owned = true ↔ reading.owned = true ∨ ascii "p" ∈ members.map Prod.fst) := by
  induction members generalizing reading with
  | nil =>
    cases read
    simp
  | cons entry members ih =>
    rw [List.foldlM_cons, Option.bind_eq_bind, Option.bind_eq_some_iff] at read
    obtain ⟨middle, first, rest⟩ := read
    obtain ⟨-, _, -, rfl⟩ := readMember_eq_some_iff.mp first
    obtain ⟨versioned, owned⟩ := ih rest
    rw [versioned, owned]
    simp only [Bool.or_eq_true, decide_eq_true_eq, List.map_cons, List.mem_cons, or_assoc]
    exact ⟨or_congr_right (or_congr_left eq_comm), or_congr_right (or_congr_left eq_comm)⟩

/-- A state is read of the admissible objects. -/
theorem admissible_iff {members : List (Bytes × Json)} :
    (∃ reading, members.foldlM readMember {} = some reading ∧ reading.versioned = true ∧ reading.owned = true) ↔
      Admissible members := by
  have succeed := @members_succeed members {} List.nodup_nil fun _ => rfl
  constructor
  · rintro ⟨reading, read, versioned, owned⟩
    obtain ⟨once, each⟩ := succeed.mp ⟨reading, read⟩
    obtain ⟨versioned_iff, owned_iff⟩ := members_flags read
    exact ⟨once, (versioned_iff.mp versioned).resolve_left Bool.false_ne_true,
      (owned_iff.mp owned).resolve_left Bool.false_ne_true, each⟩
  · intro admissible
    obtain ⟨reading, read⟩ := succeed.mpr ⟨admissible.once, admissible.each⟩
    obtain ⟨versioned_iff, owned_iff⟩ := members_flags read
    exact ⟨reading, read, versioned_iff.mpr (.inr admissible.versioned), owned_iff.mpr (.inr admissible.owned)⟩

/-! ## What was read -/

/-- What reading keeps of a state: all of it that may be carried, but for the principal. -/
structure Sound (state : SessionState) : Prop where
  portable : ∀ setting ∈ state.settings, setting.1 ∈ portableSettings
  once : (state.settings.map Prod.fst).Nodup
  known : ∀ pin ∈ state.pinned, isKnownPin pin = true
  texts : ∀ value ∈ [state.principal, state.useCatalog, state.useSchema] ++ state.settings.map Prod.snd,
    Json.Utf8 value ∧ (0 : UInt8) ∉ value

private theorem Sound.carried {state : SessionState} (sound : Sound state) (principal : state.principal ≠ []) : Carried state :=
  ⟨principal, sound.portable, sound.once, sound.known, sound.texts⟩

private theorem portableSetting_mem {name known : Bytes} (portable : portableSetting name = some known) :
    known ∈ portableSettings := List.mem_of_find?_eq_some portable

private theorem sound_taken {read next : SessionState} {entry : Bytes × Json} (taken : Taken read entry next)
    (valid : ∀ value, Json.Part (.str value) entry.2 → Json.Utf8 value) (sound : Sound read) : Sound next := by
  cases taken with
  | version one => exact sound
  | principal given clean =>
    refine { sound with texts := fun value listed => ?_ }
    rcases List.mem_cons.mp listed with rfl | other
    · exact ⟨valid value .self, clean⟩
    · exact sound.texts value (List.mem_cons_of_mem _ other)
  | use each =>
    refine foldlM_keeps Sound (fun part among before after kept step => ?_) sound each
    obtain ⟨value, held, either⟩ := readUse_eq_some_iff.mp step
    obtain ⟨same, clean⟩ := text_eq_some_iff.mp held
    have utf8 : Json.Utf8 value := valid value (.value among (same ▸ .self))
    rcases either with ⟨-, rfl⟩ | ⟨-, rfl⟩
    · refine { kept with texts := fun other listed => ?_ }
      simp only [List.cons_append, List.nil_append, List.mem_cons] at listed
      rcases listed with rfl | rfl | rfl | listed
      · exact kept.texts _ (by simp)
      · exact ⟨utf8, clean⟩
      · exact kept.texts _ (by simp)
      · exact kept.texts _ (List.mem_append_right _ listed)
    · refine { kept with texts := fun other listed => ?_ }
      simp only [List.cons_append, List.nil_append, List.mem_cons] at listed
      rcases listed with rfl | rfl | rfl | listed
      · exact kept.texts _ (by simp)
      · exact kept.texts _ (by simp)
      · exact ⟨utf8, clean⟩
      · exact kept.texts _ (List.mem_append_right _ listed)
  | set each =>
    refine foldlM_keeps Sound (fun setting among before after kept step => ?_) sound each
    obtain ⟨-, value, known, held, portable, fresh, rfl⟩ := readSetting_eq_some_iff.mp step
    obtain ⟨same, clean⟩ := text_eq_some_iff.mp held
    refine ⟨fun other member => ?_, ?_, kept.known, fun other listed => ?_⟩
    · rcases List.mem_append.mp member with old | new
      · exact kept.portable other old
      · rw [List.mem_singleton.mp new]
        exact portableSetting_mem portable
    · rw [List.map_append, List.nodup_append]
      refine ⟨kept.once, by simp, ?_⟩
      rintro name seen _ new rfl
      obtain rfl : name = known := by simpa using new
      exact fresh seen
    · rw [List.map_append, ← List.append_assoc] at listed
      rcases List.mem_append.mp listed with old | new
      · exact kept.texts other old
      · rw [List.mem_singleton.mp new]
        exact ⟨valid value (.value among (same ▸ .self)), clean⟩
  | pinned each =>
    refine foldlM_keeps Sound (fun pin among before after kept step => ?_) sound each
    obtain ⟨name, -, rfl⟩ := readPin_eq_some_iff.mp step
    refine { kept with known := fun other member => ?_ }
    rcases List.mem_append.mp member with old | new
    · exact kept.known other old
    · rw [List.mem_singleton.mp new]
      split_ifs with known
      · exact known
      · rfl

/-- Reading a member gives a principal or leaves it. -/
private theorem taken_principal {read next : SessionState} {entry : Bytes × Json} (taken : Taken read entry next) :
    if entry.1 = ascii "p" then next.principal ≠ [] else next.principal = read.principal := by
  split_ifs with named
  · cases taken with
    | principal given clean => exact given
    | _ => exact absurd (show ascii _ = ascii "p" from named) (by decide)
  · cases taken with
    | version one => rfl
    | principal given clean => exact absurd rfl named
    | use each =>
      refine foldlM_keeps (fun state => state.principal = read.principal) (fun part _ before after kept step => ?_) rfl each
      obtain ⟨value, -, ⟨-, rfl⟩ | ⟨-, rfl⟩⟩ := readUse_eq_some_iff.mp step
      · exact kept
      · exact kept
    | set each =>
      refine foldlM_keeps (fun state => state.principal = read.principal) (fun setting _ before after kept step => ?_) rfl each
      obtain ⟨-, value, known, -, -, -, rfl⟩ := readSetting_eq_some_iff.mp step
      exact kept
    | pinned each =>
      refine foldlM_keeps (fun state => state.principal = read.principal) (fun pin _ before after kept step => ?_) rfl each
      obtain ⟨name, -, rfl⟩ := readPin_eq_some_iff.mp step
      exact kept

/-- What is read of an object in UTF-8 with a principal may be carried. -/
theorem carried_of_read {members : List (Bytes × Json)} {reading : Reading}
    (valid : ∀ value, Json.Part (.str value) (.obj members) → Json.Utf8 value)
    (read : members.foldlM readMember {} = some reading) (owned : reading.owned = true) : Carried reading.read := by
  have begun : Sound ({} : Reading).read := by
    refine ⟨by simp, by simp, by simp, fun value listed => ?_⟩
    obtain rfl : value = [] := by simpa using listed
    exact ⟨⟨[], rfl⟩, by simp⟩
  have kept := foldlM_keeps (fun reading : Reading => Sound reading.read ∧ (reading.owned = true → reading.read.principal ≠ []))
    (fun entry among before after kept step => ?_) ⟨begun, fun no => by cases no⟩ read
  · exact kept.1.carried (kept.2 owned)
  · obtain ⟨-, next, taken, rfl⟩ := readMember_eq_some_iff.mp step
    refine ⟨sound_taken taken (fun value part => valid value (.value among part)) kept.1, fun owned => ?_⟩
    have principal := taken_principal taken
    split_ifs at principal with named
    · exact principal
    · rw [Bool.or_eq_true, decide_eq_true_eq, or_iff_left named] at owned
      change next.principal ≠ []
      rw [principal]
      exact kept.2 owned

/-! ## The keys of the objects -/

private theorem not_part_str {members : List (Bytes × Json)} {string : Bytes} : ¬ Json.Part (.obj members) (.str string) := by
  intro part
  cases part

private theorem str_of_text {value : Json} (held : (text value).isSome = true) : ∃ string, value = .str string := by
  obtain ⟨string, held⟩ := Option.isSome_iff_exists.mp held
  exact ⟨string, (text_eq_some_iff.mp held).1⟩

/-- An object whose members are strings holds no other object. -/
private theorem part_of_texts {inner members : List (Bytes × Json)} (each : ∀ entry ∈ members, (text entry.2).isSome = true)
    (part : Json.Part (.obj inner) (.obj members)) : inner = members := by
  cases part with
  | self => rfl
  | value listed within =>
    obtain ⟨string, same⟩ := str_of_text (each _ listed)
    dsimp only at same
    subst same
    exact absurd within not_part_str

/-- Of an object that is read, only `use` may name a key twice. -/
theorem keysOnce_iff {members : List (Bytes × Json)} (admissible : Admissible members) :
    (Json.obj members).KeysOnce ↔ ∀ parts, (ascii "use", Json.obj parts) ∈ members → (parts.map Prod.fst).Nodup := by
  constructor
  · exact fun once parts listed => once parts (.value listed .self)
  · intro uses inner part
    cases part with
    | self => exact admissible.once
    | @value key value _ listed within =>
      have admitted := admissible.each _ listed
      generalize entry_eq : (key, value) = entry at admitted
      cases admitted with
      | version one =>
        cases entry_eq
        cases within
      | principal given clean =>
        cases entry_eq
        cases within
      | use each =>
        cases entry_eq
        rw [part_of_texts (fun part among => (each part among).2) within]
        exact uses _ listed
      | set each once =>
        cases entry_eq
        rw [part_of_texts (fun setting among => (each setting among).2.1) within]
        refine List.Nodup.of_map portableSetting ?_
        rw [List.map_map]
        exact once
      | pinned each =>
        cases entry_eq
        cases within with
        | item among within =>
          obtain ⟨string, rfl⟩ := str_of_text (each _ among)
          exact absurd within not_part_str

/-! ## The cookie -/

/-- What an answer with a state says of a value. -/
structure ReadStrictly (yyjsonRead : Bytes → Option Json) (value : Bytes) (state : SessionState) : Prop where
  encoded : ∃! text, value = base64UrlEncode text
  keys : ∀ text json, value = base64UrlEncode text → yyjsonRead text = some json → json.KeysOnce
  principal : state.principal ≠ []
  portable : ∀ setting ∈ state.settings, setting.1 ∈ portableSettings
  once : (state.settings.map Prod.fst).Nodup
  known : ∀ pin ∈ state.pinned, isKnownPin pin = true
  again : state.empty = false → (base64UrlEncode state.json).length ≤ maxBytes →
    decodeInto yyjsonRead (encodeSessionState state) = (.ok, state)

/-- A value is read strictly: a state is answered for such values only, and nothing is left of the others. -/
def DecodesStrictly (yyjsonRead : Bytes → Option Json) (value : Bytes) : Prop :=
  (∀ state, decodeInto yyjsonRead value = (.ok, state) → ReadStrictly yyjsonRead value state) ∧
    ((decodeInto yyjsonRead value).1 ≠ .ok →
      ((decodeInto yyjsonRead value).1 = .absent ∨ (decodeInto yyjsonRead value).1 = .unreadable) ∧
        (decodeInto yyjsonRead value).2 = { principal := [] })

/-- The text of an admissible object whose `use` names a key twice. -/
def RepeatsUse (yyjsonRead : Bytes → Option Json) (value : Bytes) : Prop :=
  value ≠ [] ∧ value.length ≤ maxInput ∧ ∃ text members, value = base64UrlEncode text ∧
    yyjsonRead text = some (.obj members) ∧ Admissible members ∧
      ∃ parts, (ascii "use", Json.obj parts) ∈ members ∧ ¬ (parts.map Prod.fst).Nodup

section Cookie

variable {yyjsonRead : Bytes → Option Json} {value : Bytes}

theorem decodeInto_eq_ok_iff {state : SessionState} :
    decodeInto yyjsonRead value = (.ok, state) ↔ value ≠ [] ∧ value.length ≤ maxInput ∧ ∃ text members reading,
      value = base64UrlEncode text ∧ yyjsonRead text = some (.obj members) ∧
        members.foldlM readMember {} = some reading ∧ (reading.versioned = true ∧ reading.owned = true) ∧
          reading.read = state := by
  have answered : decodeInto yyjsonRead value = (.ok, state) ↔ decodeSessionState yyjsonRead value = .ok state := by
    rw [decodeInto]
    cases decodeSessionState yyjsonRead value <;> simp
  rw [answered, decodeSessionState]
  by_cases absent : value = []
  · rw [if_pos absent]
    exact iff_of_false (by simp) fun all => all.1 absent
  · rw [if_neg absent]
    by_cases long : maxInput < value.length
    · rw [if_pos long]
      exact iff_of_false (by simp) fun all => absurd all.2.1 (Nat.not_le.mpr long)
    · rw [if_neg long]
      constructor
      · intro read
        split at read
        · next members json =>
          obtain ⟨text, decoded, parsed⟩ := Option.bind_eq_some_iff.mp json
          split at read
          · next reading folded =>
            split_ifs at read with flags
            cases read
            exact ⟨absent, Nat.le_of_not_lt long, text, members, reading, base64UrlDecode_eq_some_iff.mp decoded, parsed,
              folded, by simpa using flags, rfl⟩
          · cases read
        · cases read
      · rintro ⟨-, -, text, members, reading, encoded, parsed, folded, flags, rfl⟩
        rw [base64UrlDecode_eq_some_iff.mpr encoded, Option.bind_some, parsed]
        simp [folded, flags]

/-- What is left of a value that is no cookie. -/
private theorem decodeInto_other (other : (decodeInto yyjsonRead value).1 ≠ .ok) :
    ((decodeInto yyjsonRead value).1 = .absent ∨ (decodeInto yyjsonRead value).1 = .unreadable) ∧
      (decodeInto yyjsonRead value).2 = { principal := [] } := by
  rw [decodeInto] at other ⊢
  generalize decodeSessionState yyjsonRead value = read at other ⊢
  cases read with
  | absent => exact ⟨.inl rfl, rfl⟩
  | ok read => exact absurd rfl other
  | unreadable => exact ⟨.inr rfl, rfl⟩

private theorem not_strictly_of_repeats (repeats : RepeatsUse yyjsonRead value) : ¬ DecodesStrictly yyjsonRead value := by
  rintro ⟨strict, -⟩
  obtain ⟨absent, short, text, members, encoded, parsed, admissible, parts, listed, repeated⟩ := repeats
  obtain ⟨reading, folded, flags⟩ := admissible_iff.mpr admissible
  have answered := decodeInto_eq_ok_iff.mpr ⟨absent, short, text, members, reading, encoded, parsed, folded, flags, rfl⟩
  exact repeated ((keysOnce_iff admissible).mp ((strict reading.read answered).keys text _ encoded parsed) parts listed)

/-- A value is read strictly exactly when it is not the text of an admissible object whose `use` names `catalog` or
`schema` twice. -/
theorem decodes_strictly_iff (reads : Json.Reads yyjsonRead) (texts : Json.ReadsTexts yyjsonRead) (value : Bytes) :
    DecodesStrictly yyjsonRead value ↔ ¬ RepeatsUse yyjsonRead value := by
  constructor
  · exact fun strict repeats => not_strictly_of_repeats repeats strict
  · intro never
    refine ⟨fun state answered => ?_, decodeInto_other⟩
    obtain ⟨absent, short, text, members, reading, encoded, parsed, folded, flags, rfl⟩ := decodeInto_eq_ok_iff.mp answered
    have admissible : Admissible members := admissible_iff.mp ⟨reading, folded, flags⟩
    have carried : Carried reading.read := carried_of_read (texts text _ parsed) folded flags.2
    refine {
      encoded := ⟨text, encoded, fun other same => base64UrlEncode_injective (same.symm.trans encoded)⟩
      keys := fun other json same parsed' => ?_
      principal := carried.principal
      portable := carried.portable
      once := carried.once
      known := carried.known
      again := fun held within => ?_ }
    · obtain rfl : other = text := base64UrlEncode_injective (same.symm.trans encoded)
      rw [parsed] at parsed'
      cases parsed'
      refine (keysOnce_iff admissible).mpr fun parts listed => ?_
      by_contra repeated
      exact never ⟨absent, short, _, members, encoded, parsed, admissible, parts, listed, repeated⟩
    · have input : maxBytes ≤ maxInput := by decide
      rw [encodeSessionState, held, if_neg Bool.false_ne_true, if_neg (Nat.not_lt.mpr within), decodeInto,
        decode_json reads carried (within.trans input)]

end Cookie

theorem decodes_strictly_berlin : DecodesStrictly Json.readTextDocument (base64UrlEncode berlin.json) := by
  refine (decodes_strictly_iff Json.readTextDocument_reads Json.readTextDocument_readsTexts _).mpr ?_
  rintro ⟨-, -, text, members, encoded, parsed, -, parts, listed, -⟩
  have carried : Carried berlin :=
    carried_ascii (by decide) (by decide) (by decide) (by decide) (by decide)
  obtain rfl : berlin.json = text := base64UrlEncode_injective encoded
  rw [Json.readTextDocument_reads _ _ (document_json carried)] at parsed
  cases parsed
  obtain ⟨entry, among, same⟩ := List.mem_map.mp listed
  have unused : ascii "use" ∉ berlin.members.map Prod.fst := by decide
  exact unused (List.mem_map.mpr ⟨entry, among, (Prod.mk.inj same).1⟩)

/-- An object whose `use` names two catalogs. -/
def twoCatalogs : List (Bytes × Json.Flat) :=
  [(ascii "v", .digit 1), (ascii "p", .str (ascii "a")),
    (ascii "use", .obj [(ascii "catalog", ascii "a"), (ascii "catalog", ascii "b")])]

/-- Its text. -/
def twoCatalogsText : Bytes :=
  between 123 125 [member "v" [49], member "p" (quote (ascii "a")),
    member "use" (between 123 125 [member "catalog" (quote (ascii "a")), member "catalog" (quote (ascii "b"))])]

private theorem document_twoCatalogs : Json.Document twoCatalogs twoCatalogsText := by
  have small : ∀ name ∈ [ascii "a", ascii "b"], Json.Quoted name (quote name) := fun name listed =>
    quoted_quote (Json.utf8_of_ascii ((show ∀ name ∈ [ascii "a", ascii "b"], ∀ b ∈ name, b < 128 by decide) name listed))
  refine ⟨by simp [twoCatalogs], _, ?_, rfl⟩
  refine .cons (pair_member (names_ascii _ (by simp)).2 (.digit (by decide))) (.cons ?_ (.cons ?_ .nil))
  · exact pair_member (names_ascii _ (by simp)).2 (.str (small _ (by simp)))
  · refine pair_member (names_ascii _ (by simp)).2 (.obj (by simp) ?_)
    refine .cons (pair_member (names_ascii _ (by simp)).2 (small _ (by simp))) (.cons ?_ .nil)
    exact pair_member (names_ascii _ (by simp)).2 (small _ (by simp))

/-- A cookie that names two catalogs is read, and the later one is taken. -/
theorem use_repeats : ¬ ∀ yyjsonRead : Bytes → Option Json, Json.Reads yyjsonRead → Json.ReadsTexts yyjsonRead →
    ∀ value, DecodesStrictly yyjsonRead value := by
  intro every
  have strict := every _ Json.readTextDocument_reads Json.readTextDocument_readsTexts (base64UrlEncode twoCatalogsText)
  refine not_strictly_of_repeats ?_ strict
  refine ⟨by decide, by decide, twoCatalogsText, _, rfl,
    Json.readTextDocument_reads _ _ document_twoCatalogs, ⟨by decide, by decide, by decide, ?_⟩, ?_⟩
  · intro entry member
    simp only [twoCatalogs, List.map_cons, List.map_nil, List.mem_cons, List.not_mem_nil, or_false] at member
    rcases member with rfl | rfl | rfl
    · exact .version (by decide)
    · exact .principal (by decide) (by decide)
    · refine .use fun part listed => ?_
      simp only [List.map_cons, List.map_nil, List.mem_cons, List.not_mem_nil, or_false] at listed
      rcases listed with rfl | rfl
      · exact ⟨by simp, by decide⟩
      · exact ⟨by simp, by decide⟩
  · refine ⟨_, List.mem_cons_of_mem _ (List.mem_cons_of_mem _ List.mem_cons_self), ?_⟩
    decide

end SessionState

end DuckAcl
