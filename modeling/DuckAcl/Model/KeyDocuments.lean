import DuckAcl.Library.Runs
import DuckAcl.Library.Text

/-! # The cache of key documents

`CachedDocument` serves the document of a location from `jwks_cache`, reads it again when its time is over
or a key is missing from it, and survives a failed read for a while; `JwksDropCache` drops entries
(`acl_identity_store.cpp`). A call works on its own copy of the entry and writes the whole copy back after
the read. This is the cache of one location. A step is a locked section with what follows it up to the
read, the start of a read, or the end of one with the locked section after it. What a call reads of the
settings and the clock are inputs, and `hasKid` is `JwksHasKid`.

When the read of a document began, and for which issuer, is history. So are the drops, the documents
stored and those served, each with the moment it happened.
-/

namespace DuckAcl

/-- `JwksEntry`, with the moment the document's read began and the issuer it was read for. -/
structure JwksEntry where
  issuer : Text := []
  keysJson : Text := []
  fetchedAt : ℤ := 0
  triedAt : ℤ := 0
  error : Text := []
  readAt : ℕ := 0
  reader : Text := []
deriving DecidableEq, Repr

/-- A call of `CachedDocument` that is about to read, or reading since `readAt`. -/
structure JwksCall where
  issuer : Text
  now : ℤ
  refresh : ℤ
  entry : JwksEntry
  started : ℕ
  readAt : Option ℕ := none
deriving DecidableEq, Repr

/-- A document served: the entry it was in, and what the call went by. -/
structure JwksServed where
  entry : JwksEntry
  started : ℕ
  now : ℤ
  refresh : ℤ
  maxStale : ℤ
deriving DecidableEq, Repr

/-- The cache of a location, the calls in progress, and the history. -/
structure JwksCache where
  entry : Option JwksEntry := none
  calls : List JwksCall := []
  moment : ℕ := 0
  drops : List (ℕ × Text) := []
  stored : List ℕ := []
  served : List JwksServed := []
deriving DecidableEq, Repr

inductive JwksEvent where
  /-- a call for a location this node does not read from -/
  | refuse (issuer why : Text) (now : ℤ)
  | start (issuer kid : Text) (isJwks : Bool) (now refresh maxStale : ℤ)
  | read (call : ℕ)
  | finish (call : ℕ) (result : Except Text Text) (maxStale : ℤ)
  | drop (issuer : Text)

/-- `RETRY_FLOOR_SECONDS`. -/
def retryFloorSeconds : ℤ := 10

namespace JwksEntry

/-- The document is to be read again. -/
def expired (entry : JwksEntry) (now refresh : ℤ) : Bool := entry.keysJson = [] ∨ refresh ≤ now - entry.fetchedAt

/-- A key may have rotated in since the last read. -/
def rotated (hasKid : Text → Text → Bool) (entry : JwksEntry) (kid : Text) (isJwks : Bool) (now refresh : ℤ) : Bool :=
  isJwks && !entry.expired now refresh && !hasKid entry.keysJson kid

/-- Whether a call reads the document. -/
def reads (hasKid : Text → Text → Bool) (entry : JwksEntry) (kid : Text) (isJwks : Bool) (now refresh : ℤ) : Bool :=
  let rotated := entry.rotated hasKid kid isJwks now refresh
  (entry.expired now refresh || rotated) && (if rotated then retryFloorSeconds else 0) ≤ now - entry.triedAt

/-- The tests before a document is served. -/
def serves (entry : JwksEntry) (now maxStale : ℤ) : Bool :=
  entry.keysJson ≠ [] ∧ ¬(entry.error ≠ [] ∧ (maxStale ≤ 0 ∨ maxStale < now - entry.fetchedAt))

/-- The copy after the read. -/
def after (call : JwksCall) (readAt : ℕ) : Except Text Text → JwksEntry
  | .ok document =>
    { call.entry with
      keysJson := document, fetchedAt := call.now, triedAt := call.now, error := [], readAt := readAt, reader := call.issuer }
  | .error error => { call.entry with triedAt := call.now, error := error }

/-- The copy without its document. -/
def emptied (entry : JwksEntry) : JwksEntry := { entry with keysJson := [], fetchedAt := 0 }

end JwksEntry

/-- Whether a drop names an issuer. -/
def dropNames (dropped issuer : Text) : Bool := dropped = [] || Text.ciEquals issuer dropped

namespace JwksCache

/-- A call that is done with its entry serves its document, or rejects. -/
def answer (cache : JwksCache) (entry : JwksEntry) (started : ℕ) (now refresh maxStale : ℤ) : JwksCache :=
  if entry.serves now maxStale then
    { cache with served := cache.served ++ [{ entry, started, now, refresh, maxStale }] }
  else cache

/-- The entry a call works on: the cached one, under its own issuer. -/
def copy (cache : JwksCache) (issuer : Text) : JwksEntry := { cache.entry.getD {} with issuer := issuer }

/-- What the write-back leaves in the cache. -/
def written (cache : JwksCache) (entry : JwksEntry) : JwksEntry :=
  if entry.error ≠ [] ∧ cache.entry = none then entry.emptied else entry

variable (hasKid : Text → Text → Bool)

/-- One step. -/
def step (cache : JwksCache) (event : JwksEvent) : Option JwksCache :=
  let ticked := { cache with moment := cache.moment + 1 }
  match event with
  | .refuse issuer why now =>
    some { ticked with entry := some { cache.copy issuer with triedAt := now, error := why, keysJson := [], fetchedAt := 0 } }
  | .start issuer kid isJwks now refresh maxStale =>
    let entry := cache.copy issuer
    if entry.reads hasKid kid isJwks now refresh then
      some { ticked with calls := cache.calls ++ [{ issuer, now, refresh, entry, started := cache.moment }] }
    else some (ticked.answer entry cache.moment now refresh maxStale)
  | .read index =>
    match cache.calls[index]? with
    | none => none
    | some call =>
      if call.readAt = none then
        some { ticked with calls := cache.calls.set index { call with readAt := some cache.moment } }
      else none
  | .finish index result maxStale =>
    match cache.calls[index]? with
    | none => none
    | some call =>
      match call.readAt with
      | none => none
      | some readAt =>
        -- a failed read has a reason
        if result = .error [] then none
        else
          let entry := cache.written (JwksEntry.after call readAt result)
          some
            ({ ticked with
                entry := some entry
                calls := cache.calls.eraseIdx index
                stored := if entry.keysJson = [] then cache.stored else cache.stored ++ [entry.readAt] }.answer
              entry call.started call.now call.refresh maxStale)
  | .drop issuer =>
    some
      { ticked with
        entry := cache.entry.filter fun entry => !dropNames issuer entry.issuer
        drops := cache.drops ++ [(cache.moment, issuer)] }

end JwksCache

end DuckAcl
