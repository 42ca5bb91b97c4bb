import DuckAcl.Library.Runs
import DuckAcl.Model.Freshness

/-! # The policy caches of a node

The threads of a node share one `CatalogBackend`: its version state and eight caches, all behind one
lock, with the queries run outside it (`acl_policy_catalog.cpp`). A step here is one critical section
or one query. What a cached value says is not modelled, only what it was computed from: the committed
policy versions its queries read. `need`, `adopted`, `served` and `answers` are ghost fields, which no
step of the code reads.
-/

namespace DuckAcl

/-- The caches `EnsureFresh` clears when it adopts a version. -/
inductive CacheName where
  | objects
  | functions
  | functionModel
  | claimsCache
  | identityModel
  | rightsCache
  | knownRolesCache
  | fnGrants
deriving DecidableEq, Repr

namespace CacheName

/-- `claims_cache` and `fn_grants`: rows are added to what a key already holds, and the answer is read
from the cache in a critical section of its own. -/
def merges : CacheName → Bool
  | claimsCache | fnGrants => true
  | _ => false

/-- The fill keeps its result only while `version == read_at`. -/
def rechecks : CacheName → Bool
  | functionModel | claimsCache | fnGrants => false
  | _ => true

/-- `ClearIfOversized` stands before the store. -/
def capped : CacheName → Bool
  | objects | functions | rightsCache | knownRolesCache => true
  | _ => false

end CacheName

/-- `CACHE_CAPACITY`. -/
def cacheCapacity : ℕ := 4096

/-- A cached value: the committed versions of the policy at which it was read. -/
structure CacheEntry (κ : Type) where
  key : κ
  reads : List Int
deriving DecidableEq, Repr

/-- One cache, a value for each key. -/
abbrev Cache (κ : Type) := List (CacheEntry κ)

namespace Cache

variable {κ : Type} [DecidableEq κ]

/-- What the cache holds for the key. -/
def lookup (cache : Cache κ) (key : κ) : Option (CacheEntry κ) :=
  cache.find? fun entry => decide (entry.key = key)

/-- `cache[key] = value`. -/
def put (reads : List Int) (cache : Cache κ) (key : κ) : Cache κ :=
  ⟨key, reads⟩ :: cache.filter fun entry => decide (entry.key ≠ key)

/-- Rows added to what the key holds, which is created empty when it holds nothing. -/
def merge (reads : List Int) (cache : Cache κ) (key : κ) : Cache κ :=
  match cache.lookup key with
  | none => cache.put reads key
  | some entry => cache.put (entry.reads ++ reads) key

/-- `ClearIfOversized`. -/
def clearIfOversized (name : CacheName) (cache : Cache κ) : Cache κ :=
  if name.capped ∧ cacheCapacity < cache.length then [] else cache

/-- The reads behind what the cache hands out for these keys. -/
def readsOf (cache : Cache κ) (keys : List κ) : List Int :=
  (keys.filterMap cache.lookup).flatMap CacheEntry.reads

/-- The keys the cache holds nothing for. -/
def missing (cache : Cache κ) (keys : List κ) : List κ :=
  keys.filter fun key => (cache.lookup key).isNone

end Cache

/-- A fill under way: what was asked for, what of it the cache did not hold, and the version at which
it looked. -/
structure Fill (κ : Type) where
  cache : CacheName
  keys : List κ
  missing : List κ
  readAt : Int
  /-- The reads behind the values handed out already, from the cache. -/
  given : List Int
  /-- The committed versions read so far, by queries and by the calls made on the way. -/
  reads : List Int
deriving DecidableEq, Repr

/-- Where a thread stands in `EnsureFresh`. -/
inductive Check where
  | due
  | asking
  | answered (current : Int)
  | passed
deriving DecidableEq, Repr

/-- A call under way: `need` is the last policy write of this node that had returned when it began,
and the fills are nested, the innermost first. -/
structure CacheCall (κ : Type) where
  need : Int
  check : Check
  fills : List (Fill κ)
deriving DecidableEq, Repr

/-- What a thread is doing. A write that has committed has yet to take the lock. -/
inductive NodeThread (κ : Type) where
  | idle
  | calling (call : CacheCall κ)
  | writing (written : Int)
deriving DecidableEq, Repr

/-- A node and the policy it reads: the caches and the version state behind the lock, the threads, and
the policy's committed version. -/
structure Node (κ : Type) where
  committed : Int
  fresh : Freshness
  caches : CacheName → Cache κ
  threads : ℕ → NodeThread κ
  /-- The last policy write of this node that has returned. -/
  ownWritten : Int
  /-- The newest version adopted so far. -/
  adopted : Int
  /-- What left a cache: the newest version adopted by then, and the reads behind it. -/
  served : List (Int × List Int)
  /-- What calls returned: their `need`, and the reads behind the answer. -/
  answers : List (Int × List Int)

/-- One step of a thread. A policy write by another node is a step of no thread. -/
inductive NodeEvent (κ : Type) where
  | begin (thread : ℕ)
  | enter (thread : ℕ) (now interval : Int)
  | ask (thread : ℕ)
  | adopt (thread : ℕ)
  | recheck (thread : ℕ)
  | look (thread : ℕ) (cache : CacheName) (keys : List κ)
  | query (thread : ℕ)
  | store (thread : ℕ) (rowKeys : List κ)
  | finish (thread : ℕ)
  | decline (thread : ℕ)
  | fail (thread : ℕ)
  | commit (thread : ℕ)
  | writeReturns (thread : ℕ)
  | counterWrite (thread : ℕ)
  | remoteWrite
deriving DecidableEq, Repr

namespace Node

variable {κ : Type} [DecidableEq κ]

/-- A node that has asked for nothing yet, over a policy at some version. -/
def init (committed : ℕ) : Node κ :=
  { committed := committed, fresh := {}, caches := fun _ => [], threads := fun _ => .idle
    ownWritten := -1, adopted := -1, served := [], answers := [] }

def version (node : Node κ) : Int := node.fresh.version

def setThread (node : Node κ) (thread : ℕ) (now : NodeThread κ) : Node κ :=
  { node with threads := Function.update node.threads thread now }

def setCache (node : Node κ) (name : CacheName) (cache : Cache κ) : Node κ :=
  { node with caches := Function.update node.caches name cache }

/-- The reads behind an entry that leaves its cache are noted. -/
def serve (node : Node κ) (reads : List Int) : Node κ :=
  { node with served := (node.adopted, reads) :: node.served }

/-- A call gives its result, to the fill that made it or as the thread's answer. -/
def give (node : Node κ) (thread : ℕ) (need : Int) (outer : List (Fill κ)) (reads : List Int) : Node κ :=
  match outer with
  | [] => { node with answers := (need, reads) :: node.answers }.setThread thread .idle
  | fill :: rest => node.setThread thread (.calling ⟨need, .passed, { fill with reads := fill.reads ++ reads } :: rest⟩)

/-- The second critical section of `EnsureFresh`: a version other than the node's replaces it, and
clears every cache. -/
def adoptVersion (node : Node κ) (current : Int) : Node κ :=
  { node with
    fresh := node.fresh.adopt current
    caches := if current ≠ node.version then fun _ => [] else node.caches
    adopted := max node.adopted current }

/-- The critical section in which a call looks into its cache. A cache that merges hands out nothing
yet; the others hand out what they hold, and the call is over when nothing is missing. -/
def look (node : Node κ) (thread : ℕ) (call : CacheCall κ) (name : CacheName) (keys : List κ) : Node κ :=
  let missing := (node.caches name).missing keys
  if name.merges then
    node.setThread thread (.calling { call with fills := ⟨name, keys, missing, node.version, [], []⟩ :: call.fills })
  else
    let reads := (node.caches name).readsOf keys
    if missing.isEmpty then (node.serve reads).give thread call.need call.fills reads
    else
      (node.serve reads).setThread thread
        (.calling { call with fills := ⟨name, keys, missing, node.version, reads, []⟩ :: call.fills })

/-- The critical section that adds the rows of a query to a cache that merges; every missing key is
loaded from then on, with or without rows. -/
def storeRows (node : Node κ) (thread : ℕ) (call : CacheCall κ) (fill : Fill κ) (outer : List (Fill κ))
    (rowKeys : List κ) : Node κ :=
  (node.setCache fill.cache ((fill.missing ++ rowKeys).foldl (Cache.merge fill.reads) (node.caches fill.cache))).setThread
    thread (.calling { call with fills := { fill with missing := [] } :: outer })

/-- The last critical section of a fill: what is kept, and what the call answers. -/
def finishFill (node : Node κ) (thread : ℕ) (call : CacheCall κ) (fill : Fill κ) (outer : List (Fill κ)) : Node κ :=
  if fill.cache.merges then
    let reads := (node.caches fill.cache).readsOf fill.keys
    (node.serve reads).give thread call.need outer reads
  else if fill.cache.rechecks then
    let kept := if node.version = fill.readAt then
        node.setCache fill.cache
          (fill.missing.foldl (Cache.put fill.reads) ((node.caches fill.cache).clearIfOversized fill.cache))
      else node
    kept.give thread call.need outer (fill.given ++ fill.reads)
  else
    -- `function_model`: what another thread stored meanwhile stays, and is what the call returns
    let kept := node.setCache fill.cache
      (((node.caches fill.cache).missing fill.missing).foldl (Cache.put fill.reads) (node.caches fill.cache))
    let reads := (kept.caches fill.cache).readsOf fill.keys
    (kept.serve reads).give thread call.need outer reads

/-- One step of a thread that is in a call. -/
def callStep (node : Node κ) (thread : ℕ) (call : CacheCall κ) : NodeEvent κ → Option (Node κ)
  | .enter _ now interval =>
    match call.check with
    | .due =>
      if node.fresh.skips now interval then some (node.setThread thread (.calling { call with check := .passed }))
      else some ({ node with fresh := node.fresh.enter now }.setThread thread (.calling { call with check := .asking }))
    | _ => none
  | .ask _ =>
    match call.check with
    | .asking => some (node.setThread thread (.calling { call with check := .answered node.committed }))
    | _ => none
  | .adopt _ =>
    match call.check with
    | .answered current =>
      some ((node.adoptVersion current).setThread thread (.calling { call with check := .passed }))
    | _ => none
  | .recheck _ =>
    match call.check, call.fills with
    | .passed, _ :: _ => some (node.setThread thread (.calling { call with check := .due }))
    | _, _ => none
  | .look _ name keys =>
    match call.check with
    | .passed => some (node.look thread call name keys)
    | _ => none
  | .query _ =>
    match call.check, call.fills with
    | .passed, fill :: outer =>
      some (node.setThread thread
        (.calling { call with fills := { fill with reads := fill.reads ++ [node.committed] } :: outer }))
    | _, _ => none
  | .store _ rowKeys =>
    match call.check, call.fills with
    | .passed, fill :: outer =>
      if fill.cache.merges ∧ fill.missing ≠ [] then some (node.storeRows thread call fill outer rowKeys) else none
    | _, _ => none
  | .finish _ =>
    match call.check, call.fills with
    | .passed, fill :: outer =>
      if fill.cache.merges ∧ fill.missing ≠ [] then none else some (node.finishFill thread call fill outer)
    | _, _ => none
  | .decline _ =>
    -- a function driver without the slot: the call answers nothing, and keeps nothing
    match call.check, call.fills with
    | .passed, fill :: outer =>
      if fill.cache = .functionModel ∨ fill.cache = .claimsCache then some (node.give thread call.need outer [])
      else none
    | _, _ => none
  | .fail _ => some (node.setThread thread .idle)
  | _ => none

/-- The thread whose step it is. -/
def actor : NodeEvent κ → Option ℕ
  | .begin thread | .enter thread _ _ | .ask thread | .adopt thread | .recheck thread | .look thread _ _
  | .query thread | .store thread _ | .finish thread | .decline thread | .fail thread | .commit thread
  | .writeReturns thread | .counterWrite thread => some thread
  | .remoteWrite => none

/-- One step of the node; an event that is not possible here has none. -/
def step (node : Node κ) (event : NodeEvent κ) : Option (Node κ) :=
  match actor event with
  | none => some { node with committed := node.committed + 1 }
  | some thread =>
    match node.threads thread, event with
    | .idle, .begin _ => some (node.setThread thread (.calling ⟨node.ownWritten, .due, []⟩))
    | .idle, .commit _ =>
      some ({ node with committed := node.committed + 1 }.setThread thread (.writing (node.committed + 1)))
    | .writing written, .writeReturns _ =>
      some ({ node with fresh := node.fresh.written, ownWritten := max node.ownWritten written }.setThread thread .idle)
    -- `WriteWithReads` over another counter than `policy_version`
    | .idle, .counterWrite _ => some { node with fresh := node.fresh.written }
    | .calling call, event => node.callStep thread call event
    | _, _ => none

end Node

end DuckAcl
