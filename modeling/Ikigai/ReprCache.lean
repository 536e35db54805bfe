import Ikigai.CachePolicy
import Ikigai.KeyedMap
import Ikigai.Request
import Ikigai.Rounds

/-!
# The representation cache

Entries and failures with the generations their threads were pinned at, the current
generation of each thread, and a bounded log of recent cuts. Each operation takes the
lock for its whole length and is one step here, except a cut: it is recorded under the
lock and its number is published after, and a snapshot reads the published number
without the lock. Counters of 64 bits that only ever count up by one are not bounded
here; the byte total and the eviction count saturate as they do in the source. The
readouts are left out.
-/

namespace Ikigai

/-- How many recent cuts the race check remembers. -/
def cutLog : Nat := 4096

/-- How many failures the cache holds at once. -/
def cachedFailures : Nat := 1024

/-- A request's identity, its authority's fingerprint and its chain's. -/
structure CacheKey where
  request : RequestId
  capability : UInt64
  scope : UInt64
deriving DecidableEq, Repr

/-- What the cache holds for one key. -/
structure Slot where
  incoming : Option Provenance
  target : Text
  representation : Representation
  edges : List (Thread × Nat)
  costMillis : Option Nat
  hits : Nat
  storedTick : Nat
  lastUsedTick : Nat
deriving DecidableEq

/-- What a body counts against the byte bound: its length, or everything when unknown. -/
def bodySize (body : Body) : Nat :=
  match body.lenHint with
  | some length => min length wordMax
  | none => wordMax

namespace Slot

def bytes (slot : Slot) : Nat := bodySize slot.representation.body

def facts (slot : Slot) (request : RequestId) : EntryFacts where
  request := request
  target := slot.target
  mediaType := slot.representation.reprType.mediaType
  bytes := slot.bytes
  costMillis := slot.costMillis
  hits := slot.hits
  threads := slot.edges.length
  storedTick := slot.storedTick
  lastUsedTick := slot.lastUsedTick

end Slot

/-- A failure held until a stated time. -/
structure FailedSlot where
  incoming : Option Provenance
  target : Text
  error : Error
  until_ : Time
  threads : ThreadSet
  edges : List (Thread × Nat)
deriving DecidableEq

/-- A failure served from the cache. -/
structure CachedFailure where
  error : Error
  until_ : Time
  threads : ThreadSet
deriving DecidableEq

/-- What an offer tells the endpoint of the stale answer. -/
structure Stale where
  validator : OriginValidator
  reprType : ReprType
deriving DecidableEq, Repr

/-- A stale answer offered for revalidation. -/
structure Offer where
  stale : Stale
  stored : Representation
  storedTick : Nat
deriving DecidableEq

/-- An answer out of the cache: the body as it is held, or a buffer copied out. -/
inductive Answer where
  | body (representation : Representation)
  | buffer (representation : Representation)
deriving DecidableEq

/-- Why a computed result was not stored. -/
inductive Declined where
  | noClock
  | expired (deadline : Time)
  | cutInFlight
  | policy
deriving DecidableEq, Repr

/-- Whether a held entry would be served, and if not, why not. -/
inductive EntryState where
  | live
  | cut
  | expired
deriving DecidableEq, Repr

/-- An entry that depended on a thread being cut. -/
structure Dependent where
  target : Text
  capability : UInt64
  live : Bool
deriving DecidableEq, Repr

/-- The state behind the cache's lock. -/
structure CacheState where
  entries : KeyedMap CacheKey Slot
  failures : KeyedMap CacheKey FailedSlot
  generations : KeyedMap Thread Nat
  cuts : List (Thread × Nat)
  horizon : Nat
  seq : Nat
  tick : Nat
  bytes : Nat
  evictions : Nat

namespace CacheState

def empty : CacheState := ⟨∅, ∅, ∅, [], 0, 0, 0, 0, 0⟩

def generationOf (state : CacheState) (thread : Thread) : Nat :=
  (state.generations.lookup thread).getD 0

/-- Bump a thread's generation and log the cut under the next number. -/
def recordCut (state : CacheState) (thread : Thread) : CacheState :=
  { state with
    generations := state.generations.insert thread (state.generationOf thread + 1)
    seq := state.seq + 1
    cuts := (if cutLog ≤ state.cuts.length then state.cuts.tail else state.cuts) ++
      [(thread, state.seq + 1)]
    horizon := if cutLog ≤ state.cuts.length then
        match state.cuts.head? with
        | some forgotten => forgotten.2
        | none => state.horizon
      else state.horizon }

/-- Every entry with an edge on a thread, judged against the generation before the cut
just recorded. -/
def dependentsBefore (state : CacheState) (thread : Thread) : List Dependent :=
  state.entries.entries.filterMap fun entry =>
    (entry.2.edges.find? fun edge => edge.1 == thread).map fun edge =>
      ⟨entry.2.target, entry.1.capability, edge.2 == state.generationOf thread - 1⟩

/-- Whether every edge stands at its pinned generation. -/
def edgesCurrent (state : CacheState) (edges : List (Thread × Nat)) : Bool :=
  edges.all fun edge => state.generationOf edge.1 == edge.2

/-- Whether a deadline is still ahead; without a clock it never is. -/
def ahead (now : Option Time) (deadline : Time) : Bool :=
  now.any fun now => decide (now < deadline)

def stateOf (state : CacheState) (entry : Slot) (now : Option Time) : EntryState :=
  if state.edgesCurrent entry.edges then
    match entry.representation.expiry with
    | .«at» deadline => if ahead now deadline then .live else .expired
    | .always | .never => .live
  else .cut

def failureState (state : CacheState) (slot : FailedSlot) (now : Option Time) : EntryState :=
  if state.edgesCurrent slot.edges then
    if ahead now slot.until_ then .live else .expired
  else .cut

/-- Whether any of the threads was cut after a snapshot, or whether the log can no
longer say. -/
def cutSince (state : CacheState) (threads : ThreadSet) (taken : Nat) : Bool :=
  if threads.items.isEmpty then false
  else if taken < state.horizon then true
  else (state.cuts.reverse.takeWhile fun cut => decide (taken < cut.2)).any fun cut =>
    decide (cut.1 ∈ threads)

/-- Pin threads to the generations they hold. -/
def pin (state : CacheState) (threads : ThreadSet) : List (Thread × Nat) :=
  threads.items.map fun thread => (thread, state.generationOf thread)

/-- Whether an entry or a failure is pinned to a thread. -/
def pinned (state : CacheState) (thread : Thread) : Bool :=
  (state.entries.values.any fun slot => slot.edges.any fun edge => edge.1 == thread) ||
    state.failures.values.any fun slot => slot.edges.any fun edge => edge.1 == thread

/-- Forget the generations of threads nothing is pinned to, past a watermark. -/
def sweepGenerations (state : CacheState) (maxEntries : Nat) : CacheState :=
  if state.generations.length ≤ max (saturatingMul maxEntries 2) 1024 then state
  else { state with generations := state.generations.retain fun thread _ => state.pinned thread }

/-- The facts of every entry. -/
def residents (state : CacheState) : List EntryFacts :=
  state.entries.entries.map fun entry => entry.2.facts entry.1.request

/-- Remove an entry, if it is there, and count it. -/
def evict (state : CacheState) (key : CacheKey) : CacheState :=
  match state.entries.lookup key with
  | none => state
  | some slot =>
    { state with
      entries := state.entries.erase key
      bytes := state.bytes - slot.bytes
      evictions := saturatingAdd state.evictions 1 }

/-- Put an entry under its key, in place of a failure or an earlier entry there. -/
def put (state : CacheState) (key : CacheKey) (slot : Slot) : CacheState :=
  { state with
    failures := state.failures.erase key
    entries := state.entries.insert key slot
    bytes := saturatingAdd
      (match state.entries.lookup key with
        | some replaced => state.bytes - replaced.bytes
        | none => state.bytes)
      slot.bytes }

/-- Count a hit on an entry. -/
def touch (state : CacheState) (key : CacheKey) (slot : Slot) : CacheState :=
  { state with
    tick := state.tick + 1
    entries := state.entries.insert key
      { slot with hits := slot.hits + 1, lastUsedTick := state.tick + 1 } }

end CacheState

/-- The cache: its state, its policy, the published cut counter, and whether it has ever
held a failure. -/
structure ReprCache (π : Type) where
  state : CacheState
  policy : π
  cutSeq : Nat
  failedOnce : Bool

/-- What a lookup found. -/
inductive Served (τ : Type) where
  | hit (answer : τ)
  | offer (stale : Offer)
  | miss
deriving DecidableEq

namespace ReprCache

variable {π τ : Type}

def new (policy : π) : ReprCache π := ⟨.empty, policy, 0, false⟩

/-- The cut history as of now. -/
def snapshot (cache : ReprCache π) : Nat := cache.cutSeq

/-- The one serving path: a valid entry counts a hit when the face can answer from it, an
entry expired by time alone that carries a validator is kept and offered, and any other
stale entry is evicted. -/
def serveOrOffer (cache : ReprCache π) (key : CacheKey) (now : Option Time)
    (face : Slot → Option τ) (offer : Slot → Option Offer) : ReprCache π × Served τ :=
  match cache.state.entries.lookup key with
  | none => (cache, .miss)
  | some entry =>
    match cache.state.stateOf entry now with
    | .live =>
      match face entry with
      | none => (cache, .miss)
      | some answer => ({ cache with state := cache.state.touch key entry }, .hit answer)
    | .cut => ({ cache with state := cache.state.evict key }, .miss)
    | .expired =>
      if entry.representation.validator.isSome then
        match offer entry with
        | none => (cache, .miss)
        | some stale => (cache, .offer stale)
      else ({ cache with state := cache.state.evict key }, .miss)

/-- The buffer face. -/
def get (cache : ReprCache π) (key : CacheKey) (now : Option Time) :
    ReprCache π × Served Representation :=
  cache.serveOrOffer key now (fun entry => entry.representation.copied) fun _ => none

/-- The body face. -/
def getBody (cache : ReprCache π) (key : CacheKey) (now : Option Time) :
    ReprCache π × Served Representation :=
  cache.serveOrOffer key now (fun entry => entry.representation.share) fun _ => none

/-- What the kernel's caller is answered from an entry, under the upstream it was stored
under. -/
def answerFace (buffer : Bool) (incoming : Option Provenance) (entry : Slot) : Option Answer :=
  if entry.incoming ≠ incoming then none
  else
    match if buffer then entry.representation.copied else none with
    | some copy => some (.buffer copy)
    | none => entry.representation.share.map .body

/-- What the endpoint is offered of an expired entry. -/
def offerFace (offer : Bool) (incoming : Option Provenance) (entry : Slot) : Option Offer :=
  if !offer || decide (entry.incoming ≠ incoming) then none
  else
    entry.representation.share.bind fun stored =>
      stored.validator.map fun validator =>
        ⟨⟨validator, stored.reprType⟩, stored, entry.storedTick⟩

/-- `get_answer`, and with `offer` set `get_or_offer`. -/
def lookup (cache : ReprCache π) (key : CacheKey) (now : Option Time) (buffer : Bool)
    (incoming : Option Provenance) (offer : Bool) : ReprCache π × Served Answer :=
  cache.serveOrOffer key now (answerFace buffer incoming) (offerFace offer incoming)

/-- Forget the entry an offer was made from, unless another was stored since. -/
def discard (cache : ReprCache π) (key : CacheKey) (offer : Option Offer) : ReprCache π :=
  match offer with
  | none => cache
  | some offer =>
    if (cache.state.entries.lookup key).any fun entry => entry.storedTick == offer.storedTick then
      { cache with state := cache.state.evict key }
    else cache

/-- Record a cut; its number is published apart. -/
def cut (cache : ReprCache π) (thread : Thread) : ReprCache π :=
  { cache with state := cache.state.recordCut thread }

/-- Publish the cut counter. -/
def publish (cache : ReprCache π) : ReprCache π := { cache with cutSeq := cache.state.seq }

/-- A cut, and what it shows a listener: its number and the dependents. -/
def cutWith (cache : ReprCache π) (thread : Thread) : ReprCache π × Nat × List Dependent :=
  let recorded := cache.cut thread
  (recorded.publish, recorded.state.seq, recorded.state.dependentsBefore thread)

variable [CachePolicy π]

/-- Whether the cache holds more than a bound, in entries or in bytes. -/
def overBound (bound : CacheBound) (state : CacheState) : Bool :=
  decide (bound.maxEntries < state.entries.length) || decide (bound.maxBytes < state.bytes)

/-- One round of eviction, and whether an entry went. -/
def enforceRound (bound : CacheBound) (partitioned : Bool) (cache : ReprCache π) :
    ReprCache π × Bool :=
  if !overBound bound cache.state && !partitioned then (cache, false)
  else
    let facts := cache.state.residents
    let asked := if overBound bound cache.state then (true, cache.policy)
      else CachePolicy.overPartition cache.policy facts
    if !asked.1 then ({ cache with policy := asked.2 }, false)
    else
      let chosen := CachePolicy.victim asked.2 facts
      match chosen.1.bind fun index => cache.state.entries.entries[index]? with
      | none => ({ cache with policy := chosen.2 }, false)
      | some entry => ({ cache with state := cache.state.evict entry.1, policy := chosen.2 }, true)

/-- Evict until the policy's bounds are met, or until it names no victim. A round evicts
one entry or is the last, so one round more than there are entries is enough. -/
def enforceBound (cache : ReprCache π) : ReprCache π :=
  Rounds.rounds
    (enforceRound (CachePolicy.capacity cache.policy) (CachePolicy.partitioned cache.policy))
    (cache.state.entries.length + 1) cache

/-- The facts a candidate is judged by: what its entry would report. -/
def candidateFacts (state : CacheState) (key : CacheKey) (target : Text)
    (representation : Representation) (costMillis : Option Nat) : EntryFacts where
  request := key.request
  target := target
  mediaType := representation.reprType.mediaType
  bytes := bodySize representation.body
  costMillis := costMillis
  hits := 0
  threads := (state.pin representation.threads).length
  storedTick := state.tick + 1
  lastUsedTick := state.tick + 1

/-- Whether storing a candidate under a new key would displace a resident. -/
def displaces (state : CacheState) (bound : CacheBound) (candidate : EntryFacts) : Bool :=
  decide (bound.maxEntries ≤ state.entries.length) ||
    decide (bound.maxBytes < saturatingAdd state.bytes candidate.bytes)

/-- Ask the policy whether a candidate is worth what it would displace. A replacement
displaces only its own key's entry and is not asked. -/
def askContest (state : CacheState) (policy : π) (key : CacheKey) (candidate : EntryFacts) :
    Bool × π :=
  if key ∈ state.entries then (true, policy)
  else if displaces state (CachePolicy.capacity policy) candidate ||
      CachePolicy.partitioned policy then
    CachePolicy.contest policy candidate state.residents
  else (true, policy)

/-- Store a computed representation, saying which decline it was. -/
def storeOutcome (cache : ReprCache π) (key : CacheKey) (target : Text)
    (representation : Representation) (taken : Nat) (costMillis : Option Nat)
    (incoming : Option Provenance) : ReprCache π × Except Declined Unit :=
  if representation.body.isOneShot then (cache, .error .policy)
  else if cache.state.cutSince representation.threads taken then (cache, .error .cutInFlight)
  else
    let edges := cache.state.pin representation.threads
    let candidate := candidateFacts cache.state key target representation costMillis
    let state := { cache.state with tick := cache.state.tick + 1 }
    let admitted := CachePolicy.admits cache.policy candidate
    if !admitted.1 then ({ cache with state := state, policy := admitted.2 }, .error .policy)
    else
      let contested := askContest state admitted.2 key candidate
      if !contested.1 then ({ cache with state := state, policy := contested.2 }, .error .policy)
      else
        match representation.share with
        | none => ({ cache with state := state, policy := contested.2 }, .error .policy)
        | some handle =>
          let entry : Slot :=
            ⟨incoming, target, handle, edges, costMillis, 0, state.tick, state.tick⟩
          let enforced := enforceBound
            { cache with state := state.put key entry, policy := contested.2 }
          ({ enforced with
              state := enforced.state.sweepGenerations
                (CachePolicy.capacity enforced.policy).maxEntries }, .ok ())

/-- The failure that expires soonest. -/
def soonest (failures : KeyedMap CacheKey FailedSlot) : Option CacheKey :=
  (failures.entries.argmin fun entry => entry.2.until_).map Sigma.fst

/-- Store a failure to be served until a time or a cut. -/
def storeFailure (cache : ReprCache π) (key : CacheKey) (target : Text) (error : Error)
    (until_ : Time) (threads : ThreadSet) (taken : Nat) (incoming : Option Provenance) :
    ReprCache π × Except Declined Unit :=
  if cache.state.cutSince threads taken then (cache, .error .cutInFlight)
  else
    let room :=
      if cachedFailures ≤ cache.state.failures.length ∧ key ∉ cache.state.failures then
        match soonest cache.state.failures with
        | some first => cache.state.failures.erase first
        | none => cache.state.failures
      else cache.state.failures
    let slot : FailedSlot := ⟨incoming, target, error, until_, threads, cache.state.pin threads⟩
    ({ cache with
        state := { cache.state with failures := room.insert key slot }
        failedOnce := true }, .ok ())

/-- The failure cached under a key, if it is still to be served; a stale one is
forgotten. -/
def getFailure (cache : ReprCache π) (key : CacheKey) (now : Option Time)
    (incoming : Option Provenance) : ReprCache π × Option CachedFailure :=
  match cache.state.failures.lookup key with
  | none => (cache, none)
  | some slot =>
    match cache.state.failureState slot now with
    | .live =>
      (cache, if slot.incoming = incoming then some ⟨slot.error, slot.until_, slot.threads⟩
        else none)
    | .cut | .expired =>
      ({ cache with
          state := { cache.state with failures := cache.state.failures.erase key } }, none)

end ReprCache

end Ikigai
