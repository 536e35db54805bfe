import Ikigai.Representation

/-!
# Cache policies

Admission and eviction, never validity. A policy sees facts about entries, says whether
a candidate is stored, whether it is worth what it would displace, and which resident
gives way while the cache is over its bound. The policies this crate ships are written
out; a host's own policy is any instance of the class, with whatever state it keeps. The
line a policy describes itself by is left out.
-/

namespace Ikigai

/-- The content-addressed identity of a request. -/
structure RequestId where
  content : Vector UInt8 32
deriving DecidableEq, Repr

/-- What a policy may see about one entry, resident or candidate. -/
structure EntryFacts where
  request : RequestId
  target : Text
  mediaType : Text
  bytes : Nat
  costMillis : Option Nat
  hits : Nat
  threads : Nat
  storedTick : Nat
  lastUsedTick : Nat
deriving DecidableEq, Repr

/-- The ceiling a policy enforces: a count and a byte budget, both hard. -/
structure CacheBound where
  maxEntries : Nat
  maxBytes : Nat
deriving DecidableEq, Repr

/-- Admission and eviction. A call may change what the policy remembers. -/
class CachePolicy (π : Type) where
  capacity : π → CacheBound
  admits : π → EntryFacts → Bool × π
  victim : π → List EntryFacts → Option Nat × π
  contest : π → EntryFacts → List EntryFacts → Bool × π
  partitioned : π → Bool
  overPartition : π → List EntryFacts → Bool × π

/-- The payload total of some entries, saturating. -/
def totalBytes (resident : List EntryFacts) : Nat :=
  resident.foldl (fun total facts => saturatingAdd total facts.bytes) 0

/-- The index of the smallest score; ties take the first. -/
def argmin {β : Type} [LinearOrder β] (resident : List EntryFacts) (score : EntryFacts → β) :
    Option Nat :=
  (resident.zipIdx.argmin fun entry => score entry.1).map Prod.snd

/-- The index of the smallest score among the entries to be considered. -/
def argminAmong {β : Type} [LinearOrder β] (resident : List EntryFacts)
    (keep : EntryFacts → Bool) (score : EntryFacts → β) : Option Nat :=
  ((resident.zipIdx.filter fun entry => keep entry.1).argmin fun entry => score entry.1).map
    Prod.snd

/-- Evict the least recently served entry. -/
def Lru.victim (resident : List EntryFacts) : Option Nat :=
  argmin resident EntryFacts.lastUsedTick

/-- Evict the oldest entry. -/
def Fifo.victim (resident : List EntryFacts) : Option Nat :=
  argmin resident EntryFacts.storedTick

namespace CostAware

/-- A millisecond of compute per KiB held, times one plus the hit count. -/
def density (facts : EntryFacts) : Nat :=
  saturatingMul (saturatingMul (facts.costMillis.getD 0) 1024) (saturatingAdd facts.hits 1) /
    max facts.bytes 1

/-- Evict the entry with the least value per byte; by recency when nothing is measured. -/
def victim (resident : List EntryFacts) : Option Nat :=
  if resident.all fun facts => facts.costMillis.isNone then
    argmin resident EntryFacts.lastUsedTick
  else argmin resident fun facts => toLex (density facts, facts.lastUsedTick)

end CostAware

/-- A count-min sketch of how often each request has been wanted. -/
structure Sketch where
  counters : List Nat
  mask : Nat
  additions : Nat
  sample : Nat
deriving DecidableEq, Repr

namespace Sketch

def maxCount : Nat := 15

def rows : Nat := 4

def width (maxEntries : Nat) : Nat :=
  Nat.nextPowerOfTwo (max 64 (min (saturatingMul maxEntries 4) (4 * 2 ^ 20)))

def new (maxEntries : Nat) : Sketch where
  counters := List.replicate (width maxEntries) 0
  mask := width maxEntries - 1
  additions := 0
  sample := max (saturatingMul maxEntries 10) 64

/-- Eight bytes of the content hash, read little-endian. -/
def word (request : RequestId) (row : Nat) : Nat :=
  ((request.content.toList.drop (row * 8)).take 8).foldr
    (fun byte rest => byte.toNat + 256 * rest) 0

/-- The counter indices for a request, one a row. -/
def cells (sketch : Sketch) (request : RequestId) : List Nat :=
  (List.range rows).map fun row => word request row &&& sketch.mask

def estimate (sketch : Sketch) (request : RequestId) : Nat :=
  (((sketch.cells request).map fun cell => sketch.counters.getD cell 0).min?).getD 0

/-- Count a request, halving every counter once a sample is full. -/
def increment (sketch : Sketch) (request : RequestId) : Sketch :=
  let counted := (sketch.cells request).foldl
    (fun counters cell => counters.modify cell fun count => min (count + 1) maxCount)
    sketch.counters
  if sketch.sample ≤ sketch.additions + 1 then
    { sketch with counters := counted.map (· / 2), additions := 0 }
  else { sketch with counters := counted, additions := sketch.additions + 1 }

end Sketch

/-- Hits per tick resident. -/
structure HitRate where
  hits : Nat
  ticks : Nat
deriving DecidableEq, Repr

namespace HitRate

/-- The rate as the fraction it is. -/
def value (rate : HitRate) : ℚ := rate.hits / rate.ticks

end HitRate

/-- Evict what has not been wanted again, behind a frequency filter. -/
structure ScanResistant where
  bound : CacheBound
  protectedPercent : Nat
  sketch : Sketch
deriving DecidableEq, Repr

namespace ScanResistant

def defaultProtectedPercent : Nat := 80

def withBound (bound : CacheBound) : ScanResistant :=
  ⟨bound, defaultProtectedPercent, Sketch.new bound.maxEntries⟩

def protecting (policy : ScanResistant) (percent : Nat) : ScanResistant :=
  { policy with protectedPercent := max 1 (min percent 99) }

/-- An entry that has been served since it was stored. -/
def isProtected (facts : EntryFacts) : Bool := decide (0 < facts.hits)

def frequency (policy : ScanResistant) (facts : EntryFacts) : Nat :=
  saturatingAdd (policy.sketch.estimate facts.request) facts.hits

/-- The share of a bound that protected entries may hold. -/
def share (policy : ScanResistant) (whole : Nat) : Nat :=
  min (whole * policy.protectedPercent / 100) wordMax

/-- Whether the protected entries hold more than their share. -/
def protectedOver (policy : ScanResistant) (resident : List EntryFacts) : Bool :=
  let held := resident.filter isProtected
  decide (policy.share policy.bound.maxEntries < held.length) ||
    decide (policy.share policy.bound.maxBytes < totalBytes held)

/-- The newest use among the residents. -/
def now (resident : List EntryFacts) : Nat :=
  (resident.map EntryFacts.lastUsedTick).foldl max 0

def rate (resident : List EntryFacts) (facts : EntryFacts) : HitRate :=
  ⟨facts.hits, saturatingAdd (now resident - facts.storedTick) 1⟩

/-- The protected entry served least often for how long it has been resident. -/
def protectedVictim (resident : List EntryFacts) : Option Nat :=
  argminAmong resident isProtected fun facts =>
    toLex ((rate resident facts).value, facts.lastUsedTick)

/-- The least recently served probationary entry while the protected ones hold no more
than their share, else a protected one. -/
def victim (policy : ScanResistant) (resident : List EntryFacts) : Option Nat :=
  match argminAmong resident (fun facts => !isProtected facts) EntryFacts.lastUsedTick with
  | some index =>
    if policy.protectedOver resident then protectedVictim resident else some index
  | none => protectedVictim resident

/-- Count the request, admitted or not. -/
def admits (policy : ScanResistant) (candidate : EntryFacts) : Bool × ScanResistant :=
  (decide (candidate.bytes ≤ policy.bound.maxBytes),
    { policy with sketch := policy.sketch.increment candidate.request })

/-- A candidate displaces a protected victim, or one wanted less often than itself. -/
def contest (policy : ScanResistant) (candidate : EntryFacts) (resident : List EntryFacts) :
    Bool :=
  match (policy.victim resident).bind fun index => resident[index]? with
  | none => true
  | some victim =>
    if isProtected victim then true
    else decide (policy.frequency victim < policy.frequency candidate)

end ScanResistant

/-- The policies without partitions. -/
inductive SimplePolicy where
  | lru (bound : CacheBound)
  | fifo (bound : CacheBound)
  | costAware (bound : CacheBound)
  | scanResistant (policy : ScanResistant)
deriving DecidableEq, Repr

namespace SimplePolicy

def capacity : SimplePolicy → CacheBound
  | .lru bound | .fifo bound | .costAware bound => bound
  | .scanResistant policy => policy.bound

def admits (policy : SimplePolicy) (candidate : EntryFacts) : Bool × SimplePolicy :=
  match policy with
  | .scanResistant counting =>
    ((counting.admits candidate).1, .scanResistant (counting.admits candidate).2)
  | other => (decide (candidate.bytes ≤ other.capacity.maxBytes), other)

def victim (policy : SimplePolicy) (resident : List EntryFacts) : Option Nat :=
  match policy with
  | .lru _ => Lru.victim resident
  | .fifo _ => Fifo.victim resident
  | .costAware _ => CostAware.victim resident
  | .scanResistant counting => counting.victim resident

def contest (policy : SimplePolicy) (candidate : EntryFacts) (resident : List EntryFacts) :
    Bool :=
  match policy with
  | .scanResistant counting => counting.contest candidate resident
  | .lru _ | .fifo _ | .costAware _ => true

end SimplePolicy

/-- Separate budgets per name prefix, each prefix given once, and one for the rest. -/
structure Partitioned where
  partitions : List (Text × SimplePolicy)
  rest : SimplePolicy
  distinct : (partitions.map Prod.fst).Nodup
deriving DecidableEq, Repr

namespace Partitioned

def new (rest : SimplePolicy) : Partitioned := ⟨[], rest, List.nodup_nil⟩

/-- The same policy with one more partition; a prefix given twice keeps the first. -/
def partition (policy : Partitioned) (head : Text) (inner : SimplePolicy) : Partitioned :=
  if given : policy.partitions.any fun entry => entry.1 == head then policy
  else
    { policy with
      partitions := policy.partitions ++ [(head, inner)]
      distinct := by
        rw [List.map_append]
        refine List.nodup_append.mpr ⟨policy.distinct, List.nodup_singleton head, ?_⟩
        rintro other inside _ (_ | ⟨_, ⟨⟩⟩) rfl
        obtain ⟨entry, member, same⟩ := List.mem_map.mp inside
        exact given (List.any_eq_true.mpr ⟨entry, member, beq_iff_eq.mpr same⟩) }

/-- The partition a target belongs to: the longest prefix it starts with, else the rest. -/
def partitionOf (policy : Partitioned) (target : Text) : Nat :=
  match ((policy.partitions.map Prod.fst).zipIdx.filter fun given =>
      target.startsWith given.1).argmax fun given => given.1.byteLen with
  | some given => given.2
  | none => policy.partitions.length

def policyOf (policy : Partitioned) (partition : Nat) : SimplePolicy :=
  match policy.partitions[partition]? with
  | some given => given.2
  | none => policy.rest

/-- The residents of one partition, with their indices. -/
def members (policy : Partitioned) (partition : Nat) (resident : List EntryFacts) :
    List (EntryFacts × Nat) :=
  resident.zipIdx.filter fun entry => policy.partitionOf entry.1.target == partition

/-- How far some members are over their partition's bound, in bytes and entries. -/
def overflow (policy : Partitioned) (partition : Nat) (members : List EntryFacts) :
    Option (Nat × Nat) :=
  let bound := (policy.policyOf partition).capacity
  let bytes := totalBytes members
  if bound.maxEntries < members.length ∨ bound.maxBytes < bytes then
    some (bytes - bound.maxBytes, members.length - bound.maxEntries)
  else none

/-- The sum of the partitions' bounds and the rest's. -/
def capacity (policy : Partitioned) : CacheBound :=
  policy.partitions.foldl
    (fun total given =>
      ⟨saturatingAdd total.maxEntries given.2.capacity.maxEntries,
        saturatingAdd total.maxBytes given.2.capacity.maxBytes⟩)
    policy.rest.capacity

/-- The same policy with one partition's own policy in a new state. -/
def updated (policy : Partitioned) (partition : Nat) (inner : SimplePolicy) : Partitioned :=
  if partition < policy.partitions.length then
    { policy with
      partitions := policy.partitions.modify partition fun given => (given.1, inner)
      distinct := by
        have names : (policy.partitions.modify partition fun given => (given.1, inner)).map Prod.fst =
            policy.partitions.map Prod.fst := by
          apply List.ext_getElem?
          intro index
          rw [List.getElem?_map, List.getElem?_map, List.getElem?_modify]
          cases policy.partitions[index]? with
          | none => rfl
          | some given => by_cases here : partition = index <;> simp [here]
        rw [names]
        exact policy.distinct }
  else { policy with rest := inner }

def admits (policy : Partitioned) (candidate : EntryFacts) : Bool × Partitioned :=
  let partition := policy.partitionOf candidate.target
  let inner := (policy.policyOf partition).admits candidate
  (inner.1, policy.updated partition inner.2)

/-- The partitions that are over their bounds, each with its overflow. -/
def overflowing (policy : Partitioned) (resident : List EntryFacts) :
    List (Nat × (Nat × Nat)) :=
  (List.range (policy.partitions.length + 1)).filterMap fun partition =>
    (policy.overflow partition ((policy.members partition resident).map Prod.fst)).map
      fun excess => (partition, excess)

/-- The partition furthest over its own bound gives up an entry, chosen by its own
policy among its own entries. -/
def victim (policy : Partitioned) (resident : List EntryFacts) : Option Nat :=
  match (policy.overflowing resident).argmax
      fun entry => toLex (toLex entry.2, OrderDual.toDual entry.1) with
  | none => none
  | some (partition, _) =>
    let members := policy.members partition resident
    ((policy.policyOf partition).victim (members.map Prod.fst)).bind fun chosen =>
      members[chosen]?.map Prod.snd

/-- A candidate that fits its partition displaces nobody; else its policy decides. -/
def contest (policy : Partitioned) (candidate : EntryFacts) (resident : List EntryFacts) :
    Bool :=
  let partition := policy.partitionOf candidate.target
  let inner := policy.policyOf partition
  let members := (policy.members partition resident).map Prod.fst
  let bytes := members.foldl (fun total facts => saturatingAdd total facts.bytes) candidate.bytes
  if members.length < inner.capacity.maxEntries ∧ bytes ≤ inner.capacity.maxBytes then true
  else inner.contest candidate members

/-- Whether any partition is over its bound. -/
def overPartition (policy : Partitioned) (resident : List EntryFacts) : Bool :=
  (List.range (policy.partitions.length + 1)).any fun partition =>
    (policy.overflow partition ((policy.members partition resident).map Prod.fst)).isSome

end Partitioned

/-- The policies this crate ships. -/
inductive ShippedPolicy where
  | simple (policy : SimplePolicy)
  | partitioned (policy : Partitioned)
deriving DecidableEq, Repr

instance : CachePolicy ShippedPolicy where
  capacity
    | .simple policy => policy.capacity
    | .partitioned policy => policy.capacity
  admits
    | .simple policy, candidate =>
      ((policy.admits candidate).1, .simple (policy.admits candidate).2)
    | .partitioned policy, candidate =>
      ((policy.admits candidate).1, .partitioned (policy.admits candidate).2)
  victim
    | .simple policy, resident => (policy.victim resident, .simple policy)
    | .partitioned policy, resident => (policy.victim resident, .partitioned policy)
  contest
    | .simple policy, candidate, resident =>
      (policy.contest candidate resident, .simple policy)
    | .partitioned policy, candidate, resident =>
      (policy.contest candidate resident, .partitioned policy)
  partitioned
    | .simple _ => false
    | .partitioned _ => true
  overPartition
    | .simple policy, _ => (false, .simple policy)
    | .partitioned policy, resident => (policy.overPartition resident, .partitioned policy)

end Ikigai
