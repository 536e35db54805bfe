import Ikigai.CacheMeasures
import Ikigai.PolicyChoice

/-!
# A scan leaves the protected entries alone

While the entries that have been served hold no more than their share, the cache is over its
bound only if something else is resident, and then that is what gives way. Storing what is
not resident adds nothing to the protected entries, so no scan of any length evicts one.
-/

namespace Ikigai

open CacheState

namespace CacheState

/-- The facts of the entries that have been served since they were stored. -/
def protectedFacts (state : CacheState) : List EntryFacts :=
  state.residents.filter ScanResistant.isProtected

/-- The protected entries hold at most the policy's percentage of either half of its bound. -/
structure ProtectedWithin (policy : ScanResistant) (state : CacheState) : Prop where
  entries : state.protectedFacts.length * 100 ≤ policy.bound.maxEntries * policy.protectedPercent
  bytes : (state.protectedFacts.map EntryFacts.bytes).sum * 100 ≤
    policy.bound.maxBytes * policy.protectedPercent

/-- Nothing protected was added. -/
theorem ProtectedWithin.of_perm {policy : ScanResistant} {state after : CacheState}
    (within : state.ProtectedWithin policy)
    (same : after.protectedFacts.Perm state.protectedFacts) : after.ProtectedWithin policy where
  entries := by
    rw [same.length_eq]
    exact within.entries
  bytes := by
    rw [(same.map _).sum_eq]
    exact within.bytes

/-- What is held is what the residents hold together. -/
theorem held_bytes_residents (state : CacheState) :
    state.heldBytes = (state.residents.map EntryFacts.bytes).sum := by
  rw [heldBytes, residents, List.map_map]
  rfl

/-- Evicting an entry that was never served leaves the protected ones. -/
theorem protected_evict (state : CacheState) (key : CacheKey) (slot : Slot)
    (held : state.entries.lookup key = some slot) (unserved : slot.hits = 0) :
    (state.evict key).protectedFacts.Perm state.protectedFacts := by
  have perm := ((KeyedMap.entries_perm_erase state.entries key slot held).map
    fun entry => entry.2.facts entry.1.request).filter ScanResistant.isProtected
  rw [List.map_cons, List.filter_cons,
    if_neg (by simp [ScanResistant.isProtected, Slot.facts, unserved])]
    at perm
  rw [protectedFacts, residents, entries_evict]
  exact perm.symm

/-- So does putting one that was not served yet. -/
theorem protected_put (state : CacheState) (key : CacheKey) (slot : Slot)
    (absent : state.entries.lookup key = none) (unserved : slot.hits = 0) :
    (state.put key slot).protectedFacts = state.protectedFacts := by
  rw [protectedFacts, residents, protectedFacts, residents, CacheState.put]
  dsimp only
  rw [AList.entries_insert, List.map_cons, List.filter_cons,
    if_neg (by simp [ScanResistant.isProtected, Slot.facts, unserved])]
  have kept := KeyedMap.erase_of_lookup_none state.entries key absent
  have entries := congrArg AList.entries kept
  exact congrArg (fun items : List (Sigma fun _ : CacheKey => Slot) =>
    (items.map fun entry => entry.2.facts entry.1.request).filter ScanResistant.isProtected) entries

end CacheState

namespace ScanResistant

/-- A percentage a policy can be built with. -/
theorem protecting_percent (policy : ScanResistant) (percent : Nat) :
    (policy.protecting percent).protectedPercent ≤ 99 := by
  rw [protecting]
  dsimp only
  omega

/-- Protected entries within their share are not over it. -/
theorem not_protected_over (policy : ScanResistant) (state : CacheState)
    (word : policy.bound.maxEntries ≤ wordMax) (percent : policy.protectedPercent ≤ 99)
    (within : state.ProtectedWithin policy) : policy.protectedOver state.residents = false := by
  have entries := within.entries
  have bytes := within.bytes
  have total := total_bytes_eq state.protectedFacts
  rw [protectedFacts] at entries bytes total
  rw [protectedOver, Bool.or_eq_false_iff, decide_eq_false_iff_not, decide_eq_false_iff_not, share,
    share, total]
  have fewer : policy.bound.maxEntries * policy.protectedPercent ≤ policy.bound.maxEntries * 99 :=
    Nat.mul_le_mul_left _ percent
  omega

/-- A cache over its bound whose protected entries are within their share holds another entry. -/
theorem exists_probationary (policy : ScanResistant) (state : CacheState)
    (percent : policy.protectedPercent ≤ 99) (measured : Measured state)
    (within : state.ProtectedWithin policy)
    (exceeded : ReprCache.overBound policy.bound state = true) :
    ∃ facts ∈ state.residents, isProtected facts = false := by
  by_contra every
  have all : state.protectedFacts = state.residents := by
    rw [protectedFacts, List.filter_eq_self]
    intro facts member
    by_contra unserved
    exact every ⟨facts, member, Bool.eq_false_iff.mpr unserved⟩
  have entries := within.entries
  have bytes := within.bytes
  rw [all] at entries bytes
  rw [← held_bytes_residents] at bytes
  have count : state.residents.length = state.entries.length := by
    rw [residents, List.length_map]
    rfl
  have held := measured.bytes
  have fewer : policy.bound.maxEntries * policy.protectedPercent ≤ policy.bound.maxEntries * 99 :=
    Nat.mul_le_mul_left _ percent
  have fewer' : policy.bound.maxBytes * policy.protectedPercent ≤ policy.bound.maxBytes * 99 :=
    Nat.mul_le_mul_left _ percent
  rw [ReprCache.overBound, Bool.or_eq_true, decide_eq_true_eq, decide_eq_true_eq] at exceeded
  omega

end ScanResistant

namespace ReprCache

/-- The policy of a cache, whatever its sketch has counted. -/
def Counts (policy : ScanResistant) (current : ShippedPolicy) : Prop :=
  ∃ sketch, current = .simple (.scanResistant { policy with sketch := sketch })

/-- What a scan keeps: the policy, ticks and bytes as they are measured, the protected entries'
share, and every protected entry of the start. -/
structure Guarded (policy : ScanResistant) (start : CacheState) (cache : ReprCache ShippedPolicy) :
    Prop where
  counts : Counts policy cache.policy
  measured : Measured cache.state
  within : cache.state.ProtectedWithin policy
  kept : ∀ key slot, start.entries.lookup key = some slot → 0 < slot.hits →
    cache.state.entries.lookup key = some slot

/-- A round of eviction takes an entry that was not served. -/
theorem Guarded.round {policy : ScanResistant} {start : CacheState}
    {cache : ReprCache ShippedPolicy} (word : policy.bound.maxEntries ≤ wordMax)
    (percent : policy.protectedPercent ≤ 99) (guarded : Guarded policy start cache) :
    Guarded policy start (enforceRound policy.bound false cache).1 := by
  obtain ⟨sketch, current⟩ := guarded.counts
  have over_same : ∀ resident, ({ policy with sketch := sketch } : ScanResistant).protectedOver
      resident = policy.protectedOver resident := fun _ => rfl
  by_cases exceeded : overBound policy.bound cache.state = true
  · obtain ⟨facts, member, unserved⟩ :=
      policy.exists_probationary cache.state percent guarded.measured guarded.within exceeded
    have settled := policy.not_protected_over cache.state word percent guarded.within
    obtain ⟨index, chosen, victim, placed, kind⟩ :=
      ({ policy with sketch := sketch } : ScanResistant).victim_cases cache.state.residents
        (List.ne_nil_of_mem member)
    have probationary : ScanResistant.isProtected chosen = false := by
      rcases kind with ⟨unserved, _⟩ | ⟨_, every | every, _⟩
      · exact unserved
      · rw [over_same, settled] at every
        cases every
      · rw [every facts member] at unserved
        cases unserved
    rw [CacheState.residents, List.getElem?_map, Option.map_eq_some_iff] at placed
    obtain ⟨entry, found, rfl⟩ := placed
    have round : enforceRound policy.bound false cache =
        ({ cache with state := cache.state.evict entry.1 }, true) := by
      have chooses : CachePolicy.victim cache.policy cache.state.residents =
          (some index, cache.policy) := by
        rw [current]
        exact Prod.ext victim rfl
      simp only [enforceRound, exceeded, chooses, Bool.not_true, Bool.false_and, Bool.false_eq_true,
        if_false, if_true, Option.bind_some, found]
    have unserved : entry.2.hits = 0 := Nat.eq_zero_of_not_pos (of_decide_eq_false probationary)
    have held := (KeyedMap.mem_entries_iff cache.state.entries entry.1 entry.2).mp
      (List.mem_of_getElem? found)
    rw [round]
    refine ⟨guarded.counts, guarded.measured.evict entry.1,
      guarded.within.of_perm (protected_evict _ _ _ held unserved), ?_⟩
    intro key slot there served
    have stood := guarded.kept key slot there served
    rw [lookup_evict, if_neg, stood]
    rintro rfl
    rw [held, Option.some.injEq] at stood
    subst stood
    omega
  · have round : enforceRound policy.bound false cache = (cache, false) := by
      simp only [enforceRound, exceeded, Bool.not_false, Bool.and_self, if_true]
    rw [round]
    exact guarded

/-- Counting a request keeps the policy counting as it did. -/
theorem counts_admits {policy : ScanResistant} {current : ShippedPolicy} (candidate : EntryFacts)
    (counts : Counts policy current) : Counts policy (CachePolicy.admits current candidate).2 := by
  obtain ⟨sketch, rfl⟩ := counts
  exact ⟨sketch.increment candidate.request, rfl⟩

/-- So does a contest between a candidate and the residents. -/
theorem counts_contest {policy : ScanResistant} {current : ShippedPolicy} (candidate : EntryFacts)
    (resident : List EntryFacts) (counts : Counts policy current) :
    Counts policy (CachePolicy.contest current candidate resident).2 := by
  obtain ⟨sketch, rfl⟩ := counts
  exact ⟨sketch, rfl⟩

/-- Nothing the cache asks of the policy changes more than its sketch. -/
theorem counts_perform {policy : ScanResistant} (cache : ReprCache ShippedPolicy) (op : CacheOp)
    (counts : Counts policy cache.policy) : Counts policy (cache.perform op).1.policy := by
  refine perform_policy (Counts policy) (fun _ => counts_admits) (fun _ => counts_contest) ?_ ?_
    cache op counts
  · rintro _ resident ⟨sketch, rfl⟩
    exact ⟨sketch, rfl⟩
  · rintro _ resident ⟨sketch, rfl⟩
    exact ⟨sketch, rfl⟩

/-- A store under a new key leaves every protected entry where it was. -/
theorem Guarded.store {policy : ScanResistant} {start : CacheState}
    {cache : ReprCache ShippedPolicy} (word : policy.bound.maxEntries ≤ wordMax)
    (percent : policy.protectedPercent ≤ 99) (guarded : Guarded policy start cache)
    (key : CacheKey) (target : Text) (representation : Representation) (taken : Nat)
    (costMillis : Option Nat) (incoming : Option Provenance)
    (absent : cache.state.entries.lookup key = none) :
    Guarded policy start
      (cache.perform (.store key target representation taken costMillis incoming)).1 := by
  have counts := counts_perform cache
    (.store key target representation taken costMillis incoming) guarded.counts
  have measured := measured_perform cache
    (.store key target representation taken costMillis incoming) guarded.measured
  rcases store_outcome_cases cache key target representation taken costMillis incoming with
    ⟨tick, remembers, declined, _, _, outcome⟩ | ⟨remembers, enforced, _, _, _, asked, rfl, outcome⟩
  · refine ⟨counts, measured, ?_, ?_⟩ <;> simp only [perform, outcome]
    · exact guarded.within.of_perm (List.Perm.refl _)
    · exact guarded.kept
  · have remembered : Counts policy remembers := by
      have admitted := counts_admits
        (candidateFacts cache.state key target representation costMillis) guarded.counts
      have contested : Counts policy (askContest cache.state (CachePolicy.admits cache.policy
          (candidateFacts cache.state key target representation costMillis)).2 key
            (candidateFacts cache.state key target representation costMillis)).2 := by
        rw [askContest]
        split
        · exact admitted
        · split
          · exact counts_contest _ _ admitted
          · exact admitted
      rwa [asked] at contested
    let slot := freshSlot cache.state target representation costMillis incoming
    have filed : Guarded policy start (cache.filed remembers key slot) := by
      refine ⟨remembered, guarded.measured.put key slot rfl rfl, ?_, ?_⟩
      · refine guarded.within.of_perm (List.Perm.of_eq ?_)
        exact protected_put { cache.state with tick := cache.state.tick + 1 } key slot absent rfl
      · intro other found there served
        have stood := guarded.kept other found there served
        simp only [ReprCache.filed, CacheState.put, KeyedMap.lookup_insert_eq]
        rw [if_neg, stood]
        rintro rfl
        rw [absent] at stood
        cases stood
    have settled : Guarded policy start (enforceBound (cache.filed remembers key slot)) := by
      obtain ⟨sketch, rfl⟩ := remembered
      exact Rounds.rounds_keep (Guarded policy start)
        (fun after holds => Guarded.round word percent holds) _ _ filed
    have swept : ∀ most, (((enforceBound (cache.filed remembers key slot)).state.sweepGenerations
        most).entries) = (enforceBound (cache.filed remembers key slot)).state.entries := by
      intro most
      rw [sweepGenerations]
      split <;> rfl
    refine ⟨counts, measured, ?_, ?_⟩ <;> simp only [perform, outcome]
    · refine settled.within.of_perm (List.Perm.of_eq ?_)
      rw [protectedFacts, residents, protectedFacts, residents, swept]
    · rw [swept]
      exact settled.kept

/-- Stores, each under a key that is not resident when it is stored. -/
def Scans : ReprCache ShippedPolicy → List CacheOp → Prop
  | _, [] => True
  | cache, op :: rest =>
    (∃ key target representation taken costMillis incoming,
      op = .store key target representation taken costMillis incoming ∧
        cache.state.entries.lookup key = none) ∧ Scans (cache.perform op).1 rest

/-- A scan of entries that are never served again guards the protected ones. -/
theorem Guarded.scan {policy : ScanResistant} {start : CacheState} {cache : ReprCache ShippedPolicy}
    (word : policy.bound.maxEntries ≤ wordMax) (percent : policy.protectedPercent ≤ 99)
    (guarded : Guarded policy start cache) (front rest : List CacheOp)
    (scans : cache.Scans (front ++ rest)) :
    Guarded policy start (front.foldl (fun cache op => (cache.perform op).1) cache) := by
  induction front generalizing cache with
  | nil => exact guarded
  | cons op front ih =>
    obtain ⟨⟨key, target, representation, taken, costMillis, incoming, rfl, absent⟩, further⟩ := scans
    exact ih (guarded.store word percent key target representation taken costMillis incoming absent)
      further

/-- In every run the policy counts as it was built to. -/
theorem counts_after (policy : ScanResistant) (ops : List CacheOp) :
    Counts policy (after (.simple (.scanResistant policy) : ShippedPolicy) ops).policy := by
  induction ops using List.reverseRecOn with
  | nil => exact ⟨policy.sketch, rfl⟩
  | append_singleton ops op ih =>
    rw [after_concat]
    exact counts_perform _ op ih

/-- A scan-resistant policy over a bound, as it is built. -/
def guarding (bound : CacheBound) (percent : Nat) : ShippedPolicy :=
  .simple (.scanResistant ((ScanResistant.withBound bound).protecting percent))

/-- A scan evicts no protected entry: from any state a scan-resistant cache reaches in which the
protected entries hold no more than their share, an entry that has been served stays as it is
through every store of a scan. -/
theorem scan_keeps_protected (bound : CacheBound) (percent : Nat)
    (word : bound.maxEntries ≤ wordMax) (ops scan : List CacheOp)
    (within : ProtectedWithin ((ScanResistant.withBound bound).protecting percent)
      (after (guarding bound percent) ops).state)
    (scans : (after (guarding bound percent) ops).Scans scan) (key : CacheKey) (slot : Slot)
    (held : (after (guarding bound percent) ops).state.entries.lookup key = some slot)
    (served : 0 < slot.hits) (front rest : List CacheOp) (reached : scan = front ++ rest) :
    (after (guarding bound percent) (ops ++ front)).state.entries.lookup key = some slot := by
  subst reached
  have guarded : Guarded ((ScanResistant.withBound bound).protecting percent)
      (after (guarding bound percent) ops).state (after (guarding bound percent) ops) :=
    ⟨counts_after _ ops, measured_after _ ops, within, fun _ _ there _ => there⟩
  have through := guarded.scan word (ScanResistant.protecting_percent _ percent) front rest scans
  have joined : after (guarding bound percent) (ops ++ front) =
      front.foldl (fun cache op => (cache.perform op).1) (after (guarding bound percent) ops) :=
    List.foldl_append
  rw [joined]
  exact through.kept key slot held served

end ReprCache

namespace ScanExample

open ReprCache

def key (content : UInt8) : CacheKey := ⟨⟨Vector.replicate 32 content⟩, 0, 0⟩

def answer (data : List UInt8) : Representation where
  reprType := ⟨"text/plain".toList, []⟩
  body := .bytes data
  expiry := .never
  threads := .empty
  validator := none
  revalidated := false

def store (content : UInt8) : CacheOp :=
  .store (key content) "urn:page".toList (answer [content]) 0 none none

/-- One page is stored and read again. -/
def run : List CacheOp := [store 1, .getBody (key 1) none]

/-- Two other pages, the second asked for twice: it displaces the first. -/
def scan : List CacheOp := [store 2, store 3, store 3]

def hot : Slot := ⟨none, "urn:page".toList, answer [1], [], none, 1, 1, 2⟩

/-- The example's hot page is there after a scan of as many others. -/
theorem hot_page_stays :
    (after (guarding ⟨2, 100⟩ 80) (run ++ scan)).state.entries.lookup (key 1) = some hot :=
  scan_keeps_protected ⟨2, 100⟩ 80 (by decide) run scan
    ⟨by decide, by decide⟩
    ⟨⟨key 2, _, _, _, _, _, rfl, by decide⟩,
      ⟨key 3, _, _, _, _, _, rfl, by decide⟩,
      ⟨key 3, _, _, _, _, _, rfl, by with_unfolding_all decide⟩, trivial⟩
    (key 1) hot (by decide) (by decide) scan [] (by rfl)

end ScanExample

end Ikigai
