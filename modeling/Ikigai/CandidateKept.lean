import Ikigai.GivingWay
import Ikigai.PartitionBounds

/-!
# Whether a stored candidate is kept

A store that the policy takes files its candidate and then enforces the bound, which may
evict the candidate it has just filed. It stays exactly if it fits beside the residents its
policy gives up only after it. A declined store removes nothing.
-/

namespace Ikigai

open CacheState

/-- A key with what is held under it. -/
abbrev Entry := (_ : CacheKey) × Slot

/-- The facts of an entry. -/
def factsOf (entry : Entry) : EntryFacts := entry.2.facts entry.1.request

/-- The bytes of some entries. -/
def weight (entries : List Entry) : Nat := (entries.map fun entry => entry.2.bytes).sum

/-- Entries weigh the first of them and the rest. -/
theorem weight_cons (entry : Entry) (rest : List Entry) :
    weight (entry :: rest) = entry.2.bytes + weight rest := by
  rw [weight, List.map_cons, List.sum_cons]
  rfl

/-- What entries weigh does not depend on their order. -/
theorem weight_perm {entries other : List Entry} (perm : entries.Perm other) :
    weight entries = weight other := (perm.map _).sum_eq

/-- A list can be put in strict order of a score that tells its items apart. -/
theorem exists_sorted {α β : Type} [LinearOrder β] (score : α → β) (items : List α)
    (nodup : items.Nodup)
    (apart : ∀ item ∈ items, ∀ other ∈ items, score item = score other → item = other) :
    ∃ sorted : List α, items.Perm sorted ∧
      sorted.Pairwise fun item other => score item < score other := by
  let sorted := items.insertionSort fun item other => score item ≤ score other
  have perm : items.Perm sorted := (List.perm_insertionSort _ items).symm
  have ordered : sorted.Pairwise fun item other => score item ≤ score other :=
    List.pairwise_insertionSort (fun item other => score item ≤ score other) items
  refine ⟨sorted, perm, ?_⟩
  refine (ordered.and (perm.nodup_iff.mp nodup)).imp_of_mem ?_
  rintro item other inside inside' ⟨le, different⟩
  refine lt_of_le_of_ne le fun same => different ?_
  exact apart item (perm.mem_iff.mpr inside) other (perm.mem_iff.mpr inside') same

/-- The entries a policy chooses among when one has just joined them. -/
structure Joined (home : List Entry) (item : Entry) : Prop where
  nodup : home.Nodup
  apart : ∀ entry ∈ home, ∀ other ∈ home,
    factsOf entry ≠ factsOf other ∧ (factsOf entry).lastUsedTick ≠ (factsOf other).lastUsedTick ∧
      (factsOf entry).storedTick ≠ (factsOf other).storedTick ∨ entry = other
  newest : Newest (home.map factsOf) (factsOf item)
  held : item ∈ home

/-- The entries in the order they give way in, with the one that joined marked. -/
structure Ordered (inner : SimplePolicy) (home ahead : List Entry) (item : Entry)
    (behind : List Entry) : Prop where
  perm : home.Perm (ahead ++ item :: behind)
  sorted : (ahead ++ item :: behind).Pairwise fun entry other =>
    inner.score (home.map factsOf) (factsOf entry) < inner.score (home.map factsOf) (factsOf other)

namespace Joined

variable {home : List Entry} {item : Entry}

/-- Entries of one cache are told apart by what the policy sees of them. -/
theorem facts_inj (joined : Joined home item) {entry other : Entry} (inside : entry ∈ home)
    (inside' : other ∈ home) (same : factsOf entry = factsOf other) : entry = other := by
  rcases joined.apart entry inside other inside' with ⟨different, _⟩ | same_entry
  · exact absurd same different
  · exact same_entry

/-- So they are seen once each. -/
theorem facts_nodup (joined : Joined home item) {left : List Entry} (nodup : left.Nodup)
    (subset : left ⊆ home) : (left.map factsOf).Nodup :=
  nodup.map_on fun _ inside _ inside' same =>
    joined.facts_inj (subset inside) (subset inside') same

/-- The entries of a cache can be put in the policy's order, with the candidate in its place. -/
theorem exists_order (joined : Joined home item) (inner : SimplePolicy) :
    ∃ ahead behind, Ordered inner home ahead item behind := by
  obtain ⟨sorted, perm, ordered⟩ := exists_sorted
    (fun entry => inner.score (home.map factsOf) (factsOf entry)) home joined.nodup (by
      intro entry inside other inside' same
      rcases joined.apart entry inside other inside' with ⟨_, used, stored⟩ | same_entry
      · rcases score_apart inner _ _ _ same with tick | tick
        · exact absurd tick used
        · exact absurd tick stored
      · exact same_entry)
  obtain ⟨ahead, behind, rfl⟩ := List.append_of_mem (perm.mem_iff.mp joined.held)
  exact ⟨ahead, behind, perm, ordered⟩

/-- While the candidate is held, the policy's victim is the first in the order. -/
theorem first_goes (joined : Joined home item) {inner : SimplePolicy}
    {ahead behind : List Entry} (ordered : Ordered inner home ahead item behind)
    {skipped rest : List Entry} {first : Entry}
    (suffix : skipped ++ first :: rest = ahead ++ item :: behind) (held : item ∈ first :: rest)
    {resident : List EntryFacts} (left : resident.Perm ((first :: rest).map factsOf)) :
    ∃ index, inner.victim resident = some index ∧ resident[index]? = some (factsOf first) := by
  obtain ⟨perm, sorted⟩ := ordered
  rw [← suffix] at perm sorted
  obtain ⟨_, later, crossing⟩ := List.pairwise_append.mp sorted
  have within : first :: rest ⊆ home := fun entry inside =>
    perm.mem_iff.mpr (List.mem_append_right skipped inside)
  have nodup : (first :: rest).Nodup :=
    (List.nodup_append.mp (perm.nodup_iff.mp joined.nodup)).2.1
  obtain ⟨index, victim, chosen, placed, least⟩ := victim_least inner (home.map factsOf) resident
    (factsOf item) joined.newest (joined.facts_nodup joined.nodup fun _ inside => inside)
    (left.nodup_iff.mpr (joined.facts_nodup nodup within))
    (left.mem_iff.mpr (List.mem_map_of_mem held))
    (by
      intro facts inside
      obtain ⟨entry, member, rfl⟩ := List.mem_map.mp (left.mem_iff.mp inside)
      exact List.mem_map_of_mem (within member))
    (by
      -- What has gone already was before everything that is left.
      intro facts inside other there above
      obtain ⟨entry, member, rfl⟩ := List.mem_map.mp (left.mem_iff.mp inside)
      obtain ⟨gone, member', rfl⟩ := List.mem_map.mp there
      rcases List.mem_append.mp (perm.mem_iff.mp member') with before | stays
      · exact absurd (crossing gone before entry member) (not_lt_of_ge above)
      · exact left.mem_iff.mpr (List.mem_map_of_mem stays))
  obtain ⟨entry, member, rfl⟩ := List.mem_map.mp (left.mem_iff.mp (List.mem_of_getElem? placed))
  have below := least (factsOf first) (left.mem_iff.mpr (List.mem_map_of_mem List.mem_cons_self))
  rcases List.mem_cons.mp member with rfl | further
  · exact ⟨index, chosen, placed⟩
  · exact absurd ((List.pairwise_cons.mp later).1 entry further) (not_lt_of_ge below)

end Joined

/-- The entries of a state that belong somewhere. -/
def homeOf (belongs : Entry → Bool) (state : CacheState) : List Entry :=
  state.entries.entries.filter belongs

namespace CacheState

/-- Evicting an entry takes it, and it alone, out of where it belongs. -/
theorem home_evict (belongs : Entry → Bool) (state : CacheState) (first : Entry)
    (rest : List Entry) (held : (homeOf belongs state).Perm (first :: rest)) :
    (homeOf belongs (state.evict first.1)).Perm rest := by
  have inside : first ∈ homeOf belongs state := held.mem_iff.mpr List.mem_cons_self
  obtain ⟨there, own⟩ := List.mem_filter.mp inside
  have perm := (KeyedMap.entries_perm_erase state.entries first.1 first.2
    ((KeyedMap.mem_entries_iff state.entries first.1 first.2).mp there)).filter belongs
  rw [List.filter_cons, if_pos own] at perm
  rw [homeOf, entries_evict]
  exact (perm.symm.trans held).cons_inv

end CacheState

/-- What holds of a loop of evictions at every step: what is left of home is listed, in the
order it goes in, and a side condition. -/
structure Draining (belongs : Entry → Bool) (cache : ReprCache ShippedPolicy)
    (side : ReprCache ShippedPolicy → List Entry → Prop) (after : ReprCache ShippedPolicy)
    (left : List Entry) : Prop where
  trims : Trims cache.state after.state
  listed : (homeOf belongs after.state).Perm left
  side : side after left

/-- A loop that evicts, from where a candidate has just been filed, what the policy gives
up first, for as long as there is too much: the candidate stays exactly if there is not too
much of it and what comes after it. -/
theorem stays_iff_of_rounds (round : ReprCache ShippedPolicy → ReprCache ShippedPolicy × Bool)
    (belongs : Entry → Bool) (inner : SimplePolicy) (excess : List Entry → Prop)
    (side : ReprCache ShippedPolicy → List Entry → Prop) (cache : ReprCache ShippedPolicy)
    {ahead behind : List Entry} {item : Entry}
    (joined : Joined (homeOf belongs cache.state) item)
    (ordered : Ordered inner (homeOf belongs cache.state) ahead item behind)
    (named : ∀ key slot other, slot.target = other.target → belongs ⟨key, slot⟩ = belongs ⟨key, other⟩)
    (trims : ∀ after : ReprCache ShippedPolicy, Trims after.state (round after).1.state)
    (grows : ∀ other rest, excess rest → excess (other :: rest))
    (stops : ∀ after left, Draining belongs cache side after left → ¬excess left →
      round after = (after, false))
    (gives : ∀ after first rest, Draining belongs cache side after (first :: rest) →
      excess (first :: rest) →
      (∃ index, inner.victim ((homeOf belongs after.state).map factsOf) = some index ∧
        ((homeOf belongs after.state).map factsOf)[index]? = some (factsOf first)) →
      (∀ entry ∈ homeOf belongs after.state, factsOf entry = factsOf first → entry = first) →
        round after = ({ after with state := after.state.evict first.1 }, true) ∧
          side { after with state := after.state.evict first.1 } rest)
    (count : Nat) (enough : cache.state.entries.length < count)
    (start : side cache (ahead ++ item :: behind)) :
    (Rounds.rounds round count cache).state.entries.lookup item.1 = some item.2 ↔
      ¬excess (item :: behind) := by
  have own : belongs item = true := (List.mem_filter.mp joined.held).2
  -- The list shown is always the tail of the order that is still there.
  let shows : ReprCache ShippedPolicy → List Entry → Prop := fun after left =>
    Draining belongs cache side after left ∧ ∃ skipped, skipped ++ left = ahead ++ item :: behind
  have within : ∀ {left : List Entry}, (∃ skipped, skipped ++ left = ahead ++ item :: behind) →
      left ⊆ homeOf belongs cache.state := by
    rintro left ⟨skipped, suffix⟩ entry inside
    exact ordered.perm.mem_iff.mpr (suffix ▸ List.mem_append_right skipped inside)
  have evicts : ∀ left after first rest, left ++ item :: behind = first :: rest →
      shows after (first :: rest) → excess (first :: rest) →
        (round after).2 = true ∧ shows (round after).1 rest := by
    rintro left after first rest split ⟨draining, skipped, suffix⟩ exceeded
    have held : item ∈ first :: rest := by
      rw [← split]
      exact List.mem_append_right left List.mem_cons_self
    have perm := draining.listed.map factsOf
    have apart : ∀ entry ∈ homeOf belongs after.state, factsOf entry = factsOf first →
        entry = first := by
      intro entry inside same
      exact joined.facts_inj (within ⟨skipped, suffix⟩ (draining.listed.mem_iff.mp inside))
        (within ⟨skipped, suffix⟩ List.mem_cons_self) same
    obtain ⟨evicted, kept⟩ := gives after first rest draining exceeded
      (joined.first_goes ordered suffix held perm) apart
    rw [evicted]
    refine ⟨rfl, ⟨draining.trims.trans (Trims.evict _ _), ?_, kept⟩, skipped ++ [first], ?_⟩
    · exact home_evict belongs after.state first rest draining.listed
    · rw [List.append_assoc, List.singleton_append]
      exact suffix
  have stays : ∀ left after, shows after (left ++ item :: behind) →
      ¬excess (left ++ item :: behind) →
        (round after).2 = false ∧ shows (round after).1 (left ++ item :: behind) := by
    rintro left after ⟨draining, suffix⟩ fits
    rw [stops after _ draining fits]
    exact ⟨rfl, draining, suffix⟩
  have shorter : ahead.length < count := by
    have length := ordered.perm.length_eq
    have fewer := List.length_filter_le belongs cache.state.entries.entries
    rw [List.length_append] at length
    rw [homeOf] at length
    have size : cache.state.entries.length = cache.state.entries.entries.length := rfl
    omega
  obtain ⟨fits, gone⟩ := Rounds.rounds_drain shows excess item behind grows evicts stays ahead count
    shorter cache ⟨⟨Trims.refl _, ordered.perm, start⟩, [], rfl⟩
  constructor
  · intro resident exceeded
    obtain ⟨rest, after, ⟨draining, skipped, suffix⟩, final⟩ := gone exceeded
    have later : Trims after.state (Rounds.rounds round rest after).state :=
      Rounds.rounds_keep (fun last : ReprCache ShippedPolicy => Trims after.state last.state)
        (fun last before => before.trans (trims last)) rest after (Trims.refl _)
    rw [final] at resident
    -- Whatever still stood under its key would have been filed with it, and it has gone.
    obtain ⟨old, stood, name, _⟩ := later.shrinks.entry item.1 item.2 resident
    have there : ⟨item.1, old⟩ ∈ homeOf belongs after.state :=
      List.mem_filter.mpr ⟨(KeyedMap.mem_entries_iff _ item.1 old).mpr stood,
        (named item.1 item.2 old name).symm.trans own⟩
    have listed := draining.listed.mem_iff.mp there
    have behindHome : behind ⊆ homeOf belongs cache.state := within ⟨skipped, suffix⟩
    have held := (KeyedMap.mem_entries_iff _ item.1 old).mp (List.mem_filter.mp (behindHome listed)).1
    rw [(KeyedMap.mem_entries_iff _ item.1 item.2).mp (List.mem_filter.mp joined.held).1,
      Option.some.injEq] at held
    subst held
    have sorted := (List.pairwise_append.mp ordered.sorted).2.1
    exact lt_irrefl _ ((List.pairwise_cons.mp sorted).1 item listed)
  · intro settled
    obtain ⟨left, draining, _⟩ := fits settled
    have inside : item ∈ homeOf belongs (Rounds.rounds round count cache).state :=
      draining.listed.mem_iff.mpr (List.mem_append_right left List.mem_cons_self)
    exact (KeyedMap.mem_entries_iff _ item.1 item.2).mp (List.mem_filter.mp inside).1

/-- The residents a policy gives up only after a candidate that has just joined them. -/
def staying (inner : SimplePolicy) (others : List Entry) (candidate : EntryFacts) : List Entry :=
  others.filter fun entry => inner.outlasts (others.map factsOf) candidate (factsOf entry)

/-- What comes after the candidate in the order is what stays beside it. -/
theorem Ordered.behind_perm {inner : SimplePolicy} {others ahead behind : List Entry} {item : Entry}
    (joined : Joined (item :: others) item)
    (ordered : Ordered inner (item :: others) ahead item behind) :
    behind.Perm (staying inner others (factsOf item)) := by
  have rest : others.Perm (ahead ++ behind) :=
    (ordered.perm.trans List.perm_middle).cons_inv
  have kept : ∀ entry ∈ others, inner.outlasts (others.map factsOf) (factsOf item) (factsOf entry) =
      decide (inner.score (factsOf item :: others.map factsOf) (factsOf item) <
        inner.score (factsOf item :: others.map factsOf) (factsOf entry)) := by
    intro entry inside
    have different : factsOf entry ≠ factsOf item := by
      intro same
      have same := joined.facts_inj (List.mem_cons_of_mem _ inside) joined.held same
      exact (List.nodup_cons.mp joined.nodup).1 (same ▸ inside)
    rw [Bool.eq_iff_iff, decide_eq_true_eq]
    exact outlasts_iff inner _ _ _ joined.newest (List.mem_map_of_mem inside) different
  obtain ⟨_, later, crossing⟩ := List.pairwise_append.mp ordered.sorted
  have before : ahead.filter (fun entry =>
      inner.outlasts (others.map factsOf) (factsOf item) (factsOf entry)) = [] := by
    rw [List.filter_eq_nil_iff]
    intro entry inside stays
    rw [kept entry (rest.mem_iff.mpr (List.mem_append_left _ inside)), decide_eq_true_eq] at stays
    exact lt_asymm stays (crossing entry inside item List.mem_cons_self)
  have after : behind.filter (fun entry =>
      inner.outlasts (others.map factsOf) (factsOf item) (factsOf entry)) = behind := by
    rw [List.filter_eq_self]
    intro entry inside
    rw [kept entry (rest.mem_iff.mpr (List.mem_append_right _ inside)), decide_eq_true_eq]
    exact (List.pairwise_cons.mp later).1 entry inside
  have split := rest.filter (fun entry =>
    inner.outlasts (others.map factsOf) (factsOf item) (factsOf entry))
  rw [List.filter_append, before, after, List.nil_append] at split
  exact split.symm

namespace ReprCache

/-- The residents a store under a key leaves beside its candidate. -/
def beside (state : CacheState) (key : CacheKey) : List Entry := (state.entries.erase key).entries

/-- Those of them in one partition. -/
def besideIn (policy : Partitioned) (partition : Nat) (state : CacheState) (key : CacheKey) :
    List Entry :=
  (beside state key).filter fun entry => policy.partitionOf entry.2.target == partition

/-- The byte total once a candidate is filed under a key. -/
def bytesWith (state : CacheState) (key : CacheKey) (size : Nat) : Nat :=
  saturatingAdd
    (match state.entries.lookup key with
      | some replaced => state.bytes - replaced.bytes
      | none => state.bytes)
    size

/-- A candidate fits beside the residents that are given up only after it. -/
def Fits (policy : ShippedPolicy) (state : CacheState) (key : CacheKey) (candidate : EntryFacts) :
    Prop :=
  match policy with
  | .simple inner =>
    let others := beside state key
    let stay := staying inner others candidate
    stay.length + 1 ≤ inner.capacity.maxEntries ∧
      bytesWith state key candidate.bytes - (weight others - weight stay) ≤ inner.capacity.maxBytes
  | .partitioned partitions =>
    let home := partitions.partitionOf candidate.target
    let inner := partitions.policyOf home
    let stay := staying inner (besideIn partitions home state key) candidate
    stay.length + 1 ≤ inner.capacity.maxEntries ∧
      totalBytes (candidate :: stay.map factsOf) ≤ inner.capacity.maxBytes

/-- A candidate has just joined the entries that share its home. -/
theorem filed_joined (cache : ReprCache ShippedPolicy) (measured : Measured cache.state)
    (remembers : ShippedPolicy) (key : CacheKey) (target : Text) (representation : Representation)
    (costMillis : Option Nat) (incoming : Option Provenance) (belongs : Entry → Bool)
    (own : belongs ⟨key, freshSlot cache.state target representation costMillis incoming⟩ = true) :
    homeOf belongs (cache.filed remembers key
        (freshSlot cache.state target representation costMillis incoming)).state =
      ⟨key, freshSlot cache.state target representation costMillis incoming⟩ ::
        (beside cache.state key).filter belongs ∧
      Joined (homeOf belongs (cache.filed remembers key
          (freshSlot cache.state target representation costMillis incoming)).state)
        ⟨key, freshSlot cache.state target representation costMillis incoming⟩ := by
  have after := measured.put key
    (freshSlot cache.state target representation costMillis incoming) rfl rfl
  have home : homeOf belongs (cache.filed remembers key
      (freshSlot cache.state target representation costMillis incoming)).state =
      ⟨key, freshSlot cache.state target representation costMillis incoming⟩ ::
        (beside cache.state key).filter belongs := by
    rw [homeOf, filed, CacheState.put, AList.entries_insert, List.filter_cons, if_pos own]
    rfl
  have held : ⟨key, freshSlot cache.state target representation costMillis incoming⟩ ∈
      homeOf belongs (cache.filed remembers key
        (freshSlot cache.state target representation costMillis incoming)).state := by
    rw [home]
    exact List.mem_cons_self
  have older : ∀ entry ∈ homeOf belongs (cache.filed remembers key
      (freshSlot cache.state target representation costMillis incoming)).state,
      entry ≠ ⟨key, freshSlot cache.state target representation costMillis incoming⟩ →
        entry.2.lastUsedTick < cache.state.tick + 1 ∧ entry.2.storedTick < cache.state.tick + 1 := by
    intro entry inside other
    rw [home, List.mem_cons] at inside
    rcases inside with same | inside
    · exact absurd same other
    · have there := (KeyedMap.mem_entries_iff _ _ _).mp (List.mem_filter.mp inside).1
      rw [KeyedMap.lookup_erase_eq] at there
      split at there
      · cases there
      · exact ⟨Nat.lt_succ_of_le (measured.used entry.1 entry.2 there),
          Nat.lt_succ_of_le (measured.stored entry.1 entry.2 there)⟩
  refine ⟨home, ?_, ?_, ?_, held⟩
  · exact (AList.nodupKeys _).nodup.filter _
  · intro entry inside other inside'
    have there := (KeyedMap.mem_entries_iff _ _ _).mp (List.mem_filter.mp inside).1
    have there' := (KeyedMap.mem_entries_iff _ _ _).mp (List.mem_filter.mp inside').1
    have same_key : entry.1 = other.1 → entry = other := by
      intro same
      rw [same, there', Option.some.injEq] at there
      exact Sigma.ext same (heq_of_eq there.symm)
    by_cases same : entry = other
    · exact .inr same
    · have used : entry.2.lastUsedTick ≠ other.2.lastUsedTick := fun tick =>
        same (same_key (after.usedApart _ _ _ _ there there' tick))
      have stored : entry.2.storedTick ≠ other.2.storedTick := fun tick =>
        same (same_key (after.storedApart _ _ _ _ there there' tick))
      exact .inl ⟨fun facts => used (congrArg EntryFacts.lastUsedTick facts), used, stored⟩
  · constructor
    · exact List.mem_map_of_mem held
    · rfl
    · intro facts inside other
      obtain ⟨entry, member, rfl⟩ := List.mem_map.mp inside
      exact (older entry member fun same => other (same ▸ rfl)).1
    · intro facts inside other
      obtain ⟨entry, member, rfl⟩ := List.mem_map.mp inside
      exact (older entry member fun same => other (same ▸ rfl)).2

/-- A round under a policy without partitions stops exactly within the bound, and evicts
the policy's victim otherwise. -/
theorem simple_round (inner : SimplePolicy) (cache : ReprCache ShippedPolicy)
    (rules : cache.policy = .simple inner) :
    (overBound inner.capacity cache.state = false →
      enforceRound inner.capacity false cache = (cache, false)) ∧
    (overBound inner.capacity cache.state = true → ∀ index entry,
      inner.victim cache.state.residents = some index →
      cache.state.entries.entries[index]? = some entry →
        enforceRound inner.capacity false cache =
          ({ cache with state := cache.state.evict entry.1 }, true)) := by
  constructor
  · intro within
    rw [enforceRound, within]
    rfl
  · intro exceeded index entry chosen placed
    have victim : CachePolicy.victim cache.policy cache.state.residents =
        (some index, cache.policy) := by
      rw [rules, ← chosen]
      rfl
    simp [enforceRound, exceeded, victim, placed]

/-- Under a policy without partitions a filed candidate stays exactly if it fits. -/
theorem simple_stays_iff (inner : SimplePolicy) (cache : ReprCache ShippedPolicy)
    (measured : Measured cache.state) (key : CacheKey) (target : Text)
    (representation : Representation) (costMillis : Option Nat) (incoming : Option Provenance) :
    (enforceBound (cache.filed (.simple inner) key
        (freshSlot cache.state target representation costMillis incoming))).state.entries.lookup key =
          some (freshSlot cache.state target representation costMillis incoming) ↔
      Fits (.simple inner) cache.state key
        (candidateFacts cache.state key target representation costMillis) := by
  obtain ⟨home, joined⟩ := filed_joined cache measured (.simple inner) key target representation
    costMillis incoming (fun _ => true) rfl
  obtain ⟨ahead, behind, ordered⟩ := joined.exists_order inner
  let start := cache.filed (.simple inner) key
    (freshSlot cache.state target representation costMillis incoming)
  let whole := weight (homeOf (fun _ => true) start.state)
  have stays := stays_iff_of_rounds (enforceRound inner.capacity false) (fun _ => true) inner
    (fun left => inner.capacity.maxEntries < left.length ∨
      inner.capacity.maxBytes < start.state.bytes - (whole - weight left))
    (fun after left => after.policy = .simple inner ∧ weight left ≤ whole ∧
      after.state.bytes = start.state.bytes - (whole - weight left))
    start joined ordered (fun _ _ _ _ => rfl)
    (fun after => (enforce_round_trims _ _ after).1)
    (by
      intro other rest exceeded
      rw [weight_cons, List.length_cons]
      omega)
    (by
      rintro after left ⟨_, listed, rules, _, bytes⟩ fits
      have count : after.state.entries.length = left.length := by
        rw [← listed.length_eq, homeOf, List.filter_true]
        rfl
      apply (simple_round inner after rules).1
      rw [overBound, count, bytes, Bool.or_eq_false_iff, decide_eq_false_iff_not,
        decide_eq_false_iff_not]
      exact not_or.mp fits)
    (by
      rintro after first rest ⟨_, listed, rules, within, bytes⟩ exceeded ⟨index, chosen, placed⟩ apart
      have count : after.state.entries.length = (first :: rest).length := by
        rw [← listed.length_eq, homeOf, List.filter_true]
        rfl
      have over_bound : overBound inner.capacity after.state = true := by
        rw [overBound, count, bytes, Bool.or_eq_true, decide_eq_true_eq, decide_eq_true_eq]
        exact exceeded
      rw [homeOf, List.filter_true] at chosen placed apart
      rw [List.getElem?_map] at placed
      obtain ⟨entry, found, same⟩ := Option.map_eq_some_iff.mp placed
      have entry_eq := apart entry (List.mem_of_getElem? found) same
      subst entry_eq
      refine ⟨(simple_round inner after rules).2 over_bound index entry chosen found, rules, ?_, ?_⟩
      · rw [weight_cons] at within
        omega
      · have held : after.state.entries.lookup entry.1 = some entry.2 :=
          (KeyedMap.mem_entries_iff _ _ _).mp (List.mem_of_getElem? found)
        rw [weight_cons] at within bytes
        simp only [CacheState.evict, held]
        omega)
    (start.state.entries.length + 1) (Nat.lt_succ_self _)
    ⟨rfl, (weight_perm ordered.perm).ge, by
      rw [← weight_perm ordered.perm, Nat.sub_self, Nat.sub_zero]⟩
  have enforced : enforceBound start = Rounds.rounds (enforceRound inner.capacity false)
      (start.state.entries.length + 1) start := rfl
  rw [← enforced] at stays
  refine stays.trans ?_
  rw [home, List.filter_true] at joined ordered
  have beside_perm := ordered.behind_perm joined
  have whole_eq : whole = (freshSlot cache.state target representation costMillis incoming).bytes +
      weight (beside cache.state key) := by
    simp only [whole, start]
    rw [home, List.filter_true, weight_cons]
  have candidate := candidate_facts_eq cache.state key target representation costMillis incoming
  rw [Fits, candidate, List.length_cons, beside_perm.length_eq, weight_cons, weight_perm beside_perm,
    whole_eq, Nat.add_sub_add_left, not_or, Nat.not_lt, Nat.not_lt]
  rfl

/-- Under a partitioned policy a filed candidate stays exactly if it fits in its own
partition, where the others are within their budgets. -/
theorem partitioned_stays_iff (policy : Partitioned) (cache : ReprCache ShippedPolicy)
    (measured : Measured cache.state) (within : InBudget policy cache.state) (key : CacheKey)
    (target : Text) (representation : Representation) (costMillis : Option Nat)
    (incoming : Option Provenance) :
    (enforceBound (cache.filed (.partitioned policy) key
        (freshSlot cache.state target representation costMillis incoming))).state.entries.lookup key =
          some (freshSlot cache.state target representation costMillis incoming) ↔
      Fits (.partitioned policy) cache.state key
        (candidateFacts cache.state key target representation costMillis) := by
  let belongs : Entry → Bool := fun entry =>
    policy.partitionOf entry.2.target == policy.partitionOf target
  let inner := policy.policyOf (policy.partitionOf target)
  obtain ⟨home, joined⟩ := filed_joined cache measured (.partitioned policy) key target
    representation costMillis incoming belongs (beq_self_eq_true _)
  obtain ⟨ahead, behind, ordered⟩ := joined.exists_order inner
  let start := cache.filed (.partitioned policy) key
    (freshSlot cache.state target representation costMillis incoming)
  have members : ∀ state : CacheState, policy.membersOf (policy.partitionOf target) state.residents =
      (homeOf belongs state).map factsOf := by
    intro state
    rw [Partitioned.membersOf, CacheState.residents, List.filter_map]
    rfl
  have over_iff : ∀ (state : CacheState) (left : List Entry), (homeOf belongs state).Perm left →
      (policy.Within (policy.partitionOf target) state.residents ↔
        ¬(inner.capacity.maxEntries < left.length ∨
          inner.capacity.maxBytes < totalBytes (left.map factsOf))) := by
    intro state left listed
    rw [Partitioned.Within, members, List.length_map, listed.length_eq, total_bytes_eq,
      ((listed.map factsOf).map EntryFacts.bytes).sum_eq, ← total_bytes_eq, not_or, Nat.not_lt,
      Nat.not_lt]
  have stays := stays_iff_of_rounds (enforceRound (Partitioned.capacity policy) true) belongs inner
    (fun left => inner.capacity.maxEntries < left.length ∨
      inner.capacity.maxBytes < totalBytes (left.map factsOf))
    (fun after _ => after.policy = .partitioned policy ∧
      ∀ other ≠ policy.partitionOf target, policy.Within other after.state.residents)
    start joined ordered
    (fun key slot other same => by simp only [belongs, same])
    (fun after => (enforce_round_trims _ _ after).1)
    (by
      intro other rest exceeded
      rw [total_bytes_eq] at exceeded
      rw [total_bytes_eq, List.map_cons, List.map_cons, List.sum_cons, List.length_cons]
      omega)
    (by
      rintro after left ⟨_, listed, rules, others⟩ fits
      rcases partitioned_round policy (Partitioned.capacity policy) after rules with
        ⟨_, round⟩ | ⟨entry, _, overfull, _⟩
      · exact round
      · by_cases here : policy.partitionOf entry.2.target = policy.partitionOf target
        · rw [here] at overfull
          exact absurd ((over_iff _ left listed).mpr fits) overfull
        · exact absurd (others _ here) overfull)
    (by
      rintro after first rest ⟨_, listed, rules, others⟩ exceeded ⟨index, chosen, placed⟩ apart
      rcases partitioned_round policy (Partitioned.capacity policy) after rules with
        ⟨settled, _⟩ | ⟨entry, inside, overfull, ⟨picked, picks, member⟩, round⟩
      · exact absurd exceeded ((over_iff _ _ listed).mp (settled _))
      · have here : policy.partitionOf entry.2.target = policy.partitionOf target := by
          by_contra away
          exact overfull (others _ away)
        rw [here, members] at picks member
        rw [chosen, Option.some.injEq] at picks
        subst picks
        rw [placed, Option.some.injEq] at member
        have entry_eq := apart entry (List.mem_filter.mpr ⟨inside, beq_iff_eq.mpr here⟩) member.symm
        subst entry_eq
        refine ⟨round, rules, fun other away => ?_⟩
        exact Partitioned.within_of_lighter (Trims.evict _ _).lighter (others other away))
    (start.state.entries.length + 1) (Nat.lt_succ_self _)
    ⟨rfl, fun other away => within_put policy cache _ key _ within other away⟩
  have enforced : enforceBound start = Rounds.rounds
      (enforceRound (Partitioned.capacity policy) true) (start.state.entries.length + 1) start := rfl
  rw [← enforced] at stays
  refine stays.trans ?_
  rw [home] at joined ordered
  have beside_perm := ordered.behind_perm joined
  have candidate := candidate_facts_eq cache.state key target representation costMillis incoming
  rw [Fits, candidate, List.length_cons, beside_perm.length_eq, not_or, Nat.not_lt, Nat.not_lt,
    List.map_cons, total_bytes_eq, List.map_cons, List.sum_cons,
    ((beside_perm.map factsOf).map EntryFacts.bytes).sum_eq, total_bytes_eq, List.map_cons,
    List.sum_cons]
  rfl

/-- Whether a store goes as far as filing its candidate: the body can be read again, no
thread of it was cut since the snapshot, and the policy admits it and prefers it to what it
would displace. -/
def accepts (cache : ReprCache ShippedPolicy) (key : CacheKey) (target : Text)
    (representation : Representation) (taken : Nat) (costMillis : Option Nat) : Bool :=
  let candidate := candidateFacts cache.state key target representation costMillis
  let admitted := CachePolicy.admits cache.policy candidate
  !representation.body.isOneShot && !cache.state.cutSince representation.threads taken &&
    admitted.1 && (askContest cache.state admitted.2 key candidate).1

/-- A store answers `Ok` exactly when it files its candidate, and changes no entry when it
does not. -/
theorem store_outcome_accepts (cache : ReprCache ShippedPolicy) (key : CacheKey) (target : Text)
    (representation : Representation) (taken : Nat) (costMillis : Option Nat)
    (incoming : Option Provenance) :
    (cache.accepts key target representation taken costMillis = false ∧ ∃ declined,
        (cache.storeOutcome key target representation taken costMillis incoming).2 = .error declined ∧
        (cache.storeOutcome key target representation taken costMillis
          incoming).1.state.entries = cache.state.entries) ∨
      cache.accepts key target representation taken costMillis = true ∧
        (cache.storeOutcome key target representation taken costMillis incoming).2 = .ok () ∧
        (cache.storeOutcome key target representation taken costMillis
            incoming).1.state.entries =
          (enforceBound (cache.filed
            (CachePolicy.admits cache.policy
              (candidateFacts cache.state key target representation costMillis)).2 key
            (freshSlot cache.state target representation costMillis incoming))).state.entries := by
  rcases store_outcome_cases cache key target representation taken costMillis incoming with
    ⟨tick, remembers, declined, _, _, outcome⟩ |
      ⟨remembers, enforced, reusable, unraced, admitted, asked, rfl, outcome⟩
  · refine .inl ⟨?_, declined, ?_, ?_⟩
    · -- Were all four asked in its favour, the outcome would be `Ok`.
      by_contra accepted
      simp only [accepts, Bool.not_eq_false, Bool.and_eq_true, Bool.not_eq_true'] at accepted
      obtain ⟨⟨⟨reusable, unraced⟩, admitted⟩, contested⟩ := accepted
      have contested' : (askContest { cache.state with tick := cache.state.tick + 1 }
          (CachePolicy.admits cache.policy
            (candidateFacts cache.state key target representation costMillis)).2 key
          (candidateFacts cache.state key target representation costMillis)).1 = true := contested
      have kind := congrArg Prod.snd outcome
      simp [storeOutcome, reusable, unraced, admitted, contested',
        representation.share_of_reusable reusable] at kind
    · rw [outcome]
    · rw [outcome]
  · have remembered : remembers = (CachePolicy.admits cache.policy
        (candidateFacts cache.state key target representation costMillis)).2 := by
      have second := congrArg Prod.snd asked
      rwa [ask_contest_policy, eq_comm] at second
    subst remembered
    refine .inr ⟨?_, by rw [outcome], ?_⟩
    · simp only [accepts, reusable, unraced, admitted, asked, Bool.not_false, Bool.and_self]
    · rw [outcome]
      dsimp only
      rw [sweepGenerations]
      split <;> rfl

/-- Counting a candidate changes neither a policy's budget nor what it gives up first. -/
theorem outlasts_admits (inner : SimplePolicy) (counted candidate : EntryFacts)
    (resident : List EntryFacts) (facts : EntryFacts) :
    (inner.admits counted).2.outlasts resident candidate facts =
      inner.outlasts resident candidate facts := by
  cases inner <;> rfl

/-- Counting a request changes nothing of who would stay before it. -/
theorem staying_admits (inner : SimplePolicy) (counted candidate : EntryFacts)
    (others : List Entry) :
    staying (inner.admits counted).2 others candidate = staying inner others candidate := by
  simp only [staying, outlasts_admits]

/-- Counting a request leaves the capacity. -/
theorem capacity_admits (inner : SimplePolicy) (counted : EntryFacts) :
    (inner.admits counted).2.capacity = inner.capacity := by
  cases inner <;> rfl

/-- Whether a candidate fits is not changed by its being counted. -/
theorem fits_admits (policy : ShippedPolicy) (state : CacheState) (key : CacheKey)
    (candidate : EntryFacts) :
    Fits (CachePolicy.admits policy candidate).2 state key candidate ↔
      Fits policy state key candidate := by
  cases policy with
  | simple inner =>
    show Fits (.simple (inner.admits candidate).2) state key candidate ↔ _
    simp only [Fits, staying_admits, capacity_admits]
  | partitioned partitions =>
    have alike := partitions.admits_alike candidate
    have here : (partitions.admits candidate).2.policyOf (partitions.partitionOf candidate.target) =
        ((partitions.policyOf (partitions.partitionOf candidate.target)).admits candidate).2 := by
      rw [Partitioned.admits]
      exact (Partitioned.policy_of_updated partitions _ _ _
        (partitions.partition_of_le candidate.target)).trans (if_pos (.inl rfl))
    have beside_eq : besideIn (partitions.admits candidate).2
        (partitions.partitionOf candidate.target) state key =
        besideIn partitions (partitions.partitionOf candidate.target) state key := by
      simp only [besideIn, ← alike.partition_of_eq]
    show Fits (.partitioned (partitions.admits candidate).2) state key candidate ↔ _
    simp only [Fits, ← alike.partition_of_eq, here, beside_eq, staying_admits, capacity_admits]

/-- Whatever partitions the policy has after a run are within their budgets. -/
theorem in_budget_after (policy : ShippedPolicy) (ops : List CacheOp) (partitions : Partitioned)
    (rules : (after policy ops).policy = .partitioned partitions) :
    InBudget partitions (after policy ops).state := by
  cases policy with
  | simple inner =>
    have simple : ∃ other, (after (ShippedPolicy.simple inner) ops).policy = .simple other := by
      apply after_policy (fun policy => ∃ other, policy = ShippedPolicy.simple other)
      case holds => exact ⟨inner, rfl⟩
      case admits =>
        rintro _ candidate ⟨other, rfl⟩
        exact ⟨(other.admits candidate).2, rfl⟩
      case contest =>
        rintro _ _ _ ⟨other, rfl⟩
        exact ⟨other, rfl⟩
      all_goals
        rintro _ _ ⟨other, rfl⟩
        exact ⟨other, rfl⟩
    obtain ⟨other, same⟩ := simple
    rw [rules] at same
    cases same
  | partitioned given =>
    obtain ⟨kept, now_rules, alike⟩ := (budgeted_after given ops).rules
    rw [rules, ShippedPolicy.partitioned.injEq] at now_rules
    subst now_rules
    exact fun partition => alike.within ((budgeted_after given ops).within partition)

/-- A store keeps what it stored exactly when the candidate, if it is filed at all, fits
beside the residents its policy gives up only after it. A store that declines never removes
an entry. -/
theorem stored_is_kept_iff (policy : ShippedPolicy) (ops : List CacheOp) (key : CacheKey)
    (target : Text) (representation : Representation) (taken : Nat) (costMillis : Option Nat)
    (incoming : Option Provenance) :
    let cache := after policy ops
    let result := cache.storeOutcome key target representation taken costMillis incoming
    ((result.2 = .ok () → result.1.state.entries.lookup key =
          some (freshSlot cache.state target representation costMillis incoming)) ∧
        ∀ declined, result.2 = .error declined → ∀ asked slot,
          cache.state.entries.lookup asked = some slot →
            result.1.state.entries.lookup asked = some slot) ↔
      (cache.accepts key target representation taken costMillis = true →
        Fits cache.policy cache.state key
          (candidateFacts cache.state key target representation costMillis)) := by
  intro cache result
  have stays : (enforceBound (cache.filed
      (CachePolicy.admits cache.policy
        (candidateFacts cache.state key target representation costMillis)).2 key
      (freshSlot cache.state target representation costMillis incoming))).state.entries.lookup key =
        some (freshSlot cache.state target representation costMillis incoming) ↔
      Fits cache.policy cache.state key
        (candidateFacts cache.state key target representation costMillis) := by
    rw [← fits_admits]
    have measured := measured_after policy ops
    cases rules : cache.policy with
    | simple inner =>
      exact simple_stays_iff _ cache measured key target representation costMillis incoming
    | partitioned partitions =>
      apply partitioned_stays_iff _ cache measured
      intro partition
      exact (partitions.admits_alike _).within (in_budget_after policy ops partitions rules partition)
  rcases store_outcome_accepts cache key target representation taken costMillis incoming with
    ⟨refused, declined, outcome, same⟩ | ⟨accepted, outcome, entries⟩
  · refine iff_of_true ⟨fun ok => ?_, fun _ _ asked slot held => ?_⟩ fun accepted => ?_
    · rw [outcome] at ok
      cases ok
    · rw [same]
      exact held
    · rw [refused] at accepted
      cases accepted
  · rw [← stays, ← entries]
    constructor
    · intro kept _
      exact kept.1 outcome
    · intro kept
      refine ⟨fun _ => kept accepted, fun declined error => ?_⟩
      rw [outcome] at error
      cases error

/-- Where the newest is always given up last, a candidate its policy admits fits as soon as
the bound has room for one entry. -/
theorem recency_fits (bound : CacheBound) (state : CacheState) (measured : Measured state)
    (key : CacheKey) (candidate : EntryFacts) (room : 1 ≤ bound.maxEntries)
    (admitted : candidate.bytes ≤ bound.maxBytes) :
    Fits (.simple (.lru bound)) state key candidate ∧
      Fits (.simple (.fifo bound)) state key candidate := by
  have nobody : weight [] = 0 := rfl
  have bytes : bytesWith state key candidate.bytes ≤
      weight (beside state key) + candidate.bytes := by
    have before := measured.bytes
    rw [bytesWith, saturatingAdd]
    cases held : state.entries.lookup key with
    | none =>
      rw [heldBytes, ← KeyedMap.erase_of_lookup_none state.entries key held] at before
      refine (min_le_left _ _).trans (Nat.add_le_add_right ?_ _)
      exact before
    | some replaced =>
      rw [held_bytes_erase state key replaced held] at before
      refine (min_le_left _ _).trans (Nat.add_le_add_right ?_ _)
      exact Nat.sub_le_of_le_add (by rw [Nat.add_comm]; exact before)
  constructor <;>
  · rw [Fits]
    simp only [staying, SimplePolicy.outlasts, List.filter_false, List.length_nil, nobody,
      SimplePolicy.capacity]
    omega

end ReprCache

namespace EvictedExample

def key (content : UInt8) : CacheKey := ⟨⟨Vector.replicate 32 content⟩, 0, 0⟩

def answer (data : List UInt8) : Representation where
  reprType := ⟨"text/plain".toList, []⟩
  body := .bytes data
  expiry := .never
  threads := .empty
  validator := none
  revalidated := false

def policy : ShippedPolicy := .simple (.costAware ⟨1, 1024⟩)

/-- A dear answer is resident. -/
def cache : ReprCache ShippedPolicy :=
  ReprCache.after policy [.store (key 1) "urn:dear".toList (answer [1]) 0 (some 100) none]

/-- A cheap one is stored with `Ok`, and is not there. -/
theorem stored_and_not_kept :
    (cache.storeOutcome (key 2) "urn:cheap".toList (answer [2]) 0 (some 1) none).2 = .ok () ∧
      (cache.storeOutcome (key 2) "urn:cheap".toList (answer [2]) 0 (some 1)
        none).1.state.entries.lookup (key 2) = none :=
  ⟨by decide, by decide⟩

end EvictedExample

end Ikigai
