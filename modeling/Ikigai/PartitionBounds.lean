import Ikigai.CacheMeasures
import Ikigai.PolicyChoice

/-!
# Partitions keep to their budgets

Under a partitioned policy no operation leaves a partition over its bound, and a store
takes entries out of its own target's partition only. Before a store nothing is over its
bound, so after it only that partition can be, and every victim is an entry of a partition
that is.
-/

namespace Ikigai

open CacheState

/-- What an entry weighs on a budget: its name and its bytes. -/
def EntryFacts.load (facts : EntryFacts) : Text × Nat := (facts.target, facts.bytes)

namespace Partitioned

/-- What a partition's members weigh is told from the names and sizes of the resident entries. -/
theorem members_load (policy : Partitioned) (partition : Nat) (resident : List EntryFacts) :
    (policy.membersOf partition resident).map EntryFacts.load =
      (resident.map EntryFacts.load).filter fun load => policy.partitionOf load.1 == partition := by
  rw [membersOf, List.filter_map]
  rfl

/-- The sizes of entries are the second halves of their loads. -/
theorem map_bytes_eq (resident : List EntryFacts) :
    resident.map EntryFacts.bytes = (resident.map EntryFacts.load).map Prod.snd := by
  rw [List.map_map]
  rfl

/-- Less of the same names and bytes stays within a bound. -/
theorem within_of_lighter {policy : Partitioned} {partition : Nat} {resident other : List EntryFacts}
    (lighter : (resident.map EntryFacts.load).Subperm (other.map EntryFacts.load))
    (within : policy.Within partition other) : policy.Within partition resident := by
  have fewer : ((policy.membersOf partition resident).map EntryFacts.load).Subperm
      ((policy.membersOf partition other).map EntryFacts.load) := by
    rw [members_load, members_load]
    exact lighter.filter _
  obtain ⟨entries, bytes⟩ := within
  constructor
  · have count := fewer.length_le
    rw [List.length_map, List.length_map] at count
    exact count.trans entries
  · rw [total_bytes_eq, map_bytes_eq] at bytes ⊢
    obtain ⟨kept, perm, sublist⟩ := fewer
    have sum := (sublist.map Prod.snd).sum_le_sum fun _ _ => Nat.zero_le _
    rw [(perm.map Prod.snd).sum_eq] at sum
    exact (min_le_min_right _ sum).trans bytes

/-- The same prefixes in the same order, each with the same budget. -/
structure Alike (policy other : Partitioned) : Prop where
  names : policy.partitions.map Prod.fst = other.partitions.map Prod.fst
  budgets : ∀ partition, (policy.policyOf partition).capacity = (other.policyOf partition).capacity

namespace Alike

/-- A policy has its own rules. -/
theorem refl (policy : Partitioned) : Alike policy policy := ⟨rfl, fun _ => rfl⟩

/-- Having the same rules is transitive. -/
theorem trans {first second third : Partitioned} (one : Alike first second)
    (two : Alike second third) : Alike first third :=
  ⟨one.names.trans two.names, fun partition => (one.budgets partition).trans (two.budgets partition)⟩

/-- Having the same rules is symmetric. -/
theorem symm {policy other : Partitioned} (alike : Alike policy other) : Alike other policy :=
  ⟨alike.names.symm, fun partition => (alike.budgets partition).symm⟩

/-- Policies of the same rules put a name in the same partition. -/
theorem partition_of_eq {policy other : Partitioned} (alike : Alike policy other) (target : Text) :
    policy.partitionOf target = other.partitionOf target := by
  have count : policy.partitions.length = other.partitions.length := by
    have lengths := congrArg List.length alike.names
    rwa [List.length_map, List.length_map] at lengths
  rw [partitionOf, partitionOf, alike.names, count]

/-- They hold a partition to the same bounds. -/
theorem within {policy other : Partitioned} (alike : Alike policy other) {partition : Nat}
    {resident : List EntryFacts} (holds : policy.Within partition resident) :
    other.Within partition resident := by
  have members : other.membersOf partition resident = policy.membersOf partition resident := by
    rw [membersOf, membersOf]
    exact List.filter_congr fun facts _ => by rw [alike.partition_of_eq]
  rw [Within, members, ← alike.budgets partition]
  exact holds

end Alike

/-- Changing the policy inside one partition changes it there alone. -/
theorem policy_of_updated (policy : Partitioned) (partition asked : Nat) (inner : SimplePolicy)
    (inRange : partition ≤ policy.partitions.length) :
    (policy.updated partition inner).policyOf asked =
      if asked = partition ∨
          (policy.partitions.length ≤ asked ∧ partition = policy.partitions.length) then inner
      else policy.policyOf asked := by
  rw [updated]
  by_cases given : partition < policy.partitions.length
  · rw [if_pos given, policyOf, policyOf]
    simp only [List.getElem?_modify]
    by_cases same : asked = partition
    · rw [if_pos (.inl same), same, List.getElem?_eq_getElem given]
      simp
    · rw [if_neg (by omega)]
      cases policy.partitions[asked]? with
      | none => rfl
      | some entry => simp [Ne.symm same]
  · rw [if_neg given, policyOf, policyOf]
    dsimp only
    by_cases beyond : policy.partitions.length ≤ asked
    · rw [if_pos (.inr ⟨beyond, by omega⟩), List.getElem?_eq_none beyond]
    · rw [if_neg (by omega)]
      rw [List.getElem?_eq_getElem (by omega)]

/-- Remembering something new about one partition changes no prefix and no budget. -/
theorem updated_alike (policy : Partitioned) (partition : Nat) (inner : SimplePolicy)
    (inRange : partition ≤ policy.partitions.length)
    (same : inner.capacity = (policy.policyOf partition).capacity) :
    Alike policy (policy.updated partition inner) where
  names := by
    rw [updated]
    split
    · apply List.ext_getElem?
      intro index
      rw [List.getElem?_map, List.getElem?_map, List.getElem?_modify]
      cases policy.partitions[index]? with
      | none => rfl
      | some given => by_cases here : partition = index <;> simp [here]
    · rfl
  budgets := by
    intro asked
    rw [policy_of_updated policy partition asked inner inRange]
    split
    · rename_i here
      rw [same]
      rcases here with rfl | ⟨beyond, rfl⟩
      · rfl
      · rw [policyOf, policyOf, List.getElem?_eq_none beyond, List.getElem?_eq_none le_rfl]
    · rfl

/-- Asking whether a candidate is admitted changes no rule. -/
theorem admits_alike (policy : Partitioned) (candidate : EntryFacts) :
    Alike policy (policy.admits candidate).2 := by
  apply updated_alike
  · exact policy.partition_of_le candidate.target
  · cases policy.policyOf (policy.partitionOf candidate.target) <;> rfl

end Partitioned

namespace CacheState

/-- The residents' loads are those of the entries held. -/
theorem residents_load (state : CacheState) :
    state.residents.map EntryFacts.load =
      state.entries.entries.map fun entry => (entry.2.target, entry.2.bytes) := by
  rw [residents, List.map_map]
  rfl

/-- What a state is trimmed to weighs no more. -/
theorem Trims.lighter {before after : CacheState} (trims : Trims before after) :
    (after.residents.map EntryFacts.load).Subperm (before.residents.map EntryFacts.load) := by
  -- Each entry left is an entry of before under its key, with its name and its bytes.
  have shrinks := trims.shrinks
  let loadOf : CacheKey → Text × Nat := fun key =>
    ((before.entries.lookup key).map fun slot => (slot.target, slot.bytes)).getD ([], 0)
  have keys : after.entries.keys.Subperm before.entries.keys := by
    apply after.entries.keys_nodup.subperm
    intro key inside
    obtain ⟨slot, held⟩ :=
      Option.isSome_iff_exists.mp (AList.lookup_isSome.mpr (AList.mem_keys.mpr inside))
    obtain ⟨old, there, _⟩ := shrinks.entry key slot held
    exact AList.mem_keys.mp (AList.lookup_isSome.mp (Option.isSome_iff_exists.mpr ⟨old, there⟩))
  have weigh : ∀ state : CacheState, (∀ key slot, state.entries.lookup key = some slot →
      (slot.target, slot.bytes) = loadOf key) →
      state.residents.map EntryFacts.load = state.entries.keys.map loadOf := by
    intro state loads
    rw [residents_load, AList.keys, List.keys, List.map_map]
    apply List.map_congr_left
    intro entry inside
    exact loads entry.1 entry.2 ((KeyedMap.mem_entries_iff state.entries entry.1 entry.2).mp inside)
  rw [weigh before, weigh after]
  · obtain ⟨kept, perm, sublist⟩ := keys
    exact ⟨kept.map loadOf, perm.map loadOf, sublist.map loadOf⟩
  · intro key slot held
    obtain ⟨old, there, name, shown, _⟩ := shrinks.entry key slot held
    simp only [loadOf, there, Option.map_some, Option.getD_some, name, Slot.bytes, shown]
  · intro key slot held
    simp only [loadOf, held, Option.map_some, Option.getD_some]

end CacheState

namespace ReprCache

/-- No partition over its bound. -/
def InBudget (policy : Partitioned) (state : CacheState) : Prop :=
  ∀ partition, policy.Within partition state.residents

/-- Trimming leaves every partition within its bounds that was. -/
theorem InBudget.trims {policy : Partitioned} {before after : CacheState}
    (within : InBudget policy before) (trims : Trims before after) : InBudget policy after :=
  fun partition => Partitioned.within_of_lighter trims.lighter (within partition)

/-- A round under a partitioned policy stops exactly where every partition is within its
bound, and otherwise evicts, of a partition that is not, the entry its own policy gives
up. -/
theorem partitioned_round (policy : Partitioned) (bound : CacheBound)
    (cache : ReprCache ShippedPolicy) (rules : cache.policy = .partitioned policy) :
    (InBudget policy cache.state ∧ enforceRound bound true cache = (cache, false)) ∨
      ∃ entry ∈ cache.state.entries.entries,
        ¬policy.Within (policy.partitionOf entry.2.target) cache.state.residents ∧
        (∃ index, (policy.policyOf (policy.partitionOf entry.2.target)).victim
            (policy.membersOf (policy.partitionOf entry.2.target) cache.state.residents) =
              some index ∧
          (policy.membersOf (policy.partitionOf entry.2.target) cache.state.residents)[index]? =
            some (entry.2.facts entry.1.request)) ∧
        enforceRound bound true cache =
          ({ cache with state := cache.state.evict entry.1 }, true) := by
  have asked : (if overBound bound cache.state then (true, cache.policy)
      else CachePolicy.overPartition cache.policy cache.state.residents) =
      (overBound bound cache.state || policy.overPartition cache.state.residents,
        ShippedPolicy.partitioned policy) := by
    cases overBound bound cache.state <;> rw [rules] <;> rfl
  have stays : ({ cache with policy := ShippedPolicy.partitioned policy } : ReprCache ShippedPolicy) =
      cache := by
    rw [← rules]
  rw [enforceRound]
  extract_lets facts question chosen
  have question_eq : question = (overBound bound cache.state ||
      policy.overPartition cache.state.residents, .partitioned policy) := asked
  have chosen_eq : chosen = (policy.victim cache.state.residents, .partitioned policy) := by
    simp only [chosen, question_eq]
    rfl
  rw [Bool.not_true, Bool.and_false, if_neg Bool.false_ne_true]
  rcases policy.victim_spec cache.state.residents with ⟨unnamed, within⟩ |
    ⟨partition, index, picked, facts', overfull, picks, member, named, placed, belongs⟩
  · refine .inl ⟨within, ?_⟩
    split
    · rw [question_eq, stays]
    · simp only [chosen_eq, unnamed, Option.bind_none]
      rw [stays]
  · have exceeded : policy.overPartition cache.state.residents = true := by
      by_contra settled
      exact overfull ((policy.over_partition_eq_false_iff _).mp (by simpa using settled) partition)
    rw [residents, List.getElem?_map] at placed
    obtain ⟨entry, found, rfl⟩ := Option.map_eq_some_iff.mp placed
    have target : policy.partitionOf entry.2.target = partition := belongs
    subst target
    refine .inr ⟨entry, List.mem_of_getElem? found, overfull, ⟨picked, picks, member⟩, ?_⟩
    rw [if_neg (by simp [question_eq, exceeded])]
    simp only [chosen_eq, named, Option.bind_some, found, rules]

/-- An eviction of a held entry leaves one entry less. -/
theorem evict_length (state : CacheState) (entry : (_ : CacheKey) × Slot)
    (inside : entry ∈ state.entries.entries) :
    (state.evict entry.1).entries.length + 1 = state.entries.length := by
  have held := (KeyedMap.mem_entries_iff state.entries entry.1 entry.2).mp inside
  have perm := (KeyedMap.entries_perm_erase state.entries entry.1 entry.2 held).length_eq
  rw [List.length_cons] at perm
  rw [entries_evict]
  exact perm.symm

/-- Enforcing the bound under a partitioned policy ends with every partition within its
own. Where only one partition was over, no entry of another one goes. -/
theorem enforce_partitioned (policy : Partitioned) (cache : ReprCache ShippedPolicy)
    (rules : cache.policy = .partitioned policy) :
    (enforceBound cache).policy = .partitioned policy ∧
      InBudget policy (enforceBound cache).state ∧
      ∀ home, (∀ other ≠ home, policy.Within other cache.state.residents) →
        ∀ key slot, cache.state.entries.lookup key = some slot →
          policy.partitionOf slot.target ≠ home →
            (enforceBound cache).state.entries.lookup key = some slot := by
  let kept : ReprCache ShippedPolicy → Prop := fun after =>
    after.policy = .partitioned policy ∧ Trims cache.state after.state ∧
      ∀ home, (∀ other ≠ home, policy.Within other cache.state.residents) →
        ∀ key slot, cache.state.entries.lookup key = some slot →
          policy.partitionOf slot.target ≠ home → after.state.entries.lookup key = some slot
  have step : ∀ after, kept after →
      kept (enforceRound (CachePolicy.capacity cache.policy) true after).1 := by
    rintro after ⟨rules, trims, frame⟩
    rcases partitioned_round policy (CachePolicy.capacity cache.policy) after rules with
      ⟨_, round⟩ | ⟨entry, inside, overfull, _, round⟩
    · rw [round]
      exact ⟨rules, trims, frame⟩
    · rw [round]
      refine ⟨rules, trims.trans (Trims.evict _ _), ?_⟩
      intro home others key slot held away
      have stands := frame home others key slot held away
      rw [lookup_evict]
      by_cases same : key = entry.1
      · -- The victim's partition is over its bound, so it is the one that was.
        have there := (KeyedMap.mem_entries_iff after.state.entries entry.1 entry.2).mp inside
        rw [← same, stands, Option.some.injEq] at there
        rw [← there] at overfull
        exact absurd (Partitioned.within_of_lighter trims.lighter (others _ away)) overfull
      · rw [if_neg same]
        exact stands
  have start : kept cache := ⟨rules, Trims.refl _, fun _ _ _ _ held _ => held⟩
  obtain ⟨last, holds, ends, settled⟩ := Rounds.rounds_settle
    kept (fun after => after.state.entries.length) step
    (by
      rintro after ⟨rules, _⟩ goesOn
      rcases partitioned_round policy (CachePolicy.capacity cache.policy) after rules with
        ⟨_, round⟩ | ⟨entry, inside, _, _, round⟩
      · rw [round] at goesOn
        cases goesOn
      · rw [round]
        have less := evict_length after.state entry inside
        dsimp only
        omega)
    (cache.state.entries.length + 1) cache (Nat.lt_succ_self _) start
  have partitioned : CachePolicy.partitioned cache.policy = true := by
    rw [rules]
    rfl
  rw [enforceBound, partitioned, settled]
  rcases partitioned_round policy (CachePolicy.capacity cache.policy) last holds.1 with
    ⟨within, round⟩ | ⟨_, _, _, _, round⟩
  · rw [round]
    exact ⟨holds.1, within, holds.2.2⟩
  · rw [round] at ends
    cases ends

/-- The policy is the partitioned one, whatever its partitions remember, and nothing is
over its budget. -/
structure Budgeted (policy : Partitioned) (cache : ReprCache ShippedPolicy) : Prop where
  rules : ∃ kept, cache.policy = .partitioned kept ∧ policy.Alike kept
  within : InBudget policy cache.state

/-- A cache that was held to its bounds is so after a trim that leaves the rules. -/
theorem Budgeted.trims {policy : Partitioned} {cache after : ReprCache ShippedPolicy}
    (budgeted : Budgeted policy cache) (trims : Trims cache.state after.state)
    (rules : after.policy = cache.policy) : Budgeted policy after :=
  ⟨rules ▸ budgeted.rules, budgeted.within.trims trims⟩

/-- A shipped policy's contest remembers nothing. -/
theorem ask_contest_policy (state : CacheState) (policy : ShippedPolicy) (key : CacheKey)
    (candidate : EntryFacts) : (askContest state policy key candidate).2 = policy := by
  rw [askContest]
  split
  · rfl
  · split
    · cases policy <;> rfl
    · rfl

/-- What a candidate puts on the other partitions is nothing. -/
theorem within_put (policy : Partitioned) (cache : ReprCache ShippedPolicy)
    (remembers : ShippedPolicy) (key : CacheKey) (slot : Slot) (within : InBudget policy cache.state)
    (other : Nat) (away : other ≠ policy.partitionOf slot.target) :
    policy.Within other (cache.filed remembers key slot).state.residents := by
  have head : (cache.filed remembers key slot).state.residents =
      slot.facts key.request :: (cache.state.evict key).residents := by
    simp only [filed, CacheState.put, residents, entries_evict, AList.entries_insert,
      List.map_cons]
    rfl
  have outside : (policy.partitionOf (slot.facts key.request).target == other) = false := by
    rw [beq_eq_false_iff_ne]
    exact Ne.symm away
  rw [Partitioned.Within, head, Partitioned.membersOf, List.filter_cons, outside,
    if_neg Bool.false_ne_true]
  exact within.trims (Trims.evict _ _) other

/-- A store under a partitioned policy: afterwards everything is within budget, and what
stood in another partition, under another key, still stands. -/
theorem store_partitioned (policy : Partitioned) (cache : ReprCache ShippedPolicy)
    (budgeted : Budgeted policy cache) (key : CacheKey) (target : Text)
    (representation : Representation) (taken : Nat) (costMillis : Option Nat)
    (incoming : Option Provenance) :
    Budgeted policy
        (cache.storeOutcome key target representation taken costMillis incoming).1 ∧
      ∀ asked slot, cache.state.entries.lookup asked = some slot →
        policy.partitionOf slot.target ≠ policy.partitionOf target →
        (asked = key → slot.target = target) →
          (cache.storeOutcome key target representation taken costMillis
            incoming).1.state.entries.lookup asked = some slot := by
  obtain ⟨kept, rules, alike⟩ := budgeted.rules
  have admits : ∀ candidate, (CachePolicy.admits cache.policy candidate).2 =
      .partitioned (kept.admits candidate).2 := by
    intro candidate
    rw [rules]
    rfl
  rcases store_outcome_cases cache key target representation taken costMillis incoming with
    ⟨tick, remembers, declined, later, remembered, outcome⟩ |
      ⟨remembers, enforced, _, _, _, contested, rfl, outcome⟩
  · rw [outcome]
    refine ⟨⟨?_, budgeted.within.trims (Trims.tick _ tick later)⟩, fun _ _ held _ _ => held⟩
    rcases remembered with rfl | rfl | rfl
    · exact ⟨kept, rules, alike⟩
    · exact ⟨_, admits _, alike.trans (kept.admits_alike _)⟩
    · rw [ask_contest_policy]
      exact ⟨_, admits _, alike.trans (kept.admits_alike _)⟩
  · have now_rules : remembers = .partitioned (kept.admits
        (candidateFacts cache.state key target representation costMillis)).2 := by
      have second := congrArg Prod.snd contested
      rw [ask_contest_policy, admits] at second
      exact second.symm
    have alike' := alike.trans (kept.admits_alike
      (candidateFacts cache.state key target representation costMillis))
    rw [outcome]
    obtain ⟨rules', within, frame⟩ := enforce_partitioned _ (cache.filed remembers key
      (freshSlot cache.state target representation costMillis incoming)) now_rules
    refine ⟨⟨⟨_, rules', alike'⟩, ?_⟩, ?_⟩
    · intro partition
      exact alike'.symm.within ((InBudget.trims within (Trims.sweep _ _)) partition)
    · intro asked slot held away own
      have elsewhere : asked ≠ key := fun same => away (own same ▸ rfl)
      have swept : ∀ state : CacheState, ∀ maxEntries,
          (state.sweepGenerations maxEntries).entries = state.entries := by
        intro state maxEntries
        rw [sweepGenerations]
        split <;> rfl
      dsimp only
      rw [swept]
      apply frame (policy.partitionOf target)
      · intro other apart
        apply alike'.within
        exact within_put policy cache remembers key _ budgeted.within other apart
      · simp only [filed, CacheState.put, KeyedMap.lookup_insert_eq, if_neg elsewhere]
        exact held
      · rw [← alike'.partition_of_eq]
        exact away

/-- One operation keeps a budgeted cache budgeted. -/
theorem budgeted_perform (policy : Partitioned) (cache : ReprCache ShippedPolicy) (op : CacheOp)
    (budgeted : Budgeted policy cache) : Budgeted policy (cache.perform op).1 := by
  cases op with
  | snapshot => exact budgeted
  | publish => exact ⟨budgeted.rules, budgeted.within⟩
  | recordCut thread => exact ⟨budgeted.rules, budgeted.within⟩
  | cutWith thread => exact ⟨budgeted.rules, budgeted.within⟩
  | store key target representation taken costMillis incoming =>
    exact (store_partitioned policy cache budgeted key target representation taken costMillis
      incoming).1
  | storeFailure key target error until_ threads taken incoming =>
    rcases store_failure_cases cache key target error until_ threads taken incoming with
      ⟨declined, outcome⟩ | ⟨_, room, _, outcome⟩ <;>
        simp only [perform, outcome] <;> exact ⟨budgeted.rules, budgeted.within⟩
  | get key now =>
    have spec := serve_or_offer_spec cache key now
      (fun entry => entry.representation.copied) fun _ => none
    exact budgeted.trims spec.1 (congrArg ReprCache.policy spec.2.1 :)
  | getBody key now =>
    have spec := serve_or_offer_spec cache key now
      (fun entry => entry.representation.share) fun _ => none
    exact budgeted.trims spec.1 (congrArg ReprCache.policy spec.2.1 :)
  | lookup key now buffer incoming offer =>
    have spec := serve_or_offer_spec cache key now (answerFace buffer incoming)
      (offerFace offer incoming)
    exact budgeted.trims spec.1 (congrArg ReprCache.policy spec.2.1 :)
  | getFailure key now incoming =>
    have spec := get_failure_spec cache key now incoming
    exact budgeted.trims spec.1 (congrArg ReprCache.policy spec.2.1 :)
  | discard key offer =>
    have spec := discard_trims cache key offer
    exact budgeted.trims spec.1 (congrArg ReprCache.policy spec.2 :)

/-- Every run under a partitioned policy keeps to the budgets. -/
theorem budgeted_after (policy : Partitioned) (ops : List CacheOp) :
    Budgeted policy (after (.partitioned policy) ops) := by
  induction ops using List.reverseRecOn with
  | nil =>
    refine ⟨⟨policy, rfl, Partitioned.Alike.refl policy⟩, ?_⟩
    intro partition
    exact ⟨Nat.zero_le _, Nat.zero_le _⟩
  | append_singleton ops op ih =>
    rw [after_concat]
    exact budgeted_perform policy _ op ih

end ReprCache

namespace Partitioned

/-- Every partition there is, the rest last. -/
def numbers (policy : Partitioned) : Finset Nat := Finset.range (policy.partitions.length + 1)

/-- Each resident is in one partition, so what residents count for is spread over the
partitions. -/
theorem spread (policy : Partitioned) (count : EntryFacts → Nat) (resident : List EntryFacts) :
    (resident.map count).sum =
      ∑ partition ∈ policy.numbers, ((policy.membersOf partition resident).map count).sum := by
  induction resident with
  | nil => simp [membersOf]
  | cons facts rest ih =>
    have home : policy.partitionOf facts.target ∈ policy.numbers :=
      Finset.mem_range.mpr (Nat.lt_succ_of_le (policy.partition_of_le facts.target))
    have one : ∀ partition, ((policy.membersOf partition (facts :: rest)).map count).sum =
        (if policy.partitionOf facts.target = partition then count facts else 0) +
          ((policy.membersOf partition rest).map count).sum := by
      intro partition
      rw [membersOf, membersOf, List.filter_cons]
      by_cases here : policy.partitionOf facts.target = partition
      · rw [if_pos (beq_iff_eq.mpr here), if_pos here, List.map_cons, List.sum_cons]
      · rw [if_neg (by simpa using here), if_neg here, Nat.zero_add]
    rw [List.map_cons, List.sum_cons, ih, Finset.sum_congr rfl fun partition _ => one partition,
      Finset.sum_add_distrib, Finset.sum_ite_eq, if_pos home]

/-- A saturated total is at most the sum of the saturated parts. -/
theorem min_sum_le (numbers : Finset Nat) (part : Nat → Nat) (ceiling : Nat) :
    min (∑ number ∈ numbers, part number) ceiling ≤ ∑ number ∈ numbers, min (part number) ceiling := by
  induction numbers using Finset.induction with
  | empty => simp
  | insert number rest fresh ih =>
    rw [Finset.sum_insert fresh, Finset.sum_insert fresh]
    omega

/-- The bound of the whole is the sum of the partitions' own, saturated. -/
theorem min_sum_le_capacity (policy : Partitioned) (half : CacheBound → Nat)
    (adds : ∀ total bound : CacheBound,
      half ⟨saturatingAdd total.maxEntries bound.maxEntries,
        saturatingAdd total.maxBytes bound.maxBytes⟩ = saturatingAdd (half total) (half bound)) :
    min (∑ partition ∈ policy.numbers, half (policy.policyOf partition).capacity) wordMax ≤
      half policy.capacity := by
  have folded : ∀ (partitions : List (Text × SimplePolicy)) (start : CacheBound),
      min (half start + (partitions.map fun given => half given.2.capacity).sum) wordMax ≤
        half (partitions.foldl (fun total given =>
          ⟨saturatingAdd total.maxEntries given.2.capacity.maxEntries,
            saturatingAdd total.maxBytes given.2.capacity.maxBytes⟩) start) := by
    intro partitions
    induction partitions with
    | nil => exact fun start => by simp
    | cons given rest ih =>
      intro start
      refine le_trans ?_ (ih _)
      rw [adds, saturatingAdd, List.map_cons, List.sum_cons]
      omega
  have listed : ∑ partition ∈ policy.numbers, half (policy.policyOf partition).capacity =
      half policy.rest.capacity + (policy.partitions.map fun given => half given.2.capacity).sum := by
    rw [numbers, Finset.sum_range_succ, Nat.add_comm]
    congr 1
    · rw [policyOf, List.getElem?_eq_none le_rfl]
    · rw [← Fin.sum_univ_fun_getElem, Finset.sum_range]
      apply Finset.sum_congr rfl
      intro partition _
      rw [policyOf, List.getElem?_eq_getElem partition.isLt]
  rw [listed]
  exact folded policy.partitions policy.rest.capacity

/-- With every partition within its own bound, the cache is within theirs added up: its
entries, counted in a word, and its bytes. -/
theorem whole_within (policy : Partitioned) (resident : List EntryFacts)
    (within : ∀ partition, policy.Within partition resident) :
    min resident.length wordMax ≤ policy.capacity.maxEntries ∧
      totalBytes resident ≤ policy.capacity.maxBytes := by
  constructor
  · have entries := policy.spread (fun _ => 1) resident
    simp only [List.map_const', List.sum_replicate, smul_eq_mul, Nat.mul_one] at entries
    refine le_trans ?_ (policy.min_sum_le_capacity CacheBound.maxEntries fun _ _ => rfl)
    rw [entries]
    exact min_le_min_right _ (Finset.sum_le_sum fun partition _ => (within partition).1)
  · refine le_trans ?_ (policy.min_sum_le_capacity CacheBound.maxBytes fun _ _ => rfl)
    rw [total_bytes_eq, policy.spread EntryFacts.bytes resident]
    refine le_min (le_trans (min_sum_le _ _ _) ?_) (min_le_right _ _)
    apply Finset.sum_le_sum
    intro partition _
    rw [← total_bytes_eq]
    exact (within partition).2

end Partitioned

/-- The cache's own byte total is at most what its residents add up to. -/
theorem CacheState.Measured.total {state : CacheState} (measured : Measured state) :
    state.bytes ≤ totalBytes state.residents := by
  rw [total_bytes_eq, residents, List.map_map]
  exact le_min measured.bytes measured.word

/-- The bound and the isolation of partitions: after any run and one more store, each
partition is within its own bound and the whole within their sum, and a resident of
another partition than the stored target's is still there. The store's own key is a
request's identity, so an entry already under it was filed for the same target. -/
theorem partitions_hold (policy : Partitioned) (ops : List CacheOp) (key : CacheKey)
    (target : Text) (representation : Representation) (taken : Nat) (costMillis : Option Nat)
    (incoming : Option Provenance) :
    let before := (ReprCache.after (ShippedPolicy.partitioned policy) ops).state
    let stored := ((ReprCache.after (ShippedPolicy.partitioned policy) ops).storeOutcome key target
      representation taken costMillis incoming).1.state
    (∀ partition,
      (policy.membersOf partition stored.residents).length ≤
          (policy.policyOf partition).capacity.maxEntries ∧
        totalBytes (policy.membersOf partition stored.residents) ≤
          (policy.policyOf partition).capacity.maxBytes) ∧
      (min stored.entries.length wordMax ≤ policy.capacity.maxEntries ∧
        totalBytes stored.residents ≤ policy.capacity.maxBytes ∧
        stored.bytes ≤ policy.capacity.maxBytes) ∧
      ∀ asked slot, before.entries.lookup asked = some slot →
        policy.partitionOf slot.target ≠ policy.partitionOf target →
        (asked = key → slot.target = target) → stored.entries.lookup asked = some slot := by
  intro before stored
  have budgeted := ReprCache.budgeted_after policy ops
  obtain ⟨kept, frame⟩ := ReprCache.store_partitioned policy _ budgeted key target representation
    taken costMillis incoming
  have measured := measured_perform (ReprCache.after (ShippedPolicy.partitioned policy) ops)
    (.store key target representation taken costMillis incoming)
    (measured_after (ShippedPolicy.partitioned policy) ops)
  obtain ⟨entries, bytes⟩ := policy.whole_within _ kept.within
  rw [CacheState.residents, List.length_map] at entries
  exact ⟨kept.within, ⟨entries, bytes, measured.total.trans bytes⟩, frame⟩

end Ikigai
