import Ikigai.CachePolicy

/-!
# What the shipped policies choose

A victim is a resident, there is one whenever anything is resident, and it is the least by
its policy's score. A partitioned policy names a victim exactly when a partition is over
its bound, and the victim is an entry of such a partition.
-/

namespace Ikigai

/-- Adding up with saturation gives the sum, saturated. -/
theorem foldl_saturating (resident : List EntryFacts) (start : Nat) (within : start ≤ wordMax) :
    resident.foldl (fun total facts => saturatingAdd total facts.bytes) start =
      min (start + (resident.map EntryFacts.bytes).sum) wordMax := by
  induction resident generalizing start with
  | nil => simpa using within
  | cons first rest ih =>
    have saturated : saturatingAdd start first.bytes ≤ wordMax := min_le_right _ _
    rw [List.foldl_cons, ih _ saturated, List.map_cons, List.sum_cons, saturatingAdd]
    omega

/-- What residents weigh together is capped at a word. -/
theorem total_bytes_eq (resident : List EntryFacts) :
    totalBytes resident = min (resident.map EntryFacts.bytes).sum wordMax := by
  rw [totalBytes, foldl_saturating resident 0 (Nat.zero_le _), Nat.zero_add]

/-- An entry has its own place in the numbered list. -/
theorem getElem?_of_mem_zipIdx {resident : List EntryFacts} {entry : EntryFacts × Nat}
    (inside : entry ∈ resident.zipIdx) : resident[entry.2]? = some entry.1 :=
  List.mem_zipIdx_iff_getElem?.mp inside

/-- Every resident has a place. -/
theorem exists_mem_zipIdx {resident : List EntryFacts} {facts : EntryFacts}
    (inside : facts ∈ resident) : ∃ index, (facts, index) ∈ resident.zipIdx := by
  obtain ⟨index, found⟩ := List.mem_iff_getElem?.mp inside
  exact ⟨index, List.mem_zipIdx_iff_getElem?.mpr found⟩

section Argmin

variable {β : Type} [LinearOrder β]

/-- The least among the entries to be considered is one of them, and there is one whenever
any is to be considered. -/
theorem argmin_among_spec (resident : List EntryFacts) (keep : EntryFacts → Bool)
    (score : EntryFacts → β) :
    (argminAmong resident keep score = none ∧ ∀ facts ∈ resident, keep facts = false) ∨
      ∃ index facts, argminAmong resident keep score = some index ∧
        resident[index]? = some facts ∧ keep facts = true ∧
        ∀ other ∈ resident, keep other = true → score facts ≤ score other := by
  rw [argminAmong]
  cases least : (resident.zipIdx.filter fun entry => keep entry.1).argmin
      fun entry => score entry.1 with
  | none =>
    refine .inl ⟨rfl, ?_⟩
    intro facts inside
    obtain ⟨index, placed⟩ := exists_mem_zipIdx inside
    have empty := List.argmin_eq_none.mp least
    simpa using List.filter_eq_nil_iff.mp empty (facts, index) placed
  | some entry =>
    obtain ⟨placed, kept⟩ := List.mem_filter.mp (List.argmin_mem least)
    refine .inr ⟨entry.2, entry.1, rfl, getElem?_of_mem_zipIdx placed, kept, ?_⟩
    intro other inside keeps
    obtain ⟨index, placed'⟩ := exists_mem_zipIdx inside
    have considered : (other, index) ∈ resident.zipIdx.filter fun entry => keep entry.1 :=
      List.mem_filter.mpr ⟨placed', keeps⟩
    exact List.le_of_mem_argmin (f := fun entry : EntryFacts × Nat => score entry.1) considered
      (Option.mem_def.mpr least)

/-- The least of all is the least of those that pass every test. -/
theorem argmin_eq_among (resident : List EntryFacts) (score : EntryFacts → β) :
    argmin resident score = argminAmong resident (fun _ => true) score := by
  rw [argmin, argminAmong, List.filter_true]

/-- The least entry is a resident no other is below. -/
theorem argmin_spec (resident : List EntryFacts) (score : EntryFacts → β)
    (some_resident : resident ≠ []) :
    ∃ index facts, argmin resident score = some index ∧ resident[index]? = some facts ∧
      ∀ other ∈ resident, score facts ≤ score other := by
  rw [argmin_eq_among]
  rcases argmin_among_spec resident (fun _ => true) score with ⟨_, empty⟩ |
    ⟨index, facts, chosen, placed, _, least⟩
  · obtain ⟨first, rest, rfl⟩ := List.exists_cons_of_ne_nil some_resident
    exact absurd (empty first List.mem_cons_self) Bool.true_eq_false_eq_False
  · exact ⟨index, facts, chosen, placed, fun other inside => least other inside rfl⟩

end Argmin

namespace ScanResistant

/-- A protected entry gives way while the protected ones hold more than their share, and
the least recently served of the others otherwise. -/
theorem victim_cases (policy : ScanResistant) (resident : List EntryFacts)
    (some_resident : resident ≠ []) :
    ∃ index facts, policy.victim resident = some index ∧ resident[index]? = some facts ∧
      ((isProtected facts = false ∧ policy.protectedOver resident = false ∧
          ∀ other ∈ resident, isProtected other = false →
            facts.lastUsedTick ≤ other.lastUsedTick) ∨
        isProtected facts = true ∧
          (policy.protectedOver resident = true ∨ ∀ other ∈ resident, isProtected other = true) ∧
          ∀ other ∈ resident, isProtected other = true →
            toLex ((rate resident facts).value, facts.lastUsedTick) ≤
              toLex ((rate resident other).value, other.lastUsedTick)) := by
  have guarded : (∃ facts ∈ resident, isProtected facts = true) →
      ∃ index facts, protectedVictim resident = some index ∧ resident[index]? = some facts ∧
        isProtected facts = true ∧ ∀ other ∈ resident, isProtected other = true →
          toLex ((rate resident facts).value, facts.lastUsedTick) ≤
            toLex ((rate resident other).value, other.lastUsedTick) := by
    rintro ⟨facts, inside, served⟩
    rcases argmin_among_spec resident isProtected (fun facts =>
      toLex ((rate resident facts).value, facts.lastUsedTick)) with ⟨_, none_served⟩ | found
    · rw [none_served facts inside] at served
      cases served
    · exact found
  rcases argmin_among_spec resident (fun facts => !isProtected facts) EntryFacts.lastUsedTick with
    ⟨chosen, all_served⟩ | ⟨index, facts, chosen, placed, unserved, least⟩
  · have all_served : ∀ other ∈ resident, isProtected other = true := by simpa using all_served
    obtain ⟨first, rest, rfl⟩ := List.exists_cons_of_ne_nil some_resident
    obtain ⟨index, facts, guards, placed, served, least⟩ :=
      guarded ⟨first, List.mem_cons_self, all_served first List.mem_cons_self⟩
    refine ⟨index, facts, ?_, placed, .inr ⟨served, .inr all_served, least⟩⟩
    simpa only [victim, chosen] using guards
  · have unserved : isProtected facts = false := by simpa using unserved
    by_cases exceeded : policy.protectedOver resident = true
    · -- More than a share of something is held by something.
      have held : ∃ facts ∈ resident, isProtected facts = true := by
        by_contra nobody
        have empty : resident.filter isProtected = [] := by
          rw [List.filter_eq_nil_iff]
          intro facts inside served
          exact nobody ⟨facts, inside, served⟩
        simp [protectedOver, empty, totalBytes] at exceeded
      obtain ⟨index', facts', guards, placed', served, least'⟩ := guarded held
      refine ⟨index', facts', ?_, placed', .inr ⟨served, .inl exceeded, least'⟩⟩
      simpa only [victim, chosen, exceeded, if_true] using guards
    · refine ⟨index, facts, ?_, placed, .inl ⟨unserved, by simpa using exceeded, ?_⟩⟩
      · simp only [victim, chosen, exceeded, Bool.false_eq_true, if_false]
      · intro other inside fresh
        exact least other inside (by simpa using fresh)

end ScanResistant

namespace CostAware

/-- The victim is the resident that scores least, and the first of those. -/
theorem victim_eq (resident : List EntryFacts) (some_resident : resident ≠ []) :
    ∃ index facts, victim resident = some index ∧ resident[index]? = some facts ∧
      ∀ other ∈ resident, toLex (density facts, facts.lastUsedTick) ≤
        toLex (density other, other.lastUsedTick) := by
  rw [victim]
  by_cases unmeasured : (resident.all fun facts => facts.costMillis.isNone) = true
  · -- With nothing measured every density is zero, and recency decides alone.
    rw [if_pos unmeasured]
    have free : ∀ facts ∈ resident, density facts = 0 := by
      intro facts inside
      have unknown : facts.costMillis = none := by
        simpa using List.all_eq_true.mp unmeasured facts inside
      simp [density, unknown, saturatingMul]
    obtain ⟨index, facts, chosen, placed, least⟩ :=
      argmin_spec resident EntryFacts.lastUsedTick some_resident
    refine ⟨index, facts, chosen, placed, ?_⟩
    intro other inside
    rw [free facts (List.mem_of_getElem? placed), free other inside]
    exact Prod.Lex.toLex_le_toLex.mpr (.inr ⟨rfl, least other inside⟩)
  · rw [if_neg unmeasured]
    exact argmin_spec resident _ some_resident

end CostAware

/-- Something resident means a victim among it. -/
theorem SimplePolicy.victim_resident (policy : SimplePolicy) (resident : List EntryFacts)
    (some_resident : resident ≠ []) :
    ∃ index facts, policy.victim resident = some index ∧ resident[index]? = some facts := by
  cases policy with
  | lru bound =>
    obtain ⟨index, facts, chosen, placed, _⟩ :=
      argmin_spec resident EntryFacts.lastUsedTick some_resident
    exact ⟨index, facts, chosen, placed⟩
  | fifo bound =>
    obtain ⟨index, facts, chosen, placed, _⟩ :=
      argmin_spec resident EntryFacts.storedTick some_resident
    exact ⟨index, facts, chosen, placed⟩
  | costAware bound =>
    obtain ⟨index, facts, chosen, placed, _⟩ := CostAware.victim_eq resident some_resident
    exact ⟨index, facts, chosen, placed⟩
  | scanResistant counting =>
    obtain ⟨index, facts, chosen, placed, _⟩ := counting.victim_cases resident some_resident
    exact ⟨index, facts, chosen, placed⟩

namespace Partitioned

/-- The residents of one partition. -/
def membersOf (policy : Partitioned) (partition : Nat) (resident : List EntryFacts) :
    List EntryFacts :=
  resident.filter fun facts => policy.partitionOf facts.target == partition

/-- A partition's members are the residents whose names are in it. -/
theorem members_facts (policy : Partitioned) (partition : Nat) (resident : List EntryFacts) :
    (policy.members partition resident).map Prod.fst = policy.membersOf partition resident := by
  have named := List.filter_map (f := @Prod.fst EntryFacts Nat)
    (p := fun facts => policy.partitionOf facts.target == partition) (l := resident.zipIdx)
  rw [List.zipIdx_map_fst] at named
  exact named.symm

/-- No more in a partition than its bound. -/
def Within (policy : Partitioned) (partition : Nat) (resident : List EntryFacts) : Prop :=
  (policy.membersOf partition resident).length ≤ (policy.policyOf partition).capacity.maxEntries ∧
    totalBytes (policy.membersOf partition resident) ≤
      (policy.policyOf partition).capacity.maxBytes

/-- A partition does not overflow exactly when it is within its bounds. -/
theorem overflow_eq_none_iff (policy : Partitioned) (partition : Nat) (resident : List EntryFacts) :
    policy.overflow partition ((policy.members partition resident).map Prod.fst) = none ↔
      policy.Within partition resident := by
  rw [members_facts, overflow, Within]
  split
  · rename_i exceeded
    constructor
    · rintro ⟨⟩
    · rintro ⟨entries, bytes⟩
      omega
  · rename_i within
    rw [not_or, Nat.not_lt, Nat.not_lt] at within
    exact ⟨fun _ => within, fun _ => rfl⟩

/-- A target's partition is one of those there are. -/
theorem partition_of_le (policy : Partitioned) (target : Text) :
    policy.partitionOf target ≤ policy.partitions.length := by
  rw [partitionOf]
  split
  · rename_i given longest
    have placed := (List.mem_filter.mp (List.argmax_mem longest)).1
    have inRange := List.snd_lt_of_mem_zipIdx placed
    rw [List.length_map] at inRange
    exact inRange.le
  · exact le_rfl

/-- Past the rest there is no partition to be over its bound. -/
theorem within_of_out_of_range (policy : Partitioned) (partition : Nat) (resident : List EntryFacts)
    (beyond : policy.partitions.length < partition) : policy.Within partition resident := by
  have empty : policy.membersOf partition resident = [] := by
    rw [membersOf, List.filter_eq_nil_iff]
    intro facts _ same
    have := policy.partition_of_le facts.target
    have same := beq_iff_eq.mp same
    omega
  rw [Within, empty]
  exact ⟨Nat.zero_le _, Nat.zero_le _⟩

/-- No partition is over exactly when each is within its bounds. -/
theorem over_partition_eq_false_iff (policy : Partitioned) (resident : List EntryFacts) :
    policy.overPartition resident = false ↔ ∀ partition, policy.Within partition resident := by
  rw [overPartition, List.any_eq_false]
  constructor
  · intro none_over partition
    by_cases inRange : partition < policy.partitions.length + 1
    · rw [← overflow_eq_none_iff]
      simpa using none_over partition (List.mem_range.mpr inRange)
    · exact policy.within_of_out_of_range partition resident (by omega)
  · intro within partition _
    rw [(policy.overflow_eq_none_iff partition resident).mpr (within partition)]
    exact Bool.false_ne_true

/-- A partitioned policy names no victim exactly when every partition is within its bound,
and what it names is its partition's own choice among its members. -/
theorem victim_spec (policy : Partitioned) (resident : List EntryFacts) :
    (policy.victim resident = none ∧ ∀ partition, policy.Within partition resident) ∨
      ∃ partition index chosen facts, ¬policy.Within partition resident ∧
        (policy.policyOf partition).victim (policy.membersOf partition resident) = some chosen ∧
        (policy.membersOf partition resident)[chosen]? = some facts ∧
        policy.victim resident = some index ∧ resident[index]? = some facts ∧
        policy.partitionOf facts.target = partition := by
  rw [victim]
  cases furthest : (policy.overflowing resident).argmax
      fun entry => toLex (toLex entry.2, OrderDual.toDual entry.1) with
  | none =>
    refine .inl ⟨rfl, ?_⟩
    have empty := List.argmax_eq_none.mp furthest
    rw [overflowing, List.filterMap_eq_nil_iff] at empty
    rw [← over_partition_eq_false_iff, overPartition, List.any_eq_false]
    intro partition inRange
    simpa using empty partition inRange
  | some entry =>
    obtain ⟨partition, excess⟩ := entry
    obtain ⟨named, _, found⟩ := List.mem_filterMap.mp (List.argmax_mem furthest)
    obtain ⟨excess', exceeded, ⟨⟩⟩ := Option.map_eq_some_iff.mp found
    have overfull : ¬policy.Within partition resident := by
      rw [← overflow_eq_none_iff, exceeded]
      exact nofun
    have some_member : policy.membersOf partition resident ≠ [] := by
      intro empty
      apply overfull
      rw [Within, empty]
      exact ⟨Nat.zero_le _, Nat.zero_le _⟩
    obtain ⟨chosen, facts, picked, placed⟩ :=
      (policy.policyOf partition).victim_resident _ some_member
    have placed' := placed
    rw [← members_facts, List.getElem?_map] at placed
    obtain ⟨member, at_chosen, rfl⟩ := Option.map_eq_some_iff.mp placed
    obtain ⟨numbered, belongs⟩ := List.mem_filter.mp (List.mem_of_getElem? at_chosen)
    refine .inr ⟨partition, member.2, chosen, member.1, overfull, picked, placed', ?_,
      getElem?_of_mem_zipIdx numbered, by simpa using belongs⟩
    dsimp only
    rw [members_facts, picked, Option.bind_some, at_chosen, Option.map_some]

end Partitioned

end Ikigai
