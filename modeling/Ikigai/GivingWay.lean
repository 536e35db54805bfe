import Ikigai.PolicyChoice

/-!
# The order entries give way in

While a candidate just stored is still held, each shipped policy gives its residents up in
one fixed order: its victim is always the least by a score that does not change as entries
go. What comes after the candidate in that order outlasts it.
-/

namespace Ikigai

namespace ScanResistant

/-- The order protected entries give way in: the least often served, then the least
recently. -/
def rank (resident : List EntryFacts) (facts : EntryFacts) : ℚ ×ₗ ℕ :=
  toLex ((rate resident facts).value, facts.lastUsedTick)

/-- A protected entry that gives way before any other entry does: it and the protected
entries ranked above it hold more than their share. -/
def surplus (policy : ScanResistant) (resident : List EntryFacts) (facts : EntryFacts) : Bool :=
  policy.protectedOver (resident.filter fun other =>
    decide (rank resident facts ≤ rank resident other))

end ScanResistant

namespace SimplePolicy

/-- Whether a resident is given up only after a candidate that has just joined it. -/
def outlasts (policy : SimplePolicy) (resident : List EntryFacts) (candidate facts : EntryFacts) :
    Bool :=
  match policy with
  | .lru _ | .fifo _ => false
  | .costAware _ => decide (CostAware.density candidate < CostAware.density facts)
  | .scanResistant counting =>
    ScanResistant.isProtected facts && !counting.surplus (candidate :: resident) facts

/-- The place of an entry in the order of giving way. -/
def score (policy : SimplePolicy) (resident : List EntryFacts) (facts : EntryFacts) :
    ℕ ×ₗ ℚ ×ₗ ℕ :=
  match policy with
  | .lru _ => toLex (0, toLex (0, facts.lastUsedTick))
  | .fifo _ => toLex (0, toLex (0, facts.storedTick))
  | .costAware _ => toLex (0, toLex ((CostAware.density facts : ℚ), facts.lastUsedTick))
  | .scanResistant counting =>
    if ScanResistant.isProtected facts then
      toLex (if counting.surplus resident facts then 0 else 2, ScanResistant.rank resident facts)
    else toLex (1, toLex (0, facts.lastUsedTick))

end SimplePolicy

/-- Scores of one class compare by what follows. -/
theorem score_le_iff (place : ℕ) (first second : ℚ) (tick tick' : ℕ) :
    (toLex (place, toLex (first, tick)) : ℕ ×ₗ ℚ ×ₗ ℕ) ≤ toLex (place, toLex (second, tick')) ↔
      toLex (first, tick) ≤ toLex (second, tick') := by
  rw [Prod.Lex.toLex_le_toLex]
  simp

theorem score_lt_of_place {place place' : ℕ} (rest rest' : ℚ ×ₗ ℕ) (before : place < place') :
    (toLex (place, rest) : ℕ ×ₗ ℚ ×ₗ ℕ) < toLex (place', rest') :=
  Prod.Lex.toLex_lt_toLex.mpr (.inl before)

/-- The newest of some residents: never served, and at later ticks than every other. -/
structure Newest (resident : List EntryFacts) (candidate : EntryFacts) : Prop where
  held : candidate ∈ resident
  unserved : candidate.hits = 0
  used : ∀ facts ∈ resident, facts ≠ candidate → facts.lastUsedTick < candidate.lastUsedTick
  stored : ∀ facts ∈ resident, facts ≠ candidate → facts.storedTick < candidate.storedTick

namespace Newest

variable {resident : List EntryFacts} {candidate : EntryFacts}

/-- Residents that are left, the candidate among them. -/
theorem of_subset {left : List EntryFacts} (newest : Newest resident candidate)
    (held : candidate ∈ left) (subset : left ⊆ resident) : Newest left candidate where
  held := held
  unserved := newest.unserved
  used := fun facts inside => newest.used facts (subset inside)
  stored := fun facts inside => newest.stored facts (subset inside)

theorem fresh (newest : Newest resident candidate) :
    ScanResistant.isProtected candidate = false := by
  rw [ScanResistant.isProtected, newest.unserved]
  rfl

/-- The newest use is the candidate's. -/
theorem now_eq (newest : Newest resident candidate) :
    ScanResistant.now resident = candidate.lastUsedTick := by
  have ceiling : ∀ (ticks : List Nat) (start : Nat),
      start ≤ ticks.foldl max start ∧ (∀ tick ∈ ticks, tick ≤ ticks.foldl max start) ∧
        (ticks.foldl max start = start ∨ ticks.foldl max start ∈ ticks) := by
    intro ticks
    induction ticks with
    | nil => simp
    | cons first rest ih =>
      intro start
      obtain ⟨above, bounds, reached⟩ := ih (max start first)
      rw [List.foldl_cons]
      refine ⟨(le_max_left _ _).trans above, ?_, ?_⟩
      · rintro tick (_ | ⟨_, later⟩)
        · exact (le_max_right _ _).trans above
        · exact bounds tick later
      · rcases reached with same | member
        · rcases max_choice start first with left | right
          · exact .inl (same.trans left)
          · exact .inr (by rw [same, right]; exact List.mem_cons_self)
        · exact .inr (List.mem_cons_of_mem _ member)
  obtain ⟨_, bounds, reached⟩ := ceiling (resident.map EntryFacts.lastUsedTick) 0
  have above := bounds _ (List.mem_map_of_mem newest.held)
  rw [ScanResistant.now]
  apply le_antisymm _ above
  rcases reached with none_used | member
  · rw [none_used]
    exact Nat.zero_le _
  · obtain ⟨facts, inside, tick⟩ := List.mem_map.mp member
    rw [← tick]
    by_cases same : facts = candidate
    · rw [same]
    · exact (newest.used facts inside same).le

/-- Ranks do not change as residents leave, as long as the candidate stays. -/
theorem rank_eq {left : List EntryFacts} (newest : Newest resident candidate)
    (held : candidate ∈ left) (subset : left ⊆ resident) (facts : EntryFacts) :
    ScanResistant.rank left facts = ScanResistant.rank resident facts := by
  rw [ScanResistant.rank, ScanResistant.rank, ScanResistant.rate, ScanResistant.rate,
    newest.now_eq, (newest.of_subset held subset).now_eq]

end Newest

/-- More entries hold no less of a share. -/
theorem ScanResistant.protected_over_mono (policy : ScanResistant) {fewer more : List EntryFacts}
    (subperm : (fewer.filter ScanResistant.isProtected).Subperm
      (more.filter ScanResistant.isProtected))
    (exceeded : policy.protectedOver fewer = true) : policy.protectedOver more = true := by
  have count := subperm.length_le
  obtain ⟨kept, perm, sublist⟩ := subperm
  have bytes := (sublist.map EntryFacts.bytes).sum_le_sum fun _ _ => Nat.zero_le _
  rw [(perm.map EntryFacts.bytes).sum_eq] at bytes
  simp only [protectedOver, total_bytes_eq, Bool.or_eq_true, decide_eq_true_eq] at exceeded ⊢
  omega

/-- Residents that are left are an upper part of the order. -/
def Upper (policy : SimplePolicy) (resident left : List EntryFacts) : Prop :=
  ∀ facts ∈ left, ∀ other ∈ resident,
    policy.score resident facts ≤ policy.score resident other → other ∈ left

/-- What a policy gives up from an upper part of the order is its least. -/
theorem victim_least (policy : SimplePolicy) (resident left : List EntryFacts)
    (candidate : EntryFacts) (newest : Newest resident candidate) (distinct : resident.Nodup)
    (distinct' : left.Nodup) (held : candidate ∈ left) (subset : left ⊆ resident)
    (upper : Upper policy resident left) :
    ∃ index victim, policy.victim left = some index ∧ left[index]? = some victim ∧
      ∀ other ∈ left, policy.score resident victim ≤ policy.score resident other := by
  have some_left : left ≠ [] := List.ne_nil_of_mem held
  cases policy with
  | lru bound =>
    obtain ⟨index, victim, chosen, placed, least⟩ :=
      argmin_spec left EntryFacts.lastUsedTick some_left
    refine ⟨index, victim, chosen, placed, fun other inside => ?_⟩
    exact (score_le_iff 0 0 0 _ _).mpr (Prod.Lex.toLex_le_toLex.mpr (.inr ⟨rfl, least other inside⟩))
  | fifo bound =>
    obtain ⟨index, victim, chosen, placed, least⟩ :=
      argmin_spec left EntryFacts.storedTick some_left
    refine ⟨index, victim, chosen, placed, fun other inside => ?_⟩
    exact (score_le_iff 0 0 0 _ _).mpr (Prod.Lex.toLex_le_toLex.mpr (.inr ⟨rfl, least other inside⟩))
  | costAware bound =>
    obtain ⟨index, victim, chosen, placed, least⟩ := CostAware.victim_eq left some_left
    refine ⟨index, victim, chosen, placed, fun other inside => ?_⟩
    refine (score_le_iff 0 _ _ _ _).mpr ?_
    have order := least other inside
    rw [Prod.Lex.toLex_le_toLex] at order ⊢
    dsimp only at order ⊢
    exact_mod_cast order
  | scanResistant counting =>
    obtain ⟨index, victim, chosen, placed, kind⟩ := counting.victim_cases left some_left
    have inside := List.mem_of_getElem? placed
    have ranks := newest.rank_eq held subset
    refine ⟨index, victim, chosen, placed, fun other there => ?_⟩
    rcases kind with ⟨unserved, within, oldest⟩ | ⟨served, exceeded, least⟩
    · rw [SimplePolicy.score, unserved, if_neg Bool.false_ne_true, SimplePolicy.score]
      by_cases guarded : ScanResistant.isProtected other = true
      · -- A protected entry of the surplus would still have its whole share above it.
        have keeps : counting.surplus resident other = false := by
          by_contra over_share
          have over_share : counting.surplus resident other = true := by simpa using over_share
          have above : ((resident.filter fun entry => decide (ScanResistant.rank resident other ≤
              ScanResistant.rank resident entry)).filter ScanResistant.isProtected).Subperm
              (left.filter ScanResistant.isProtected) := by
            apply ((distinct.filter _).filter _).subperm
            intro entry member
            obtain ⟨member, guards⟩ := List.mem_filter.mp member
            obtain ⟨member, ranked⟩ := List.mem_filter.mp member
            refine List.mem_filter.mpr ⟨upper other there entry member ?_, guards⟩
            rw [SimplePolicy.score, guarded, if_pos rfl, over_share, if_pos rfl, SimplePolicy.score,
              guards, if_pos rfl]
            by_cases gives : counting.surplus resident entry = true
            · rw [if_pos gives]
              exact Prod.Lex.toLex_le_toLex.mpr (.inr ⟨rfl, of_decide_eq_true ranked⟩)
            · rw [if_neg gives]
              exact (score_lt_of_place _ _ (by decide)).le
          rw [counting.protected_over_mono above over_share] at within
          cases within
        rw [if_pos guarded, keeps, if_neg Bool.false_ne_true]
        exact (score_lt_of_place _ _ (by decide)).le
      · rw [if_neg guarded]
        exact (score_le_iff 1 0 0 _ _).mpr (Prod.Lex.toLex_le_toLex.mpr
          (.inr ⟨rfl, oldest other there (by simpa using guarded)⟩))
    · have exceeded : counting.protectedOver left = true := by
        rcases exceeded with exceeded | all_served
        · exact exceeded
        · have fresh := newest.fresh
          rw [all_served candidate held] at fresh
          cases fresh
      have gives : counting.surplus resident victim = true := by
        refine counting.protected_over_mono ?_ exceeded
        apply (distinct'.filter _).subperm
        intro entry member
        obtain ⟨member, guards⟩ := List.mem_filter.mp member
        refine List.mem_filter.mpr ⟨List.mem_filter.mpr ⟨subset member, decide_eq_true ?_⟩, guards⟩
        rw [← ranks, ← ranks]
        exact least entry member guards
      rw [SimplePolicy.score, served, if_pos rfl, gives, if_pos rfl, SimplePolicy.score]
      by_cases guarded : ScanResistant.isProtected other = true
      · rw [if_pos guarded]
        by_cases gives' : counting.surplus resident other = true
        · rw [if_pos gives', ← ranks, ← ranks]
          exact Prod.Lex.toLex_le_toLex.mpr (.inr ⟨rfl, least other there guarded⟩)
        · rw [if_neg gives']
          exact (score_lt_of_place _ _ (by decide)).le
      · rw [if_neg guarded]
        exact (score_lt_of_place _ _ (by decide)).le

/-- Entries of one score stand at one tick. -/
theorem score_apart (policy : SimplePolicy) (resident : List EntryFacts) (facts other : EntryFacts)
    (same : policy.score resident facts = policy.score resident other) :
    facts.lastUsedTick = other.lastUsedTick ∨ facts.storedTick = other.storedTick := by
  cases policy with
  | lru bound => exact .inl (congrArg (fun score => (ofLex (ofLex score).2).2) same)
  | fifo bound => exact .inr (congrArg (fun score => (ofLex (ofLex score).2).2) same)
  | costAware bound => exact .inl (congrArg (fun score => (ofLex (ofLex score).2).2) same)
  | scanResistant counting =>
    have ticks : ∀ facts : EntryFacts,
        (ofLex (ofLex (SimplePolicy.score (.scanResistant counting) resident facts)).2).2 =
          facts.lastUsedTick := by
      intro facts
      rw [SimplePolicy.score]
      split <;> rfl
    exact .inl (by rw [← ticks, same, ticks])

/-- What outlasts the newest is what comes after it in the order. -/
theorem outlasts_iff (policy : SimplePolicy) (others : List EntryFacts) (candidate facts : EntryFacts)
    (newest : Newest (candidate :: others) candidate) (inside : facts ∈ others)
    (apart : facts ≠ candidate) :
    policy.outlasts others candidate facts = true ↔
      policy.score (candidate :: others) candidate < policy.score (candidate :: others) facts := by
  have used := newest.used facts (List.mem_cons_of_mem _ inside) apart
  have stored := newest.stored facts (List.mem_cons_of_mem _ inside) apart
  have later : ∀ {tick tick' : ℕ}, tick < tick' →
      ¬(toLex (0, toLex (0, tick')) : ℕ ×ₗ ℚ ×ₗ ℕ) < toLex (0, toLex (0, tick)) := by
    intro tick tick' less
    rw [not_lt, score_le_iff, Prod.Lex.toLex_le_toLex]
    exact .inr ⟨rfl, less.le⟩
  cases policy with
  | lru bound =>
    exact ⟨fun never => absurd never Bool.false_ne_true, fun less => absurd less (later used)⟩
  | fifo bound =>
    exact ⟨fun never => absurd never Bool.false_ne_true, fun less => absurd less (later stored)⟩
  | costAware bound =>
    rw [SimplePolicy.outlasts, decide_eq_true_eq, ← not_le, ← not_le, not_iff_not,
      SimplePolicy.score, SimplePolicy.score, score_le_iff, Prod.Lex.toLex_le_toLex]
    dsimp only
    rw [Nat.cast_lt, Nat.cast_inj, and_iff_left used.le]
    exact Nat.le_iff_lt_or_eq
  | scanResistant counting =>
    rw [SimplePolicy.outlasts, SimplePolicy.score, newest.fresh, if_neg Bool.false_ne_true,
      SimplePolicy.score]
    by_cases guarded : ScanResistant.isProtected facts = true
    · rw [if_pos guarded, guarded, Bool.true_and]
      by_cases gives : counting.surplus (candidate :: others) facts = true
      · rw [gives, if_pos rfl]
        exact ⟨fun never => absurd never Bool.false_ne_true,
          fun less => absurd less (score_lt_of_place _ _ (by decide)).not_gt⟩
      · rw [if_neg gives, Bool.eq_false_iff.mpr gives]
        exact ⟨fun _ => score_lt_of_place _ _ (by decide), fun _ => rfl⟩
    · rw [if_neg guarded, Bool.eq_false_iff.mpr guarded, Bool.false_and]
      refine ⟨fun never => absurd never Bool.false_ne_true, fun less => absurd less ?_⟩
      rw [not_lt, score_le_iff, Prod.Lex.toLex_le_toLex]
      exact .inr ⟨rfl, used.le⟩

end Ikigai
