import Ikigai.AliasTable

/-!
# Chains of rewrites

The names a table takes a name through, one rule at a time, and what the walk makes of
them. The walk asks whether a rule still matches only while it has a hop left, so it
spends one of its budget on finding out that a chain has ended.
-/

namespace Ikigai

namespace AliasTable

variable [IriSyntax]

/-- The names reached from a name by the first rule that matches each, with the rules
applied; the last of them is the name reached. -/
inductive Follows (table : AliasTable) (target : Iri) : List Iri → List Nat → Iri → Prop where
  | nil : Follows table target [target] [] target
  | step (names : List Iri) (rules : List Nat) (last next : Iri) (index : Nat)
      (chain : Follows table target names rules last)
      (applied : table.step last = some (index, next)) :
      Follows table target (names ++ [next]) (rules ++ [index]) next

/-- Every name a chain came to is an IRI, and none of its names came twice. -/
structure Sane (names : List Iri) : Prop where
  valid : ∀ name ∈ names.tail, (Iri.parse name).isSome = true
  distinct : names.Nodup

/-- What is asked of a rewrite under a budget: a chain that ends within it is followed to
its end, only a cycle, a name that is no IRI or a longer chain is refused, and a name that
no rule matches stands. -/
structure CompleteAt (table : AliasTable) (target : Iri) : Prop where
  followed : ∀ names rules last, table.Follows target names rules last →
    table.step last = none → 1 ≤ rules.length → rules.length ≤ table.maxHops → Sane names →
      table.canonicalize target = .aliased ⟨target, last, rules⟩
  refused : ∀ refusal, table.canonicalize target = .refused refusal →
    ∃ names rules last, table.Follows target names rules last ∧
      (¬Sane names ∨ table.maxHops < rules.length)
  direct : table.canonicalize target = .direct ↔ table.step target = none

/-- A chain that ends after exactly as many rewrites as the budget allows. -/
def EndsAtBudget (table : AliasTable) (target : Iri) : Prop :=
  ∃ names rules last, table.Follows target names rules last ∧ table.step last = none ∧
    rules.length = table.maxHops ∧ Sane names

variable {table : AliasTable} {target : Iri}

/-- A chain has one name more than it has rules. -/
theorem Follows.names_length {names : List Iri} {rules : List Nat} {last : Iri}
    (chain : table.Follows target names rules last) : names.length = rules.length + 1 := by
  induction chain with
  | nil => rfl
  | step names rules last next index _ _ ih => simp [ih]

/-- A chain passes on that its names are sane. -/
theorem Sane.of_append {names : List Iri} {next : Iri} (sane : Sane (names ++ [next])) :
    Sane names := by
  refine ⟨?_, (List.nodup_append.mp sane.distinct).1⟩
  intro name member
  cases names with
  | nil => cases member
  | cons first rest => exact sane.valid name (List.mem_append_left _ member)

/-- A name that is an IRI and not among the names goes on with them. -/
theorem Sane.append {names : List Iri} {next : Iri} (sane : Sane names)
    (parsed : (Iri.parse next).isSome = true) (fresh : next ∉ names) : Sane (names ++ [next]) := by
  refine ⟨?_, ?_⟩
  · intro name member
    cases names with
    | nil => cases member
    | cons first rest =>
      rcases List.mem_append.mp member with earlier | last
      · exact sane.valid name earlier
      · rw [List.mem_singleton] at last
        exact last ▸ parsed
  · rw [List.nodup_append]
    refine ⟨sane.distinct, List.nodup_singleton next, ?_⟩
    intro name member other equal same
    rw [List.mem_singleton] at equal
    exact fresh (equal ▸ same ▸ member)

/-- The last of some sane names is an IRI, and not among the others. -/
theorem Sane.last_of_append {names : List Iri} {next : Iri} (sane : Sane (names ++ [next]))
    (nonempty : names ≠ []) : (Iri.parse next).isSome = true ∧ next ∉ names := by
  constructor
  · cases names with
    | nil => exact absurd rfl nonempty
    | cons first rest => exact sane.valid next (List.mem_append_right _ (List.mem_singleton_self _))
  · intro earlier
    exact (List.nodup_append.mp sane.distinct).2.2 next earlier next (List.mem_singleton_self _) rfl

/-- No chain is without names. -/
theorem Follows.names_nonempty {names : List Iri} {rules : List Nat} {last : Iri}
    (chain : table.Follows target names rules last) : names ≠ [] := by
  intro none
  have counted := chain.names_length
  rw [none] at counted
  cases counted

/-- An IRI is read as itself. -/
theorem parse_eq_self {name parsed : Iri} (read : Iri.parse name = some parsed) :
    parsed = name := by
  unfold Iri.parse at read
  split at read
  · exact (Option.some.inj read).symm
  · cases read

/-- One turn of the walk along a sane chain. -/
theorem walk_from_step (hops : Nat) (names : List Iri) (rules : List Nat) (last next : Iri)
    (index : Nat) (applied : table.step last = some (index, next))
    (parsed : (Iri.parse next).isSome = true) (fresh : next ∉ names) :
    table.walkFrom target (hops + 1) last names rules =
      table.walkFrom target hops next (names ++ [next]) (rules ++ [index]) := by
  obtain ⟨name, read⟩ := Option.isSome_iff_exists.mp parsed
  obtain rfl := parse_eq_self read
  simp only [walkFrom, applied, read, if_neg fresh]

/-- The walk follows a sane chain for as long as it has hops. -/
theorem walk_along {names : List Iri} {rules : List Nat} {last : Iri}
    (chain : table.Follows target names rules last) (sane : Sane names) (hops : Nat) :
    table.walkFrom target (hops + rules.length) target [target] [] =
      table.walkFrom target hops last names rules := by
  induction chain generalizing hops with
  | nil => rfl
  | step names rules last next index chain applied ih =>
    obtain ⟨parsed, fresh⟩ := sane.last_of_append chain.names_nonempty
    have earlier := ih sane.of_append (hops + 1)
    rw [walk_from_step hops names rules last next index applied parsed fresh] at earlier
    rw [List.length_append, List.length_singleton, ← earlier]
    congr 1
    omega

/-- A walk that has ended answers with what it applied. -/
theorem walk_from_ended (hops : Nat) (names : List Iri) (rules : List Nat) (last : Iri)
    (ended : table.step last = none) (some : rules ≠ []) :
    table.walkFrom target (hops + 1) last names rules = .aliased ⟨target, last, rules⟩ := by
  simp [walkFrom, ended, List.isEmpty_iff, some]

/-- A name outside the kernel's own is walked from the first rule. -/
theorem canonicalize_free (free : kernelOp target = none) :
    table.canonicalize target = table.walkFrom target table.maxHops target [target] [] := by
  simp [canonicalize, free]

/-- A chain that ends before the budget does is followed to its end. -/
theorem followed_within (free : kernelOp target = none) {names : List Iri} {rules : List Nat}
    {last : Iri} (chain : table.Follows target names rules last)
    (ended : table.step last = none) (some : 1 ≤ rules.length)
    (within : rules.length < table.maxHops) (sane : Sane names) :
    table.canonicalize target = .aliased ⟨target, last, rules⟩ := by
  obtain ⟨left, budget⟩ := Nat.exists_eq_add_of_lt within
  have applied : rules ≠ [] := by
    intro none
    rw [none] at some
    cases some
  calc table.canonicalize target
      = table.walkFrom target (left + 1 + rules.length) target [target] [] := by
        rw [canonicalize_free free, budget]
        congr 1
        omega
    _ = table.walkFrom target (left + 1) last names rules := walk_along chain sane (left + 1)
    _ = .aliased ⟨target, last, rules⟩ := walk_from_ended left names rules last ended applied

/-- A sane chain as long as the budget uses it up. -/
theorem exhausted (free : kernelOp target = none) {names : List Iri} {rules : List Nat}
    {last : Iri} (chain : table.Follows target names rules last)
    (spent : rules.length = table.maxHops) (sane : Sane names) :
    table.canonicalize target = .refused ⟨target, .exceeded table.maxHops, names, rules⟩ := by
  have along := walk_along chain sane 0
  rw [Nat.zero_add, spent] at along
  rw [canonicalize_free free, along]
  rfl

/-- What a refusing walk had come to, from anywhere on a sane chain. -/
theorem refused_from (hops : Nat) {names : List Iri} {rules : List Nat} {last : Iri}
    (chain : table.Follows target names rules last) (sane : Sane names)
    (budget : rules.length + hops = table.maxHops) (refusal : AliasRefusal)
    (refused : table.walkFrom target hops last names rules = .refused refusal) :
    ∃ names rules last, table.Follows target names rules last ∧
      (¬Sane names ∨ (rules.length = table.maxHops ∧ Sane names)) := by
  induction hops generalizing names rules last with
  | zero => exact ⟨names, rules, last, chain, .inr ⟨budget, sane⟩⟩
  | succ hops ih =>
    cases applied : table.step last with
    | none =>
      simp only [walkFrom, applied] at refused
      split at refused <;> cases refused
    | some pair =>
      obtain ⟨index, next⟩ := pair
      have longer := Follows.step names rules last next index chain applied
      by_cases parsed : (Iri.parse next).isSome = true
      · by_cases fresh : next ∉ names
        · rw [walk_from_step hops names rules last next index applied parsed fresh] at refused
          refine ih longer (sane.append parsed fresh) ?_ refused
          rw [List.length_append, List.length_singleton]
          omega
        · refine ⟨_, _, _, longer, .inl fun sane => ?_⟩
          exact fresh (sane.last_of_append chain.names_nonempty).2
      · refine ⟨_, _, _, longer, .inl fun sane => ?_⟩
        exact parsed (sane.last_of_append chain.names_nonempty).1

/-- A name asked for is sane alone. -/
theorem sane_start : Sane [target] := ⟨by simp, List.nodup_singleton target⟩

/-- A name stands exactly when no rule matches it. -/
theorem direct_iff (free : kernelOp target = none) :
    table.canonicalize target = .direct ↔ table.step target = none := by
  have stands : ∀ hops names rules current, rules ≠ [] →
      table.walkFrom target hops current names rules ≠ .direct := by
    intro hops
    induction hops with
    | zero =>
      intro names rules current _ direct
      cases direct
    | succ hops ih =>
      intro names rules current applied direct
      simp only [walkFrom, List.isEmpty_iff, applied, ↓reduceIte] at direct
      split at direct
      · cases direct
      · split at direct
        · cases direct
        · split at direct
          · cases direct
          · exact ih _ _ _ (by simp) direct
  obtain ⟨hops, budget⟩ := Nat.exists_eq_succ_of_ne_zero table.positive.ne'
  rw [canonicalize_free free, budget]
  constructor
  · intro direct
    cases applied : table.step target with
    | none => rfl
    | some pair =>
      simp only [walkFrom, applied] at direct
      split at direct
      · cases direct
      · split at direct
        · cases direct
        · exact absurd direct (stands hops _ _ _ (by simp))
  · intro ended
    simp only [walkFrom, ended]
    rfl

/-- Rewriting is complete under its budget but for the chains that end with it. -/
theorem complete_unless_at_budget (table : AliasTable) (target : Iri)
    (free : kernelOp target = none) :
    table.CompleteAt target ↔ ¬table.EndsAtBudget target := by
  constructor
  · rintro complete ⟨names, rules, last, chain, ended, spent, sane⟩
    have followed := complete.followed names rules last chain ended (spent ▸ table.positive)
      spent.le sane
    rw [exhausted free chain spent sane] at followed
    cases followed
  · intro unspent
    refine ⟨?_, ?_, direct_iff free⟩
    · intro names rules last chain ended some within sane
      refine followed_within free chain ended some (Nat.lt_of_le_of_ne within ?_) sane
      intro spent
      exact unspent ⟨names, rules, last, chain, ended, spent, sane⟩
    · intro refusal refused
      rw [canonicalize_free free] at refused
      obtain ⟨names, rules, last, chain, broken | ⟨spent, sane⟩⟩ :=
        refused_from table.maxHops .nil sane_start (by simp) refusal refused
      · exact ⟨names, rules, last, chain, .inl broken⟩
      · cases applied : table.step last with
        | none => exact absurd ⟨names, rules, last, chain, applied, spent, sane⟩ unspent
        | some pair =>
          -- the chain goes on past the budget
          refine ⟨_, _, _, .step names rules last pair.2 pair.1 chain applied, .inr ?_⟩
          rw [List.length_append, List.length_singleton, spent]
          exact Nat.lt_succ_self _

end AliasTable

namespace BudgetOfOne

local instance anyIri : IriSyntax := ⟨fun _ => true, fun _ => []⟩

def logical : Iri := "urn:example:logical".toList

def backing : Iri := "urn:example:backing".toList

/-- One rewrite under the smallest budget. -/
def table : AliasTable := ⟨[.plain .exact logical backing .child], 1, Nat.one_pos⟩

/-- No rule of a table under a budget of one is ever applied. -/
theorem one_hop_is_refused :
    kernelOp logical = none ∧ table.Follows logical [logical, backing] [0] backing ∧
      table.step backing = none ∧ AliasTable.Sane [logical, backing] ∧
        table.canonicalize logical =
          .refused ⟨logical, .exceeded 1, [logical, backing], [0]⟩ ∧
        ¬table.CompleteAt logical := by
  have chain : table.Follows logical ([logical] ++ [backing]) ([] ++ [0]) backing :=
    .step [logical] [] logical backing 0 .nil (by decide)
  have free : kernelOp logical = none := by decide
  have sane : AliasTable.Sane [logical, backing] := ⟨by decide, by decide⟩
  have ended : table.step backing = none := by decide
  have refused := AliasTable.exhausted free chain rfl sane
  refine ⟨free, chain, ended, sane, refused, ?_⟩
  intro complete
  have followed := complete.followed _ _ _ chain ended (Nat.le_refl 1) (Nat.le_refl 1) sane
  rw [refused] at followed
  cases followed

/-- Under the default budget the same rewrite is complete. -/
theorem default_budget_suffices :
    (AliasTable.ofRules [.plain .exact logical backing .child]).CompleteAt logical ↔
      ¬(AliasTable.ofRules [.plain .exact logical backing .child]).EndsAtBudget logical := by
  exact AliasTable.complete_unless_at_budget _ logical (by decide)

end BudgetOfOne

end Ikigai
