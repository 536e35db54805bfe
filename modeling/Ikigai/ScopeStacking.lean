import Ikigai.Scope

/-!
# Stacking is replaying

Chains under `stack` are a monoid whose unit is the empty chain, and every builder
step is a multiplication on the right by the chain that step builds from nothing.
Replaying the steps that built a chain is therefore stacking that chain: pushes
append, confinements insert at the front as one block, and the later clock wins,
whichever way the steps are grouped.

A handle is determined by the chain behind it up to the stored fingerprint, so
every equation is proved on chains and lifted once.
-/

namespace Ikigai

universe u
variable {σ : Type u}

namespace Chain

/-- The chain with its stored fingerprint forgotten. -/
def unlabelled (chain : Chain σ) : Chain σ := { chain with fingerprint := 0 }

/-- A sound chain with nothing on it is the blank chain. -/
theorem blank_of_empty (chain : Chain σ) (sound : chain.Sound) (bare : chain.isEmpty = true) :
    chain.unlabelled = blank := by
  obtain ⟨injected, identities, severed, confined, levels, fingerprint, clock⟩ := chain
  obtain ⟨parallel, leading, _, clocked⟩ := sound
  simp only [isEmpty, Bool.and_eq_true, List.isEmpty_iff, Bool.not_eq_eq_eq_not,
    Bool.not_true] at bare
  obtain ⟨⟨noSpaces, rooted⟩, noLevels⟩ := bare
  subst noSpaces rooted noLevels
  have noNames : identities = [] := List.eq_nil_of_length_eq_zero parallel
  have unconfined : confined = 0 := Nat.le_zero.mp leading
  have untimed : clock = none := by
    cases clock with
    | none => rfl
    | some clock => exact absurd rfl (clocked rfl)
  subst noNames unconfined untimed
  rfl

/-- Stacking a blank chain changes nothing. -/
theorem stacked_blank (chain : Chain σ) : stacked blank chain = chain := by
  simp [stacked, blank, levelsAfter]

/-- Stacking onto a blank chain rebuilds the stacked one. -/
theorem blank_stacked (other : Chain σ) (sound : other.Sound) :
    (stacked other blank).unlabelled = other.unlabelled := by
  have width : (other.injected.take other.confined).length = other.confined :=
    List.length_take_of_le sound.leading
  obtain ⟨injected, identities, severed, confined, levels, fingerprint, clock⟩ := other
  simp only [stacked, unlabelled, blank, List.nil_append, List.take_append_drop, mk.injEq,
    true_and, Nat.zero_add]
  refine ⟨Bool.or_false severed, width, ?_, ?_⟩
  · cases levels with
    | cons level rest => rfl
    | nil => cases injected.take confined <;> rfl
  · cases clock <;> rfl

/-- A list whose first part has a known length splits there. -/
theorem take_append_splits {α : Type u} (front rest : List α) (count : Nat) :
    (front ++ rest).take (count + front.length) = front ++ rest.take count := by
  rw [List.take_append, List.take_of_length_le (by omega)]
  congr 2
  omega

/-- What is dropped of two lists, the first of them whole, is dropped of the second. -/
theorem drop_append_splits {α : Type u} (front rest : List α) (count : Nat) :
    (front ++ rest).drop (count + front.length) = rest.drop count := by
  rw [List.drop_append, List.drop_of_length_le (by omega), List.nil_append]
  congr 1
  omega

/-- The corridors of three stacked chains, grouped either way. The confined
prefixes line up in front, latest outermost, and the host parts behind. -/
theorem spliced_assoc {α : Type u} (first second third : List α) (middle last : Nat)
    (inSecond : middle ≤ second.length) :
    let joined := third.take last ++ (second ++ third.drop last)
    let split := middle + (third.take last).length
    third.take last ++ ((second.take middle ++ (first ++ second.drop middle)) ++ third.drop last) =
      joined.take split ++ (first ++ joined.drop split) := by
  intro joined split
  have front : joined.take split = third.take last ++ second.take middle := by
    rw [take_append_splits, List.take_append_of_le_length inSecond]
  have back : joined.drop split = second.drop middle ++ third.drop last := by
    rw [drop_append_splits, List.drop_append_of_le_length inSecond]
  rw [front, back]
  simp only [List.append_assoc]

/-- The last chain that carries levels or confines decides the level stack. -/
theorem levels_after_assoc (behind behind' : List σ) (first second third : LevelPath σ) :
    levelsAfter behind' (levelsAfter behind first second) third =
      levelsAfter (behind' ++ behind) first (levelsAfter behind' second third) := by
  cases third with
  | cons level rest => rfl
  | nil =>
    cases behind' with
    | cons space rest => rfl
    | nil => cases second <;> cases behind <;> rfl

/-- Three chains stack to one chain however they are grouped. Corridors and
identities are spliced alike; the level stack is decided by the last chain that
either carries one or confines. -/
theorem stacked_assoc (first second third : Chain σ) (inSecond : second.Sound)
    (inThird : third.Sound) :
    (stacked third (stacked second first)).unlabelled =
      (stacked (stacked third second) first).unlabelled := by
  have spaces := spliced_assoc first.injected second.injected third.injected second.confined
    third.confined inSecond.leading
  have names := spliced_assoc first.identities second.identities third.identities
    second.confined third.confined (by rw [inSecond.parallel]; exact inSecond.leading)
  have widths : (third.identities.take third.confined).length =
      (third.injected.take third.confined).length := by
    simp only [List.length_take, inThird.parallel]
  have split : (third.injected.take third.confined ++
        (second.injected ++ third.injected.drop third.confined)).take
          (second.confined + (third.injected.take third.confined).length) =
      third.injected.take third.confined ++ second.injected.take second.confined := by
    rw [take_append_splits, List.take_append_of_le_length inSecond.leading]
  rw [widths] at names
  simp only [stacked, unlabelled, mk.injEq, true_and]
  refine ⟨spaces, names, ?_, ?_, ?_, ?_⟩
  · exact Bool.or_assoc third.severed second.severed first.severed |>.symm
  · rw [split, List.length_append]
    omega
  · rw [split]
    exact levels_after_assoc _ _ first.levels second.levels third.levels
  · cases third.clock <;> rfl

variable [Blake3]

/-- A fingerprint does not depend on the labels. -/
theorem refingerprint_unlabelled (chain : Chain σ) :
    chain.unlabelled.refingerprint = chain.refingerprint := rfl

/-- Chains that differ in labels alone have one fingerprint. -/
theorem refingerprint_congr (left right : Chain σ) (same : left.unlabelled = right.unlabelled) :
    left.refingerprint = right.refingerprint := by
  rw [← refingerprint_unlabelled left, same, refingerprint_unlabelled]

end Chain

namespace Scope

variable [Blake3]

/-- A handle's chain already carries its own fingerprint. -/
theorem core_refingerprint (scope : Scope σ) : scope.core.refingerprint = scope.core := by
  unfold core
  cases held : scope.chain with
  | none => rfl
  | some chain =>
    have kept : chain.fingerprint = chain.digest := scope.fingerprinted chain (by rw [held]; rfl)
    simp only [Option.getD_some, Chain.refingerprint, ← kept]

/-- Handles on one chain are one handle. -/
theorem core_injective (left right : Scope σ) (same : left.core = right.core) : left = right := by
  have blankEmpty : (Chain.blank : Chain σ).isEmpty = true := rfl
  unfold core at same
  apply Scope.ext
  cases heldLeft : left.chain with
  | none =>
    cases heldRight : right.chain with
    | none => rfl
    | some chain =>
      have occupied : chain.isEmpty = false := right.occupied chain (by rw [heldRight]; rfl)
      simp only [heldLeft, heldRight, Option.getD_none, Option.getD_some] at same
      rw [← same, blankEmpty] at occupied
      cases occupied
  | some chain =>
    have occupied : chain.isEmpty = false := left.occupied chain (by rw [heldLeft]; rfl)
    cases heldRight : right.chain with
    | none =>
      simp only [heldLeft, heldRight, Option.getD_none, Option.getD_some] at same
      rw [same, blankEmpty] at occupied
      cases occupied
    | some other =>
      simp only [heldLeft, heldRight, Option.getD_some] at same
      rw [same]

/-- What a builder step leaves behind the handle, collapsed or not. -/
theorem core_edit (scope : Scope σ) (step : Chain σ → Chain σ)
    (keeps : ∀ chain, chain.Sound → (step chain).Sound) :
    (scope.edit step keeps).core = (step scope.core).refingerprint := by
  unfold edit
  split
  · rename_i bare
    have blankStep := Chain.blank_of_empty (step scope.core) (keeps scope.core scope.core_sound) bare
    exact Chain.refingerprint_congr Chain.blank (step scope.core) blankStep.symm
  · rfl

/-- A stacked scope's chain is the inner chain over the outer, with a fingerprint of its own. -/
theorem core_stack (scope inner : Scope σ) :
    (scope.stack inner).core = (Chain.stacked inner.core scope.core).refingerprint := by
  unfold stack
  split
  · rename_i held
    have blankInner : inner.core = Chain.blank := by simp [core, held]
    rw [blankInner, Chain.stacked_blank, core_refingerprint]
  · rename_i other held
    have otherInner : inner.core = other := by simp [core, held]
    rw [core_edit, otherInner]

/-- Stacking a scope on the empty one leaves that scope. -/
theorem empty_stack (scope : Scope σ) : empty.stack scope = scope := by
  apply core_injective
  rw [core_stack, ← core_refingerprint scope]
  exact Chain.refingerprint_congr _ _ (Chain.blank_stacked scope.core scope.core_sound)

/-- Stacking the empty scope on another leaves the other. -/
theorem stack_empty (scope : Scope σ) : scope.stack empty = scope := rfl

/-- Stacking does not depend on which two of three are stacked first. -/
theorem stack_assoc (first second third : Scope σ) :
    (first.stack second).stack third = first.stack (second.stack third) := by
  apply core_injective
  rw [core_stack, core_stack, core_stack, core_stack]
  apply Chain.refingerprint_congr
  exact Chain.stacked_assoc first.core second.core third.core second.core_sound third.core_sound

/-- Chains under stacking. -/
instance : Monoid (Scope σ) where
  mul := stack
  mul_assoc := stack_assoc
  one := empty
  one_mul := empty_stack
  mul_one := stack_empty

/-- The product of two scopes is the one stacked on the other. -/
theorem mul_eq_stack (left right : Scope σ) : left * right = left.stack right := rfl

/-- One step of a chain's construction: a corridor injected under a fixed identity,
with or without a clock, a severing, a confinement, or another chain stacked on. -/
inductive Step (σ : Type u) [Blake3] where
  | inject (identity : CorridorIdentity) (space : σ) (clock : Option Clock)
  | sever
  | confine (name : Iri) (space : σ)
  | stack (inner : Scope σ)

namespace Step

def apply (scope : Scope σ) : Step σ → Scope σ
  | .inject identity space clock => scope.inject identity space clock
  | .sever => scope.sever
  | .confine name space => scope.confine name space
  | .stack inner => scope.stack inner

/-- The chain a step builds from nothing. -/
def generator (step : Step σ) : Scope σ := step.apply Scope.empty

end Step

/-- Apply the steps in order. -/
def replay (scope : Scope σ) (steps : List (Step σ)) : Scope σ :=
  steps.foldl Step.apply scope

/-- Injecting a space is stacking a scope of just that space. -/
theorem inject_eq_stack (scope : Scope σ) (identity : CorridorIdentity) (space : σ)
    (clock : Option Clock) :
    scope.inject identity space clock = scope.stack (empty.inject identity space clock) := by
  apply core_injective
  rw [core_stack]
  simp only [inject, core_edit]
  apply Chain.refingerprint_congr
  simp [Chain.stacked, Chain.levelsAfter, Chain.unlabelled, Chain.refingerprint, core, empty,
    Chain.blank]

/-- Severing is stacking an empty severed scope. -/
theorem sever_eq_stack (scope : Scope σ) : scope.sever = scope.stack empty.sever := by
  apply core_injective
  rw [core_stack]
  simp only [sever, core_edit]
  apply Chain.refingerprint_congr
  simp [Chain.stacked, Chain.levelsAfter, Chain.unlabelled, Chain.refingerprint, core, empty,
    Chain.blank]

/-- Confining is stacking a scope that is confined to that space. -/
theorem confine_eq_stack (scope : Scope σ) (name : Iri) (space : σ) :
    scope.confine name space = scope.stack (empty.confine name space) := by
  apply core_injective
  rw [core_stack]
  simp only [confine, core_edit]
  apply Chain.refingerprint_congr
  simp [Chain.stacked, Chain.levelsAfter, Chain.unlabelled, Chain.refingerprint, core, empty,
    Chain.blank]

/-- Every step multiplies on the right by its generator. -/
theorem apply_eq_mul (scope : Scope σ) (step : Step σ) :
    step.apply scope = scope * step.generator := by
  rw [mul_eq_stack]
  cases step with
  | inject identity space clock => exact inject_eq_stack scope identity space clock
  | sever => exact sever_eq_stack scope
  | confine name space => exact confine_eq_stack scope name space
  | stack inner =>
    show scope.stack inner = scope.stack (empty.stack inner)
    rw [empty_stack]

/-- A replay is the product of the steps' generators, taken from the left. -/
theorem replay_eq_prod (scope : Scope σ) (steps : List (Step σ)) :
    scope.replay steps = scope * (steps.map Step.generator).prod := by
  induction steps generalizing scope with
  | nil => exact (mul_one scope).symm
  | cons step rest ih =>
    calc scope.replay (step :: rest)
        = (step.apply scope).replay rest := rfl
      _ = step.apply scope * (rest.map Step.generator).prod := ih (step.apply scope)
      _ = scope * step.generator * (rest.map Step.generator).prod := by rw [apply_eq_mul]
      _ = scope * ((step :: rest).map Step.generator).prod := by
        rw [List.map_cons, List.prod_cons, mul_assoc]

/-- Stacking a built chain replays its construction, so stacking is associative
with the empty chain as its unit on both sides. -/
theorem stack_replays (scope : Scope σ) (steps : List (Step σ)) :
    scope.stack (empty.replay steps) = scope.replay steps ∧
      (∀ second third : Scope σ,
        (scope.stack second).stack third = scope.stack (second.stack third)) ∧
      scope.stack empty = scope ∧ empty.stack scope = scope := by
  refine ⟨?_, stack_assoc scope, stack_empty scope, empty_stack scope⟩
  rw [replay_eq_prod scope, replay_eq_prod empty, ← mul_eq_stack]
  exact congrArg (scope * ·) (one_mul _)

end Scope

end Ikigai
