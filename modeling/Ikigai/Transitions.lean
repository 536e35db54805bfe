import Mathlib

/-!
# Invariants of transition systems

A system is a step relation; what it can reach is the reflexive transitive closure
of that relation. An invariant is a property every step keeps, possibly with the
help of another invariant already established.
-/

namespace Ikigai.Transitions

universe u
variable {σ : Type u}

/-- What every step keeps, every run keeps. -/
theorem kept_by_run (step : σ → σ → Prop) (kept : σ → Prop)
    (preserved : ∀ before after, kept before → step before after → kept after)
    (start finish : σ) (run : Relation.ReflTransGen step start finish) (holds : kept start) :
    kept finish := by
  induction run with
  | refl => exact holds
  | tail _ advanced ih => exact preserved _ _ ih advanced

end Ikigai.Transitions
