import Mathlib

/-!
# Loops of rounds

A round takes a state to the next and says whether the loop goes on; the loop runs at most
a given number of rounds and ends with the first that says no. What every round keeps, the
loop keeps; where a measure decreases, the loop ends by itself; and where each round takes
the first of a list while something is true of the list, the loop stops at the first list
it is not true of.
-/

namespace Ikigai.Rounds

variable {σ α : Type}

/-- Rounds until one says the loop is over. -/
def rounds (round : σ → σ × Bool) : Nat → σ → σ
  | 0, state => state
  | count + 1, state =>
    match round state with
    | (after, true) => rounds round count after
    | (after, false) => after

variable {round : σ → σ × Bool}

theorem rounds_succ (count : Nat) (state : σ) :
    rounds round (count + 1) state =
      if (round state).2 then rounds round count (round state).1 else (round state).1 := by
  rw [rounds]
  rcases round state with ⟨after, goesOn⟩
  cases goesOn <;> rfl

/-- What every round keeps, the loop keeps. -/
theorem rounds_keep (kept : σ → Prop) (step : ∀ state, kept state → kept (round state).1)
    (count : Nat) (state : σ) (holds : kept state) : kept (rounds round count state) := by
  induction count generalizing state with
  | zero => exact holds
  | succ count ih =>
    rw [rounds_succ]
    split
    · exact ih _ (step state holds)
    · exact step state holds

/-- The states a loop starts its rounds from. -/
def starts (round : σ → σ × Bool) : Nat → σ → List σ
  | 0, _ => []
  | count + 1, state =>
    state :: if (round state).2 then starts round count (round state).1 else []

/-- What every round keeps where it starts from a fitting state, the loop keeps when all its
rounds start from such states. -/
theorem rounds_keep_where (kept fitting : σ → Prop)
    (step : ∀ state, fitting state → kept state → kept (round state).1) (count : Nat) (state : σ)
    (fit : ∀ start ∈ starts round count state, fitting start) (holds : kept state) :
    kept (rounds round count state) := by
  induction count generalizing state with
  | zero => exact holds
  | succ count ih =>
    rw [starts, List.forall_mem_cons] at fit
    have after := step state fit.1 holds
    rw [rounds_succ]
    by_cases goesOn : (round state).2 = true
    · rw [if_pos goesOn] at fit ⊢
      exact ih _ fit.2 after
    · rw [if_neg goesOn]
      exact after

/-- Where a measure decreases with every round that goes on, a loop of more rounds than
the measure ends with a round that says so. -/
theorem rounds_settle (kept : σ → Prop) (measure : σ → Nat)
    (step : ∀ state, kept state → kept (round state).1)
    (decreases : ∀ state, kept state → (round state).2 = true →
      measure (round state).1 < measure state)
    (count : Nat) (state : σ) (enough : measure state < count) (holds : kept state) :
    ∃ last, kept last ∧ (round last).2 = false ∧ rounds round count state = (round last).1 := by
  induction count generalizing state with
  | zero => omega
  | succ count ih =>
    rw [rounds_succ]
    by_cases goesOn : (round state).2 = true
    · rw [if_pos goesOn]
      have less := decreases state holds goesOn
      exact ih _ (by omega) (step state holds)
    · rw [if_neg goesOn]
      exact ⟨state, holds, Bool.eq_false_iff.mpr goesOn, rfl⟩

/-- A loop whose rounds each take the first of a list while the list is over something,
with one item marked. Once that item would be first, it goes exactly if what is left from
it on is still over. -/
theorem rounds_drain (shows : σ → List α → Prop) (excess : List α → Prop) (item : α)
    (behind : List α)
    (grows : ∀ other rest, excess rest → excess (other :: rest))
    (gives : ∀ ahead state first rest, ahead ++ item :: behind = first :: rest →
      shows state (first :: rest) → excess (first :: rest) →
        (round state).2 = true ∧ shows (round state).1 rest)
    (stops : ∀ ahead state, shows state (ahead ++ item :: behind) →
      ¬excess (ahead ++ item :: behind) →
        (round state).2 = false ∧ shows (round state).1 (ahead ++ item :: behind))
    (ahead : List α) (count : Nat) (enough : ahead.length < count) (state : σ)
    (holds : shows state (ahead ++ item :: behind)) :
    (¬excess (item :: behind) → ∃ left, shows (rounds round count state) (left ++ item :: behind)) ∧
      (excess (item :: behind) → ∃ rest after, shows after behind ∧
        rounds round count state = rounds round rest after) := by
  induction count generalizing ahead state with
  | zero => omega
  | succ count ih =>
    rw [rounds_succ]
    by_cases past : excess (ahead ++ item :: behind)
    · cases ahead with
      | nil =>
        obtain ⟨goesOn, shown⟩ := gives [] state item behind rfl holds past
        rw [if_pos goesOn]
        exact ⟨fun within => absurd past within, fun _ => ⟨count, _, shown, rfl⟩⟩
      | cons first rest =>
        obtain ⟨goesOn, shown⟩ := gives (first :: rest) state first (rest ++ item :: behind) rfl
          holds past
        rw [if_pos goesOn]
        exact ih rest (by simpa using enough) _ shown
    · obtain ⟨ends, shown⟩ := stops ahead state holds past
      rw [ends, if_neg Bool.false_ne_true]
      refine ⟨fun _ => ⟨ahead, shown⟩, fun exceeded => absurd ?_ past⟩
      clear holds shown past ih enough ends
      induction ahead with
      | nil => exact exceeded
      | cons other rest ih => exact grows other _ ih

end Ikigai.Rounds
