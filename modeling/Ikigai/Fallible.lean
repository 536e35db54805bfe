import Mathlib.Data.List.Basic

/-!
# Computations that may be refused

What succeeds as a whole succeeded part by part. A proof about a computation that may be
refused takes it apart with these rules, one part after the other, and never looks at how
the parts are composed.
-/

namespace Ikigai

variable {ε ε' α β : Type}

/-- What succeeds in two parts is a first success, and a second one from its value. -/
theorem Except.of_bind {first : Except ε α} {next : α → Except ε β} {result : β}
    (succeeds : first >>= next = .ok result) :
    ∃ value, first = .ok value ∧ next value = .ok result := by
  cases first with
  | error failure => cases succeeds
  | ok value => exact ⟨value, rfl, succeeds⟩

/-- After a success, the rest is what is left to do. -/
theorem Except.bind_of_ok {first : Except ε α} {value : α} (ran : first = .ok value)
    (next : α → Except ε β) : (first >>= next) = next value := by
  rw [ran]
  rfl

/-- A success whose value is taken further and whose errors are reworded was one before. -/
theorem Except.of_map_error {first : Except ε α} {reword : ε → ε'} {f : α → β} {result : β}
    (succeeds : (first.map f).mapError reword = .ok result) :
    ∃ value, first = .ok value ∧ f value = result := by
  cases first with
  | error failure => cases succeeds
  | ok value => exact ⟨value, rfl, Except.ok.inj succeeds⟩

/-- A fold that succeeds on a list succeeded on its first item and from there on the rest. -/
theorem Except.of_fold_cons {step : β → α → Except ε β} {item : α} {rest : List α}
    {start result : β} (succeeds : (item :: rest).foldlM step start = .ok result) :
    ∃ middle, step start item = .ok middle ∧ rest.foldlM step middle = .ok result := by
  rw [List.foldlM_cons] at succeeds
  exact Except.of_bind succeeds

end Ikigai
