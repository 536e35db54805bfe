import Mathlib

/-!
# Loops over a stack

A walk that keeps what is still to be visited on a stack of its own, so that it never
recurses. One step takes the item on top, and either stops with an error or goes on with
some items pushed in its place; what is pushed is smaller than what was taken. Such a loop
does what recursion does: the work pushed for an item is finished before the rest of the
stack is looked at.
-/

namespace Ikigai

/-- One step of a loop, and the rank by which it ends. -/
structure StackLoop (τ σ ε : Type) where
  step : σ → τ → Except ε (List τ × σ)
  rank : τ → Nat
  falls : ∀ state item pushed after, step state item = .ok (pushed, after) →
    (pushed.map rank).sum < rank item

namespace StackLoop

variable {τ σ ε : Type} (loop : StackLoop τ σ ε)

/-- Run the loop from a stack, its top first, until the stack is empty. -/
def run (stack : List τ) (state : σ) : Except ε σ :=
  match stack with
  | [] => .ok state
  | item :: rest =>
    match _ : loop.step state item with
    | .error error => .error error
    | .ok (pushed, after) => run (pushed ++ rest) after
termination_by (stack.map loop.rank).sum
decreasing_by
  rename_i taken
  have fallen := loop.falls state item pushed after taken
  simp only [List.map_append, List.sum_append, List.map_cons, List.sum_cons]
  omega

theorem run_nil (state : σ) : loop.run [] state = .ok state := by
  rw [run]

theorem run_cons (item : τ) (rest : List τ) (state : σ) :
    loop.run (item :: rest) state =
      (loop.step state item).bind fun (pushed, after) => loop.run (pushed ++ rest) after := by
  rw [run]
  split
  · rename_i error stopped
    rw [stopped]
    rfl
  · rename_i pushed after taken
    rw [taken]
    rfl

/-- What is on top is finished before what lies under it. -/
theorem run_append (stack rest : List τ) (state : σ) :
    loop.run (stack ++ rest) state = (loop.run stack state).bind (loop.run rest) := by
  induction measured : (stack.map loop.rank).sum using Nat.strong_induction_on
    generalizing stack state with
  | _ size ih =>
    cases stack with
    | nil =>
      rw [run_nil]
      rfl
    | cons item stack =>
      rw [List.cons_append, run_cons, run_cons]
      cases taken : loop.step state item with
      | error error => rfl
      | ok went =>
        obtain ⟨pushed, after⟩ := went
        have fallen := loop.falls state item pushed after taken
        have smaller : ((pushed ++ stack).map loop.rank).sum < size := by
          rw [← measured, List.map_append, List.sum_append, List.map_cons, List.sum_cons]
          omega
        change loop.run (pushed ++ (stack ++ rest)) after = _
        rw [← List.append_assoc]
        exact ih _ smaller (pushed ++ stack) after rfl

/-- One item by itself: a step, and then what was pushed for it. -/
theorem run_item (item : τ) (state : σ) :
    loop.run [item] state =
      (loop.step state item).bind fun (pushed, after) => loop.run pushed after := by
  rw [run_cons]
  simp only [List.append_nil]

/-- The stack is taken item by item. -/
theorem run_split (item : τ) (rest : List τ) (state : σ) :
    loop.run (item :: rest) state = (loop.run [item] state).bind (loop.run rest) :=
  loop.run_append [item] rest state

end StackLoop

end Ikigai
