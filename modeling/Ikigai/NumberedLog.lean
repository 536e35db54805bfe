import Mathlib

/-!
# Numbered logs

Events are numbered from one in the order they come. A log keeps the numbered events
past a horizon and forgets the earlier ones. What came after a number that is not behind
the horizon can be read from the log alone.
-/

namespace Ikigai.NumberedLog

variable {ε : Type}

/-- Each event with its number. -/
def numbered (events : List ε) : List (ε × Nat) := events.zipIdx 1

/-- What a log holds of a history: the events past a horizon. -/
def past (events : List ε) (horizon : Nat) : List (ε × Nat) := (numbered events).drop horizon

theorem length_numbered (events : List ε) : (numbered events).length = events.length :=
  List.length_zipIdx

theorem length_past (events : List ε) (horizon : Nat) :
    (past events horizon).length = events.length - horizon := by
  rw [past, List.length_drop, length_numbered]

/-- A new event takes the next number. -/
theorem past_concat (events : List ε) (event : ε) (horizon : Nat)
    (within : horizon ≤ events.length) :
    past (events ++ [event]) horizon = past events horizon ++ [(event, events.length + 1)] := by
  have joined : numbered (events ++ [event]) = numbered events ++ [(event, events.length + 1)] := by
    rw [numbered, numbered, List.zipIdx_append, List.zipIdx_singleton, Nat.add_comm 1]
  rw [past, past, joined, List.drop_append_of_le_length]
  rwa [length_numbered]

/-- Forgetting the oldest event held moves the horizon to its number. -/
theorem tail_past (events : List ε) (horizon : Nat) :
    (past events horizon).tail = past events (horizon + 1) := by
  rw [past, past, List.tail_drop]

theorem getElem_numbered (events : List ε) (index : Nat) (inside : index < (numbered events).length) :
    (numbered events)[index].2 = index + 1 := by
  simp only [numbered, List.getElem_zipIdx, Nat.add_comm]

theorem head_past (events : List ε) (horizon : Nat) (oldest : ε × Nat)
    (first : (past events horizon).head? = some oldest) : oldest.2 = horizon + 1 := by
  rw [past, List.head?_drop, List.getElem?_eq_some_iff] at first
  obtain ⟨inside, rfl⟩ := first
  exact getElem_numbered events horizon inside

theorem past_after (events : List ε) (horizon : Nat) (entry : ε × Nat)
    (held : entry ∈ past events horizon) : horizon < entry.2 := by
  obtain ⟨index, inside, rfl⟩ := List.mem_iff_getElem.mp held
  simp only [past, List.getElem_drop, getElem_numbered]
  omega

theorem take_before (events : List ε) (count : Nat) (entry : ε × Nat)
    (held : entry ∈ (numbered events).take count) : entry.2 ≤ count := by
  obtain ⟨index, inside, rfl⟩ := List.mem_iff_getElem.mp held
  rw [List.length_take] at inside
  simp only [List.getElem_take, getElem_numbered]
  omega

/-- Read from its newest end while the numbers are past `taken`, a log whose horizon is
not past `taken` gives every event after it. -/
theorem recent_eq (events : List ε) (horizon taken : Nat) (kept : horizon ≤ taken) :
    (past events horizon).reverse.takeWhile (fun entry => decide (taken < entry.2)) =
      (past events taken).reverse := by
  -- The log splits at `taken`: what is newer stays, what is older stops the reading.
  have split : past events horizon =
      ((numbered events).take taken).drop horizon ++ past events taken := by
    rw [past, past, List.drop_take]
    calc (numbered events).drop horizon
        = ((numbered events).drop horizon).take (taken - horizon) ++
            ((numbered events).drop horizon).drop (taken - horizon) :=
          (List.take_append_drop _ _).symm
      _ = _ := by rw [List.drop_drop, Nat.add_sub_cancel' kept]
  rw [split, List.reverse_append, List.takeWhile_append_of_pos]
  · have stops : (((numbered events).take taken).drop horizon).reverse.takeWhile
        (fun entry => decide (taken < entry.2)) = [] := by
      rw [List.takeWhile_eq_nil_iff]
      intro some_held
      have older := take_before events taken _
        (List.mem_of_mem_drop (List.mem_reverse.mp (List.getElem_mem some_held)))
      simpa using older
    rw [stops, List.append_nil]
  · intro entry held
    exact decide_eq_true (past_after events taken entry (List.mem_reverse.mp held))

/-- A question about the events after `taken` is answered from the log. -/
theorem recent_any (events : List ε) (horizon taken : Nat) (asked : ε → Bool)
    (kept : horizon ≤ taken) :
    ((past events horizon).reverse.takeWhile fun entry => decide (taken < entry.2)).any
        (fun entry => asked entry.1) = (events.drop taken).any asked := by
  have forgotten : (past events taken).map Prod.fst = events.drop taken := by
    rw [past, List.map_drop, numbered, List.zipIdx_map_fst]
  rw [recent_eq events horizon taken kept, List.any_reverse, ← forgotten, List.any_map]
  rfl

end Ikigai.NumberedLog
