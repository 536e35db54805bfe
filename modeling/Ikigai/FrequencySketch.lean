import Ikigai.CachePolicy

/-!
# The frequency sketch

A request counts in one cell a row of a shared array, where others count too and where two of its
own rows may meet. A cell is saturated at fifteen and halved with all the others. Against a counter
of the request alone, which is saturated and halved at the same moments, each of its cells is at
least as much after every step, and so is the least of them.
-/

namespace Ikigai

namespace Sketch

/-- The mask addresses the whole array and nothing past it. -/
def Sized (sketch : Sketch) : Prop := sketch.counters.length = sketch.mask + 1

/-- What a cell counts. -/
def count (sketch : Sketch) (cell : Nat) : Nat := sketch.counters.getD cell 0

/-- The cells of a request are within the sketch. -/
theorem cell_within {sketch : Sketch} (sized : sketch.Sized) {request : RequestId} {cell : Nat}
    (inside : cell ∈ sketch.cells request) : cell < sketch.counters.length := by
  obtain ⟨row, _, rfl⟩ := List.mem_map.mp inside
  rw [sized]
  exact Nat.lt_succ_of_le Nat.and_le_right

/-- Count once more in one cell. -/
def bump (counters : List Nat) (cell : Nat) : List Nat :=
  counters.modify cell fun count => min (count + 1) maxCount

/-- Counting in a cell adds no cell. -/
theorem bump_length (counters : List Nat) (cell : Nat) :
    (bump counters cell).length = counters.length :=
  List.length_modify ..

/-- It adds one to that cell, up to the most a cell can hold. -/
theorem getD_bump (counters : List Nat) (cell other : Nat) :
    (bump counters cell).getD other 0 =
      if cell = other ∧ other < counters.length then min (counters.getD other 0 + 1) maxCount
      else counters.getD other 0 := by
  rw [List.getD_eq_getElem?_getD, bump, List.getElem?_modify, List.getD_eq_getElem?_getD]
  by_cases within : other < counters.length
  · rw [List.getElem?_eq_getElem within]
    by_cases same : cell = other
    · simp [same, within]
    · simp [same]
  · rw [List.getElem?_eq_none (Nat.le_of_not_lt within), if_neg fun both => within both.2]
    rfl

/-- A count that no cell can pass is not lost by counting more. -/
theorem le_bump {counters : List Nat} {cell other least : Nat} (small : least ≤ maxCount)
    (held : least ≤ counters.getD other 0) : least ≤ (bump counters cell).getD other 0 := by
  rw [getD_bump]
  split
  · exact le_min (Nat.le_succ_of_le held) small
  · exact held

/-- Counting takes nothing from a cell that is not full. -/
theorem le_bumps {counters cells : List Nat} {other least : Nat} (small : least ≤ maxCount)
    (held : least ≤ counters.getD other 0) : least ≤ (cells.foldl bump counters).getD other 0 := by
  induction cells generalizing counters with
  | nil => exact held
  | cons cell cells ih => exact ih (le_bump small held)

/-- Counting in several cells adds no cell. -/
theorem bumps_length (counters cells : List Nat) :
    (cells.foldl bump counters).length = counters.length := by
  induction cells generalizing counters with
  | nil => rfl
  | cons cell cells ih => rw [List.foldl_cons, ih, bump_length]

/-- A cell that is among those counted in counts one more, however often it is among them. -/
theorem bumped {counters cells : List Nat} {cell least : Nat} (among : cell ∈ cells)
    (within : cell < counters.length) (held : least ≤ counters.getD cell 0) :
    min (least + 1) maxCount ≤ (cells.foldl bump counters).getD cell 0 := by
  induction cells generalizing counters with
  | nil => cases among
  | cons first cells ih =>
    rw [List.foldl_cons]
    by_cases here : first = cell
    · apply le_bumps (Nat.min_le_right _ _)
      rw [getD_bump, if_pos ⟨here, within⟩]
      exact min_le_min_right maxCount (Nat.succ_le_succ held)
    · have later : cell ∈ cells := (List.mem_cons.mp among).resolve_left (Ne.symm here)
      apply ih later
      · rwa [bump_length]
      · rwa [getD_bump, if_neg fun both => here both.1]

/-- Whether the next increment halves the counters. -/
def Halves (sketch : Sketch) : Prop := sketch.sample ≤ sketch.additions + 1

instance (sketch : Sketch) : Decidable sketch.Halves :=
  inferInstanceAs (Decidable (sketch.sample ≤ sketch.additions + 1))

/-- What a counter of one request alone counts after an increment: saturated at the same value, and
halved when the sketch halves. -/
def countAlone (sketch : Sketch) (request wanted : RequestId) (count : Nat) : Nat :=
  let counted := if wanted = request then min (count + 1) maxCount else count
  if sketch.Halves then counted / 2 else counted

/-- What it counts after some increments, from a count on. -/
def countAloneFrom (request : RequestId) : Sketch → Nat → List RequestId → Nat
  | _, count, [] => count
  | sketch, count, wanted :: rest =>
    countAloneFrom request (sketch.increment wanted) (sketch.countAlone request wanted count) rest

/-- A request counted adds to its cells, and halves them all when the sketch has seen its fill. -/
theorem increment_counters (sketch : Sketch) (request : RequestId) :
    (sketch.increment request).counters =
      if sketch.Halves then ((sketch.cells request).foldl bump sketch.counters).map (· / 2)
      else (sketch.cells request).foldl bump sketch.counters := by
  unfold increment
  dsimp only
  by_cases halves : sketch.Halves
  · have full : sketch.sample ≤ sketch.additions + 1 := halves
    rw [if_pos full, if_pos halves]
    rfl
  · have room : ¬sketch.sample ≤ sketch.additions + 1 := halves
    rw [if_neg room, if_neg halves]
    rfl

/-- Counting leaves the mask. -/
theorem increment_mask (sketch : Sketch) (request : RequestId) :
    (sketch.increment request).mask = sketch.mask := by
  unfold increment
  dsimp only
  split <;> rfl

/-- A sketch keeps its size when a request is counted. -/
theorem Sized.increment {sketch : Sketch} (sized : sketch.Sized) (request : RequestId) :
    (sketch.increment request).Sized := by
  rw [Sized, increment_counters, increment_mask, ← sized]
  split
  · rw [List.length_map, bumps_length]
  · rw [bumps_length]

/-- A count that each cell of a request is at least, and that no cell passes. -/
structure Under (sketch : Sketch) (request : RequestId) (least : Nat) : Prop where
  held : ∀ cell ∈ sketch.cells request, least ≤ sketch.count cell
  small : least ≤ maxCount

/-- Halving halves every cell. -/
theorem getD_halved (counters : List Nat) (cell : Nat) :
    (counters.map (· / 2)).getD cell 0 = counters.getD cell 0 / 2 := by
  rw [List.getD_eq_getElem?_getD, List.getElem?_map, List.getD_eq_getElem?_getD]
  cases counters[cell]? <;> rfl

/-- One increment, of the request or of another, keeps its own counter under its cells. -/
theorem Under.increment {sketch : Sketch} {request : RequestId} {least : Nat}
    (under : sketch.Under request least) (sized : sketch.Sized) (wanted : RequestId) :
    (sketch.increment wanted).Under request (sketch.countAlone request wanted least) := by
  have cells : (sketch.increment wanted).cells request = sketch.cells request := by
    unfold Sketch.cells
    rw [increment_mask]
  have counted : ∀ cell ∈ sketch.cells request,
      (if wanted = request then min (least + 1) maxCount else least) ≤
        ((sketch.cells wanted).foldl bump sketch.counters).getD cell 0 := by
    intro cell inside
    split
    · rename_i same
      rw [same]
      exact bumped inside (cell_within sized inside) (under.held cell inside)
    · exact le_bumps under.small (under.held cell inside)
  have small : (if wanted = request then min (least + 1) maxCount else least) ≤ maxCount := by
    split
    · exact Nat.min_le_right _ _
    · exact under.small
  constructor
  · intro cell inside
    rw [cells] at inside
    unfold count
    rw [increment_counters, countAlone]
    by_cases halves : sketch.Halves
    · rw [if_pos halves, if_pos halves, getD_halved]
      exact Nat.div_le_div_right (counted cell inside)
    · rw [if_neg halves, if_neg halves]
      exact counted cell inside
  · rw [countAlone]
    by_cases halves : sketch.Halves
    · rw [if_pos halves]
      exact le_trans (Nat.div_le_self _ 2) small
    · rw [if_neg halves]
      exact small

/-- And so do any increments. -/
theorem Under.run {sketch : Sketch} {request : RequestId} {least : Nat}
    (under : sketch.Under request least) (sized : sketch.Sized) (wanted : List RequestId) :
    (wanted.foldl Sketch.increment sketch).Under request
      (countAloneFrom request sketch least wanted) := by
  induction wanted generalizing sketch least with
  | nil => exact under
  | cons next wanted ih => exact ih (under.increment sized next) (sized.increment next)

/-- What is under each cell is under the estimate. -/
theorem Under.le_estimate {sketch : Sketch} {request : RequestId} {least : Nat}
    (under : sketch.Under request least) : least ≤ sketch.estimate request := by
  unfold estimate
  cases lowest : ((sketch.cells request).map fun cell => sketch.counters.getD cell 0).min? with
  | none =>
    have empty : sketch.cells request = [] :=
      List.map_eq_nil_iff.mp (List.min?_eq_none_iff.mp lowest)
    cases empty
  | some value =>
    obtain ⟨cell, inside, rfl⟩ := List.mem_map.mp (List.min?_mem lowest)
    exact under.held cell inside

/-- A new sketch has the size its mask says. -/
theorem new_sized (maxEntries : Nat) : (Sketch.new maxEntries).Sized := by
  have some_ : 0 < width maxEntries := Nat.pos_of_isPowerOfTwo (Nat.isPowerOfTwo_nextPowerOfTwo _)
  rw [Sized, new, List.length_replicate]
  exact (Nat.sub_add_cancel some_).symm

/-- A new sketch has counted nothing. -/
theorem new_under (maxEntries : Nat) (request : RequestId) :
    (Sketch.new maxEntries).Under request 0 :=
  ⟨fun _ _ => Nat.zero_le _, Nat.zero_le _⟩

/-- However many increments of whichever requests came before, the sketch estimates a request at no
less than its own counter. -/
theorem estimate_never_under (maxEntries : Nat) (wanted : List RequestId) (request : RequestId) :
    countAloneFrom request (Sketch.new maxEntries) 0 wanted ≤
      (wanted.foldl Sketch.increment (Sketch.new maxEntries)).estimate request :=
  ((new_under maxEntries request).run (new_sized maxEntries) wanted).le_estimate

end Sketch

end Ikigai
