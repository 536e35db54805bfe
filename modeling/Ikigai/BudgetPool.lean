import Ikigai.Representation
import Ikigai.Request

/-!
# Budget pools

A run's retries and bytes are drawn from pools: shared counts, each with the pools above it, from
which it draws as well. Narrowing hands back the very same pool when the limit is no less than
what is left, and a pool of its own below it otherwise. Bytes are given back when what
they were drawn for is dropped.
-/

namespace Ikigai

/-- What is left in every pool cell there is, by the cell's number. -/
abbrev PoolCells := List Nat

/-- A pool: the numbers of its own cell and of every cell above it, from itself up. -/
structure Pool where
  path : List Nat
deriving DecidableEq, Repr

/-- Subtract an amount from a cell that covers it. -/
def PoolCells.take (cells : PoolCells) (cell amount : Nat) : Option PoolCells :=
  if amount ≤ cells.getD cell 0 then some (cells.set cell (cells.getD cell 0 - amount)) else none

/-- `fetch_add`. -/
def PoolCells.fetchAdd (cells : PoolCells) (cell amount : Nat) : PoolCells :=
  cells.set cell ((cells.getD cell 0 + amount) % 2 ^ 64)

namespace Pool

/-- A pool with nothing above it. -/
def new (cells : PoolCells) (amount : Nat) : PoolCells × Pool :=
  (cells ++ [amount], ⟨[cells.length]⟩)

/-- The least left along the pool and every pool above it. -/
def remaining (cells : PoolCells) (pool : Pool) : Nat :=
  pool.path.foldl (fun least cell => min least (cells.getD cell 0)) wordMax

/-- Take an amount from each cell in turn; where one cannot cover it, the cells taken from get it
back. -/
def takeFrom (amount : Nat) (taken : List Nat) : List Nat → PoolCells → PoolCells × Bool
  | [], cells => (cells, true)
  | cell :: above, cells =>
    match cells.take cell amount with
    | some after => takeFrom amount (taken ++ [cell]) above after
    | none => (taken.foldl (fun cells cell => cells.fetchAdd cell amount) cells, false)

/-- Take an amount here and in every pool above, or nothing at all. -/
def tryTake (cells : PoolCells) (pool : Pool) (amount : Nat) : PoolCells × Bool :=
  takeFrom amount [] pool.path cells

/-- Return an amount here and in every pool above. -/
def giveBack (cells : PoolCells) (pool : Pool) (amount : Nat) : PoolCells :=
  pool.path.foldl (fun cells cell => cells.fetchAdd cell amount) cells

/-- The same pool when the limit is no less than what is left, else a child that draws from it. -/
def narrowed (cells : PoolCells) (pool : Pool) (limit : Nat) : PoolCells × Pool :=
  if pool.remaining cells ≤ limit then (cells, pool)
  else (cells ++ [limit], ⟨cells.length :: pool.path⟩)

end Pool

namespace PoolCells

/-- Every listed cell changed, one after the other. -/
def shift (cells : PoolCells) (path : List Nat) (change : Nat → Nat) : PoolCells :=
  path.foldl (fun cells cell => cells.set cell (change (cells.getD cell 0))) cells

theorem shift_append (cells : PoolCells) (path further : List Nat) (change : Nat → Nat) :
    cells.shift (path ++ further) change = (cells.shift path change).shift further change :=
  List.foldl_append

@[simp] theorem length_shift (cells : PoolCells) (path : List Nat) (change : Nat → Nat) :
    (cells.shift path change).length = cells.length := by
  induction path generalizing cells with
  | nil => rfl
  | cons cell path ih =>
    rw [shift, List.foldl_cons]
    exact (ih _).trans (List.length_set ..)

theorem getD_set (cells : PoolCells) (cell asked value : Nat) (inside : cell < cells.length) :
    (cells.set cell value).getD asked 0 = if asked = cell then value else cells.getD asked 0 := by
  rw [List.getD_eq_getElem?_getD, List.getElem?_set, List.getD_eq_getElem?_getD]
  by_cases same : cell = asked
  · rw [if_pos same, if_pos same.symm, if_pos inside, Option.getD_some]
  · rw [if_neg same, if_neg (Ne.symm same)]

/-- Each listed cell is changed once, and no other. -/
theorem getD_shift (cells : PoolCells) (path : List Nat) (change : Nat → Nat) (asked : Nat)
    (once : path.Nodup) (inside : ∀ cell ∈ path, cell < cells.length) :
    (cells.shift path change).getD asked 0 =
      if asked ∈ path then change (cells.getD asked 0) else cells.getD asked 0 := by
  induction path generalizing cells with
  | nil => rfl
  | cons cell path ih =>
    rw [List.nodup_cons] at once
    rw [List.forall_mem_cons] at inside
    have tail := ih (cells.set cell (change (cells.getD cell 0))) once.2 (by
      rw [List.length_set]
      exact inside.2)
    rw [shift, List.foldl_cons]
    refine tail.trans ?_
    rw [getD_set _ _ _ _ inside.1]
    by_cases same : asked = cell
    · subst same
      rw [if_neg once.1, if_pos rfl, if_pos List.mem_cons_self]
    · simp only [List.mem_cons, same, false_or, if_false]

theorem ext_getD {cells others : PoolCells} (long : cells.length = others.length)
    (same : ∀ cell, cells.getD cell 0 = others.getD cell 0) : cells = others := by
  refine List.ext_getElem long fun cell inside inside' => ?_
  have value := same cell
  rwa [List.getD_eq_getElem _ _ inside, List.getD_eq_getElem _ _ inside'] at value

/-- What is subtracted and added again is what it was. -/
theorem shift_back (cells : PoolCells) (path : List Nat) (amount : Nat) (once : path.Nodup)
    (inside : ∀ cell ∈ path, cell < cells.length)
    (covered : ∀ cell ∈ path, amount ≤ cells.getD cell 0)
    (word : ∀ cell, cells.getD cell 0 < 2 ^ 64) :
    (cells.shift path (· - amount)).shift path (fun left => (left + amount) % 2 ^ 64) = cells := by
  refine ext_getD (by rw [length_shift, length_shift]) fun asked => ?_
  rw [getD_shift _ _ _ _ once (by simpa using inside), getD_shift _ _ _ _ once inside]
  by_cases member : asked ∈ path
  · rw [if_pos member, if_pos member, Nat.sub_add_cancel (covered asked member),
      Nat.mod_eq_of_lt (word asked)]
  · rw [if_neg member, if_neg member]

end PoolCells

namespace Pool

open PoolCells

/-- From cells that have been taken from, the rest of the walk takes from the rest or undoes
everything. -/
theorem take_from_eq (amount : Nat) (start : PoolCells) (taken path : List Nat)
    (once : (taken ++ path).Nodup) (inside : ∀ cell ∈ taken ++ path, cell < start.length)
    (covered : ∀ cell ∈ taken, amount ≤ start.getD cell 0)
    (word : ∀ cell, start.getD cell 0 < 2 ^ 64) :
    takeFrom amount taken path (start.shift taken (· - amount)) =
      if ∀ cell ∈ path, amount ≤ start.getD cell 0 then
        (start.shift (taken ++ path) (· - amount), true)
      else (start, false) := by
  induction path generalizing taken with
  | nil =>
    rw [takeFrom, if_pos (by simp), List.append_nil]
  | cons cell above ih =>
    have apart : cell ∉ taken := fun member =>
      List.disjoint_of_nodup_append once member List.mem_cons_self
    have within : ∀ other ∈ taken, other < start.length := fun other member =>
      inside other (List.mem_append_left _ member)
    have onceTaken : taken.Nodup := once.of_append_left
    have left : (start.shift taken (· - amount)).getD cell 0 = start.getD cell 0 := by
      rw [getD_shift _ _ _ _ onceTaken within, if_neg apart]
    rw [takeFrom, PoolCells.take, left]
    by_cases enough : amount ≤ start.getD cell 0
    · have joined : (taken ++ [cell]) ++ above = taken ++ cell :: above := by
        rw [List.append_assoc, List.singleton_append]
      have moved : (start.shift taken (· - amount)).set cell (start.getD cell 0 - amount) =
          start.shift (taken ++ [cell]) (· - amount) := by
        rw [shift_append]
        exact congrArg (fun value => (start.shift taken (· - amount)).set cell (value - amount))
          left.symm
      have rest := ih (taken ++ [cell]) (by rwa [joined]) (by rwa [joined]) (by
        intro other member
        rcases List.mem_append.mp member with earlier | last
        · exact covered other earlier
        · rw [List.mem_singleton.mp last]
          exact enough)
      rw [joined] at rest
      rw [if_pos enough]
      dsimp only
      rw [moved, rest]
      simp only [List.forall_mem_cons, enough, true_and]
    · rw [if_neg enough, if_neg fun all => enough (all cell List.mem_cons_self)]
      exact congrArg (·, false) (shift_back start taken amount onceTaken within covered word)

/-- A take subtracts from every cell of the pool, or changes none. -/
theorem try_take_eq (cells : PoolCells) (pool : Pool) (amount : Nat) (once : pool.path.Nodup)
    (inside : ∀ cell ∈ pool.path, cell < cells.length)
    (word : ∀ cell, cells.getD cell 0 < 2 ^ 64) :
    pool.tryTake cells amount =
      if ∀ cell ∈ pool.path, amount ≤ cells.getD cell 0 then
        (cells.shift pool.path (· - amount), true)
      else (cells, false) :=
  take_from_eq amount cells [] pool.path once inside (by simp) word

theorem give_back_eq (cells : PoolCells) (pool : Pool) (amount : Nat) :
    pool.giveBack cells amount =
      cells.shift pool.path fun left => (left + amount) % 2 ^ 64 := rfl

/-- No more than is left anywhere is left along the pool, and that much is. -/
theorem le_remaining_iff (cells : PoolCells) (pool : Pool) (amount : Nat) :
    amount ≤ pool.remaining cells ↔
      amount ≤ wordMax ∧ ∀ cell ∈ pool.path, amount ≤ cells.getD cell 0 := by
  rw [remaining]
  generalize wordMax = most
  induction pool.path generalizing most with
  | nil => simp
  | cons cell path ih =>
    rw [List.foldl_cons, ih, le_min_iff, List.forall_mem_cons, and_assoc]

end Pool

/-- Bytes held from a pool for as long as this lives. -/
structure Reservation where
  pool : Pool
  bytes : Nat
deriving DecidableEq, Repr

def overReservation (wanted left : Nat) : Error :=
  .overBudget ("a reservation of ".toList ++ Nat.toDigits 10 wanted ++
    " byte(s) is larger than the run's byte budget: ".toList ++ Nat.toDigits 10 left ++
    (" byte(s) left (a `urn:cap:stream:memory:<bytes>` grant raises it, up to the host's " ++
      "ceiling)").toList)

namespace Reservation

/-- `MemoryBudget::reserve`. -/
def reserve (cells : PoolCells) (pool : Pool) (bytes : Nat) :
    PoolCells × Except Error Reservation :=
  let taken := pool.tryTake cells bytes
  if taken.2 then (taken.1, .ok ⟨pool, bytes⟩)
  else (taken.1, .error (overReservation bytes (pool.remaining taken.1)))

/-- Hold more besides: all or nothing. -/
def tryGrow (cells : PoolCells) (reservation : Reservation) (more : Nat) :
    PoolCells × Reservation × Except Error Unit :=
  let taken := reservation.pool.tryTake cells more
  if taken.2 then (taken.1, { reservation with bytes := reservation.bytes + more }, .ok ())
  else (taken.1, reservation,
    .error (overReservation more (reservation.pool.remaining taken.1)))

/-- Give some back now, at most what this holds. -/
def shrink (cells : PoolCells) (reservation : Reservation) (fewer : Nat) :
    PoolCells × Reservation :=
  let fewer := min fewer reservation.bytes
  (reservation.pool.giveBack cells fewer, { reservation with bytes := reservation.bytes - fewer })

/-- End the reservation without giving its bytes back. -/
def keep (reservation : Reservation) : Reservation := { reservation with bytes := 0 }

/-- `Drop`. -/
def drop (cells : PoolCells) (reservation : Reservation) : PoolCells :=
  if 0 < reservation.bytes then reservation.pool.giveBack cells reservation.bytes else cells

end Reservation

namespace Body

def overCollect (seen left : Nat) : Error :=
  .overBudget ("the body is larger than the run's byte budget: ".toList ++ Nat.toDigits 10 left ++
    " byte(s) left, at least ".toList ++ Nat.toDigits 10 seen ++
    (" needed (a `urn:cap:stream:memory:<bytes>` grant raises it, up to the host's " ++
      "ceiling)").toList)

/-- The one loop that reads a stream into memory: every chunk is drawn before it is held. -/
def drainWithin (budget : Pool) : List (Except Error (List UInt8)) → Nat → List UInt8 →
    PoolCells → PoolCells × Nat × Except Error (List UInt8)
  | [], drawn, buffer, cells => (cells, drawn, .ok buffer)
  | .error failure :: _, drawn, _, cells => (cells, drawn, .error failure)
  | .ok chunk :: rest, drawn, buffer, cells =>
    let taken := budget.tryTake cells chunk.length
    if taken.2 then drainWithin budget rest (drawn + chunk.length) (buffer ++ chunk) taken.1
    else (taken.1, drawn,
      .error (overCollect (buffer.length + chunk.length) (budget.remaining taken.1)))

/-- `collect_within`, of a body and what its stream yields. -/
def collectWithin (cells : PoolCells) (body : Body) (chunks : List (Except Error (List UInt8)))
    (budget : Pool) : PoolCells × Except Error (List UInt8) :=
  match body with
  | .bytes data => (cells, .ok data)
  | .replay _ (some length) =>
    if budget.remaining cells < length then
      (cells, .error (overCollect length (budget.remaining cells)))
    else collect cells chunks budget
  | .replay _ none | .once _ => collect cells chunks budget
where
  /-- Read the stream, and give back what was drawn when that fails. -/
  collect (cells : PoolCells) (chunks : List (Except Error (List UInt8))) (budget : Pool) :
      PoolCells × Except Error (List UInt8) :=
    match drainWithin budget chunks 0 [] cells with
    | (after, _, .ok buffer) => (after, .ok buffer)
    | (after, drawn, .error failure) => (budget.giveBack after drawn, .error failure)

end Body

/-- A run's pools and its deadline. -/
structure IssueContext where
  retries : Option Pool
  notAfter : Option Time
  memory : Option Pool
deriving DecidableEq, Repr

namespace IssueContext

/-- The pool there is, narrowed, or a fresh one. -/
def limited (cells : PoolCells) (pool : Option Pool) (limit : Nat) : PoolCells × Pool :=
  match pool with
  | some pool => pool.narrowed cells limit
  | none => Pool.new cells limit

def withRetryLimit (cells : PoolCells) (context : IssueContext) (retries : Nat) :
    PoolCells × IssueContext :=
  let pool := limited cells context.retries retries
  (pool.1, { context with retries := some pool.2 })

def withMemoryLimit (cells : PoolCells) (context : IssueContext) (bytes : Nat) :
    PoolCells × IssueContext :=
  let pool := limited cells context.memory bytes
  (pool.1, { context with memory := some pool.2 })

/-- The context a request runs with, under what its capability is entitled to: of retries, where
the kernel has a retry policy, and of bytes. -/
def admitted (cells : PoolCells) (context : IssueContext) (retries : Option Nat) (bytes : Nat) :
    PoolCells × IssueContext :=
  let retried :=
    match retries with
    | some entitled =>
      let pool := limited cells context.retries entitled
      (pool.1, some pool.2)
    | none => (cells, none)
  let memory := limited retried.1 context.memory bytes
  (memory.1, ⟨retried.2, context.notAfter, some memory.2⟩)

end IssueContext

end Ikigai
