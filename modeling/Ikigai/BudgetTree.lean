import Ikigai.BudgetPool

/-!
# What a narrowed budget bounds

A tree of pools, every handle on one, and what is taken through each handle and not given back.
Nothing is lost or minted: of every cell, what is left and what is outstanding through it make up what
it began with, and a take that is refused changes nothing. A handle obtained by narrowing to
a limit is bounded by it for as long as what others hold of some cell along it leaves no more than
the limit. A child begins with its limit, so it always is. The very same pool, which
narrowing hands back while little is left, is bounded only until others give back.
-/

namespace Ikigai

/-- A handle on a pool, and the narrowings it was obtained through. -/
structure Handle where
  pool : Pool
  via : List Nat
deriving DecidableEq, Repr

/-- What was taken through a handle and not given back: what a reservation or a running collect would
give back, and what was drawn for good. -/
structure Holding where
  via : List Nat
  reservation : Reservation
  drawn : Nat
deriving DecidableEq, Repr

def Holding.outstanding (holding : Holding) : Nat := holding.reservation.bytes + holding.drawn

/-- A narrowing: the handle it answered, its limit, and whether that is the very same pool. -/
structure Narrowing where
  handle : Nat
  pool : Pool
  limit : Nat
  same : Bool
deriving DecidableEq, Repr

/-- Cells, what each began with, handles, narrowings and holdings, in the order they were made. -/
structure BudgetTree where
  cells : PoolCells
  initial : List Nat
  handles : List Handle
  narrowings : List Narrowing
  holdings : List Holding
deriving DecidableEq, Repr

/-- What is done through one handle, reservation or collect. -/
inductive BudgetStep where
  | mint (amount : UInt64)
  | narrow (handle : Nat) (limit : UInt64)
  | draw (handle amount : Nat)
  | reserve (handle bytes : Nat)
  | collect (handle : Nat)
  | grow (holding more : Nat)
  | shrink (holding fewer : Nat)
  | keep (holding : Nat)
  | drop (holding : Nat)
deriving DecidableEq, Repr

namespace BudgetTree

def empty : BudgetTree := ⟨[], [], [], [], []⟩

/-- A holding with its reservation in a new state. -/
def hold (tree : BudgetTree) (cells : PoolCells) (place : Nat) (holding : Holding) : BudgetTree :=
  { tree with cells := cells, holdings := tree.holdings.set place holding }

/-- A new holding. -/
def begin_ (tree : BudgetTree) (cells : PoolCells) (holding : Holding) : BudgetTree :=
  { tree with cells := cells, holdings := tree.holdings ++ [holding] }

/-- `Pool::narrowed` through a handle. -/
def narrow (tree : BudgetTree) (handle : Handle) (limit : Nat) : BudgetTree :=
  let pool := handle.pool.narrowed tree.cells limit
  { tree with
    cells := pool.1
    initial := tree.initial ++ pool.1.drop tree.cells.length
    handles := tree.handles ++ [⟨pool.2, tree.narrowings.length :: handle.via⟩]
    narrowings := tree.narrowings ++
      [⟨tree.handles.length, pool.2, limit, decide (pool.2 = handle.pool)⟩] }

/-- One step, and whether it was granted. -/
def perform (tree : BudgetTree) : BudgetStep → BudgetTree × Bool
  | .mint amount =>
    let pool := Pool.new tree.cells amount.toNat
    ({ tree with
        cells := pool.1
        initial := tree.initial ++ [amount.toNat]
        handles := tree.handles ++ [⟨pool.2, []⟩] }, true)
  | .narrow handle limit =>
    match tree.handles[handle]? with
    | some handle => (tree.narrow handle limit.toNat, true)
    | none => (tree, false)
  | .draw handle amount =>
    match tree.handles[handle]? with
    | some handle =>
      match handle.pool.tryTake tree.cells amount with
      | (after, true) => (tree.begin_ after ⟨handle.via, ⟨handle.pool, 0⟩, amount⟩, true)
      | (after, false) => ({ tree with cells := after }, false)
    | none => (tree, false)
  | .reserve handle bytes =>
    match tree.handles[handle]? with
    | some handle =>
      match Reservation.reserve tree.cells handle.pool bytes with
      | (after, .ok reservation) => (tree.begin_ after ⟨handle.via, reservation, 0⟩, true)
      | (after, .error _) => ({ tree with cells := after }, false)
    | none => (tree, false)
  | .collect handle =>
    match tree.handles[handle]? with
    | some handle => (tree.begin_ tree.cells ⟨handle.via, ⟨handle.pool, 0⟩, 0⟩, true)
    | none => (tree, false)
  | .grow place more =>
    match tree.holdings[place]? with
    | some holding =>
      match holding.reservation.tryGrow tree.cells more with
      | (after, reservation, .ok ()) =>
        (tree.hold after place { holding with reservation := reservation }, true)
      | (after, reservation, .error _) =>
        (tree.hold after place { holding with reservation := reservation }, false)
    | none => (tree, false)
  | .shrink place fewer =>
    match tree.holdings[place]? with
    | some holding =>
      let shrunk := holding.reservation.shrink tree.cells fewer
      (tree.hold shrunk.1 place { holding with reservation := shrunk.2 }, true)
    | none => (tree, false)
  | .keep place =>
    match tree.holdings[place]? with
    | some holding =>
      (tree.hold tree.cells place
        { holding with
          reservation := holding.reservation.keep
          drawn := holding.drawn + holding.reservation.bytes }, true)
    | none => (tree, false)
  | .drop place =>
    match tree.holdings[place]? with
    | some holding =>
      (tree.hold (holding.reservation.drop tree.cells) place
        { holding with reservation := { holding.reservation with bytes := 0 } }, true)
    | none => (tree, false)

/-- A tree after further steps. -/
def following (tree : BudgetTree) (steps : List BudgetStep) : BudgetTree :=
  steps.foldl (fun tree step => (tree.perform step).1) tree

/-- The tree after some steps. -/
def after (steps : List BudgetStep) : BudgetTree := empty.following steps

/-- A run with a step more is the run, and then the step. -/
theorem after_concat (steps : List BudgetStep) (step : BudgetStep) :
    after (steps ++ [step]) = ((after steps).perform step).1 := by
  rw [after, following, List.foldl_append]
  rfl

/-- What is outstanding in all holdings whose pool and narrowings count. -/
def total (tree : BudgetTree) (counts : Pool → List Nat → Bool) : Nat :=
  (tree.holdings.map fun holding =>
    if counts holding.reservation.pool holding.via then holding.outstanding else 0).sum

/-- What is outstanding through a cell and everything below it. -/
def throughCell (tree : BudgetTree) (cell : Nat) : Nat :=
  tree.total fun pool _ => decide (cell ∈ pool.path)

/-- What is outstanding through the handle a narrowing answered, and everything obtained from it. -/
def throughNarrowing (tree : BudgetTree) (narrowing : Nat) : Nat :=
  tree.total fun _ via => decide (narrowing ∈ via)

/-- What is outstanding through a cell and not through a narrowing. -/
def heldByOthers (tree : BudgetTree) (cell narrowing : Nat) : Nat :=
  tree.total fun pool via => decide (cell ∈ pool.path) && !decide (narrowing ∈ via)

/-- What others hold of some cell along the pool leaves no more than the limit. -/
def Entitled (tree : BudgetTree) (number : Nat) (narrowing : Narrowing) : Prop :=
  ∃ cell ∈ narrowing.pool.path,
    tree.initial.getD cell 0 ≤ narrowing.limit + tree.heldByOthers cell number

/-- Every narrowing that handed back the very same pool is still entitled to no more than its
limit. -/
def AllEntitled (tree : BudgetTree) : Prop :=
  ∀ number narrowing, tree.narrowings[number]? = some narrowing → narrowing.same = true →
    tree.Entitled number narrowing

/-- A reservation begun adds what it holds to the totals that count it. -/
theorem total_begin (tree : BudgetTree) (cells : PoolCells) (holding : Holding)
    (counts : Pool → List Nat → Bool) :
    (tree.begin_ cells holding).total counts =
      tree.total counts +
        if counts holding.reservation.pool holding.via then holding.outstanding else 0 := by
  simp [total, begin_]

/-- A holding of the same pool and narrowings in its place. -/
theorem total_hold (tree : BudgetTree) (cells : PoolCells) (place : Nat) (holding changed : Holding)
    (counts : Pool → List Nat → Bool) (held : tree.holdings[place]? = some holding)
    (pool : changed.reservation.pool = holding.reservation.pool) (via : changed.via = holding.via) :
    (tree.hold cells place changed).total counts +
        (if counts holding.reservation.pool holding.via then holding.outstanding else 0) =
      tree.total counts +
        if counts holding.reservation.pool holding.via then changed.outstanding else 0 := by
  simp only [total, hold, List.map_set]
  rw [pool, via]
  generalize weighed : (tree.holdings.map fun holding =>
    if counts holding.reservation.pool holding.via then holding.outstanding else 0) = weights
  have here : weights[place]? =
      some (if counts holding.reservation.pool holding.via then holding.outstanding else 0) := by
    rw [← weighed, List.getElem?_map, held]
    rfl
  generalize (if counts holding.reservation.pool holding.via then holding.outstanding else 0) =
    before at here ⊢
  generalize (if counts holding.reservation.pool holding.via then changed.outstanding else 0) =
    after
  clear weighed held pool via
  induction weights generalizing place with
  | nil => cases here
  | cons weight rest ih =>
    cases place with
    | zero =>
      rw [List.getElem?_cons_zero, Option.some.injEq] at here
      rw [List.set_cons_zero, List.sum_cons, List.sum_cons]
      omega
    | succ place =>
      have tail := ih place (by simpa using here)
      rw [List.set_cons_succ, List.sum_cons, List.sum_cons]
      omega

/-- A pool and the narrowings a handle on it was obtained through, in a tree. -/
structure Sound (tree : BudgetTree) (pool : Pool) (via : List Nat) : Prop where
  once : pool.path.Nodup
  inside : ∀ cell ∈ pool.path, cell < tree.cells.length
  through : ∀ number ∈ via, ∃ narrowing, tree.narrowings[number]? = some narrowing ∧
    narrowing.pool.path ⊆ pool.path

/-- What a tree keeps: every handle and holding is on cells there are, every narrowing has its
handle, a child begins with its limit, and of every cell what is left and what is outstanding
make up what it began with. -/
structure Formed (tree : BudgetTree) : Prop where
  handles : ∀ handle ∈ tree.handles, tree.Sound handle.pool handle.via
  holdings : ∀ holding ∈ tree.holdings, tree.Sound holding.reservation.pool holding.via
  answered : ∀ (number : Nat) (narrowing : Narrowing), tree.narrowings[number]? = some narrowing →
    ∃ via, tree.handles[narrowing.handle]? = some ⟨narrowing.pool, via⟩ ∧ number ∈ via
  children : ∀ (number : Nat) (narrowing : Narrowing), tree.narrowings[number]? = some narrowing →
    narrowing.same = false →
      ∃ own ∈ narrowing.pool.path, tree.initial.getD own 0 = narrowing.limit
  long : tree.initial.length = tree.cells.length
  word : ∀ cell, tree.initial.getD cell 0 ≤ wordMax
  conserved : ∀ cell < tree.cells.length,
    tree.cells.getD cell 0 + tree.throughCell cell = tree.initial.getD cell 0

/-- What a step leaves alone that neither makes a cell nor a handle. -/
structure SameFrame (tree after : BudgetTree) : Prop where
  initial : after.initial = tree.initial
  handles : after.handles = tree.handles
  narrowings : after.narrowings = tree.narrowings

/-- An amount was taken from a pool, where every cell of it covered the amount. -/
structure Takes (tree after : BudgetTree) (pool : Pool) (via : List Nat) (amount : Nat) :
    Prop where
  frame : SameFrame tree after
  covered : ∀ cell ∈ pool.path, amount ≤ tree.cells.getD cell 0
  cells : after.cells = tree.cells.shift pool.path (· - amount)
  total : ∀ counts, after.total counts = tree.total counts + if counts pool via then amount else 0
  holdings : ∀ holding ∈ after.holdings,
    holding.reservation.pool = pool ∧ holding.via = via ∨ ∃ other ∈ tree.holdings,
      holding.reservation.pool = other.reservation.pool ∧ holding.via = other.via

/-- An amount that was outstanding was given back to a pool. -/
structure Gives (tree after : BudgetTree) (pool : Pool) (via : List Nat) (amount : Nat) :
    Prop where
  frame : SameFrame tree after
  cells : after.cells = tree.cells.shift pool.path fun left => (left + amount) % 2 ^ 64
  total : ∀ counts, (after.total counts + if counts pool via then amount else 0) =
    tree.total counts
  holdings : ∀ holding ∈ after.holdings, ∃ other ∈ tree.holdings,
    holding.reservation.pool = other.reservation.pool ∧ holding.via = other.via

/-- Every cell holds a word. -/
theorem Formed.cell_word {tree : BudgetTree} (formed : tree.Formed) (cell : Nat) :
    tree.cells.getD cell 0 < 2 ^ 64 := by
  by_cases inside : cell < tree.cells.length
  · have conserved := formed.conserved cell inside
    have word := formed.word cell
    rw [wordMax] at word
    omega
  · rw [List.getD_eq_default _ _ (Nat.le_of_not_lt inside)]
    decide

/-- A pool that stands in the tree gives an amount exactly when every cell on its path has it. -/
theorem Formed.try_take {tree : BudgetTree} (formed : tree.Formed) {pool : Pool} {via : List Nat}
    (sound : tree.Sound pool via) (amount : Nat) :
    pool.tryTake tree.cells amount =
      if ∀ cell ∈ pool.path, amount ≤ tree.cells.getD cell 0 then
        (tree.cells.shift pool.path (· - amount), true)
      else (tree.cells, false) :=
  pool.try_take_eq tree.cells amount sound.once sound.inside formed.cell_word

/-- Taking nothing leaves the cells as they were. -/
theorem shift_nothing (cells : PoolCells) (path : List Nat) (once : path.Nodup)
    (inside : ∀ cell ∈ path, cell < cells.length) : cells.shift path (· - 0) = cells := by
  refine PoolCells.ext_getD (PoolCells.length_shift _ _ _) fun cell => ?_
  rw [PoolCells.getD_shift _ _ _ _ once inside, Nat.sub_zero, ite_self]

/-- Dropping a reservation gives back what it holds, also when that is nothing. -/
theorem Formed.drop_eq {tree : BudgetTree} (formed : tree.Formed) {reservation : Reservation}
    {via : List Nat} (sound : tree.Sound reservation.pool via) :
    reservation.drop tree.cells =
      tree.cells.shift reservation.pool.path fun left => (left + reservation.bytes) % 2 ^ 64 := by
  rw [Reservation.drop]
  split
  · rfl
  · rename_i none
    have zero : reservation.bytes = 0 := by omega
    refine PoolCells.ext_getD (PoolCells.length_shift _ _ _).symm fun cell => ?_
    rw [PoolCells.getD_shift _ _ _ _ sound.once sound.inside, zero, Nat.add_zero,
      Nat.mod_eq_of_lt (formed.cell_word cell), ite_self]

/-- Beginning a reservation takes what it covers from each cell on its pool's path. -/
theorem begin_takes {tree : BudgetTree} {after : PoolCells} {holding : Holding} {amount : Nat}
    (covered : ∀ cell ∈ holding.reservation.pool.path, amount ≤ tree.cells.getD cell 0)
    (cells : after = tree.cells.shift holding.reservation.pool.path (· - amount))
    (outstanding : holding.outstanding = amount) :
    Takes tree (tree.begin_ after holding) holding.reservation.pool holding.via amount where
  frame := ⟨rfl, rfl, rfl⟩
  covered := covered
  cells := cells
  total := fun counts => by rw [total_begin, outstanding]
  holdings := by
    intro other member
    rcases List.mem_append.mp member with before | last
    · exact .inr ⟨other, before, rfl, rfl⟩
    · rw [List.mem_singleton.mp last]
      exact .inl ⟨rfl, rfl⟩

/-- Changing what is held changes the totals that count it by the difference. -/
theorem hold_holdings {tree : BudgetTree} {cells : PoolCells} {place : Nat}
    {holding changed : Holding} (held : tree.holdings[place]? = some holding)
    (pool : changed.reservation.pool = holding.reservation.pool) (via : changed.via = holding.via)
    (other : Holding) (member : other ∈ (tree.hold cells place changed).holdings) :
    ∃ before ∈ tree.holdings, other.reservation.pool = before.reservation.pool ∧
      other.via = before.via := by
  rcases List.mem_or_eq_of_mem_set member with before | rfl
  · exact ⟨other, before, rfl, rfl⟩
  · exact ⟨holding, List.mem_of_getElem? held, pool, via⟩

/-- A reservation that grows takes the difference from its pool. -/
theorem hold_takes {tree : BudgetTree} {after : PoolCells} {place : Nat} {holding changed : Holding}
    {amount : Nat} (held : tree.holdings[place]? = some holding)
    (pool : changed.reservation.pool = holding.reservation.pool) (via : changed.via = holding.via)
    (covered : ∀ cell ∈ holding.reservation.pool.path, amount ≤ tree.cells.getD cell 0)
    (cells : after = tree.cells.shift holding.reservation.pool.path (· - amount))
    (outstanding : changed.outstanding = holding.outstanding + amount) :
    Takes tree (tree.hold after place changed) holding.reservation.pool holding.via amount where
  frame := ⟨rfl, rfl, rfl⟩
  covered := covered
  cells := cells
  total := by
    intro counts
    have moved := total_hold tree after place holding changed counts held pool via
    split at moved
    · rename_i counted
      rw [if_pos counted]
      omega
    · rename_i other
      rw [if_neg other]
      omega
  holdings := fun other member => .inr (hold_holdings held pool via other member)

/-- One that shrinks gives the difference back. -/
theorem hold_gives {tree : BudgetTree} {after : PoolCells} {place : Nat} {holding changed : Holding}
    {amount : Nat} (held : tree.holdings[place]? = some holding)
    (pool : changed.reservation.pool = holding.reservation.pool) (via : changed.via = holding.via)
    (cells : after = tree.cells.shift holding.reservation.pool.path
      fun left => (left + amount) % 2 ^ 64)
    (outstanding : changed.outstanding + amount = holding.outstanding) :
    Gives tree (tree.hold after place changed) holding.reservation.pool holding.via amount where
  frame := ⟨rfl, rfl, rfl⟩
  cells := cells
  total := by
    intro counts
    have moved := total_hold tree after place holding changed counts held pool via
    split at moved
    · rename_i counted
      rw [if_pos counted]
      omega
    · rename_i other
      rw [if_neg other]
      omega
  holdings := hold_holdings held pool via

/-- Everything a step can do: nothing, a new pool, a narrowing, a take that was granted or a
give-back. -/
theorem perform_cases {tree : BudgetTree} (formed : tree.Formed) (step : BudgetStep) :
    (tree.perform step).1 = tree ∨
      (∃ amount, step = .mint amount) ∨
      (∃ handle limit, handle ∈ tree.handles ∧
        tree.perform step = (tree.narrow handle (UInt64.toNat limit), true)) ∨
      (∃ pool via amount, tree.Sound pool via ∧
        Takes tree (tree.perform step).1 pool via amount ∧ (tree.perform step).2 = true) ∨
      ∃ pool via amount, tree.Sound pool via ∧
        Gives tree (tree.perform step).1 pool via amount ∧ (tree.perform step).2 = true := by
  cases step with
  | mint amount => exact .inr (.inl ⟨amount, rfl⟩)
  | narrow handle limit =>
    cases there : tree.handles[handle]? with
    | none => exact .inl (by simp only [perform, there])
    | some handle =>
      exact .inr (.inr (.inl ⟨handle, limit, List.mem_of_getElem? there, by
        simp only [perform, there]⟩))
  | draw handle amount =>
    cases there : tree.handles[handle]? with
    | none => exact .inl (by simp only [perform, there])
    | some handle =>
      have sound := formed.handles handle (List.mem_of_getElem? there)
      by_cases covered : ∀ cell ∈ handle.pool.path, amount ≤ tree.cells.getD cell 0
      · refine .inr (.inr (.inr (.inl ⟨handle.pool, handle.via, amount, sound, ?_⟩)))
        simp only [perform, there, formed.try_take sound, if_pos covered, and_true]
        exact @begin_takes tree _ ⟨handle.via, ⟨handle.pool, 0⟩, amount⟩ _ covered rfl
          (Nat.zero_add _)
      · exact .inl (by simp only [perform, there, formed.try_take sound, if_neg covered])
  | reserve handle bytes =>
    cases there : tree.handles[handle]? with
    | none => exact .inl (by simp only [perform, there])
    | some handle =>
      have sound := formed.handles handle (List.mem_of_getElem? there)
      by_cases covered : ∀ cell ∈ handle.pool.path, bytes ≤ tree.cells.getD cell 0
      · refine .inr (.inr (.inr (.inl ⟨handle.pool, handle.via, bytes, sound, ?_⟩)))
        simp only [perform, there, Reservation.reserve, formed.try_take sound, if_pos covered,
          if_true, and_true]
        exact @begin_takes tree _ ⟨handle.via, ⟨handle.pool, bytes⟩, 0⟩ _ covered rfl rfl
      · exact .inl (by simp only [perform, there, Reservation.reserve, formed.try_take sound,
          if_neg covered, Bool.false_eq_true, if_false])
  | collect handle =>
    cases there : tree.handles[handle]? with
    | none => exact .inl (by simp only [perform, there])
    | some handle =>
      have sound := formed.handles handle (List.mem_of_getElem? there)
      refine .inr (.inr (.inr (.inl ⟨handle.pool, handle.via, 0, sound, ?_⟩)))
      simp only [perform, there, and_true]
      exact @begin_takes tree _ ⟨handle.via, ⟨handle.pool, 0⟩, 0⟩ _ (fun _ _ => Nat.zero_le _)
        (shift_nothing _ _ sound.once sound.inside).symm rfl
  | grow place more =>
    cases there : tree.holdings[place]? with
    | none => exact .inl (by simp only [perform, there])
    | some holding =>
      have sound := formed.holdings holding (List.mem_of_getElem? there)
      by_cases covered : ∀ cell ∈ holding.reservation.pool.path, more ≤ tree.cells.getD cell 0
      · refine .inr (.inr (.inr (.inl ⟨_, _, more, sound, ?_⟩)))
        simp only [perform, there, Reservation.tryGrow, formed.try_take sound, if_pos covered,
          if_true, and_true]
        exact hold_takes there rfl rfl covered rfl (by
          simp only [Holding.outstanding]
          omega)
      · refine .inl ?_
        simp only [perform, there, Reservation.tryGrow, formed.try_take sound, if_neg covered,
          Bool.false_eq_true, if_false, hold]
        obtain ⟨inside, same⟩ := List.getElem?_eq_some_iff.mp there
        rw [← same, List.set_getElem_self]
  | shrink place fewer =>
    cases there : tree.holdings[place]? with
    | none => exact .inl (by simp only [perform, there])
    | some holding =>
      have sound := formed.holdings holding (List.mem_of_getElem? there)
      refine .inr (.inr (.inr (.inr ⟨_, _, min fewer holding.reservation.bytes, sound, ?_⟩)))
      simp only [perform, there, Reservation.shrink, Pool.give_back_eq, and_true]
      exact hold_gives there rfl rfl rfl (by
        simp only [Holding.outstanding]
        omega)
  | keep place =>
    cases there : tree.holdings[place]? with
    | none => exact .inl (by simp only [perform, there])
    | some holding =>
      have sound := formed.holdings holding (List.mem_of_getElem? there)
      refine .inr (.inr (.inr (.inl ⟨_, _, 0, sound, ?_⟩)))
      simp only [perform, there, Reservation.keep, and_true]
      exact hold_takes there rfl rfl (fun _ _ => Nat.zero_le _)
        (shift_nothing _ _ sound.once sound.inside).symm (by
          simp only [Holding.outstanding]
          omega)
  | drop place =>
    cases there : tree.holdings[place]? with
    | none => exact .inl (by simp only [perform, there])
    | some holding =>
      have sound := formed.holdings holding (List.mem_of_getElem? there)
      refine .inr (.inr (.inr (.inr ⟨_, _, holding.reservation.bytes, sound, ?_⟩)))
      simp only [perform, there, formed.drop_eq sound, and_true]
      exact hold_gives there rfl rfl rfl (by
        simp only [Holding.outstanding]
        omega)

/-- The empty tree is well formed. -/
theorem Formed.empty : empty.Formed where
  handles := nofun
  holdings := nofun
  answered := nofun
  children := nofun
  long := rfl
  word := fun _ => Nat.zero_le _
  conserved := nofun

/-- A step that only moves amounts. -/
theorem Formed.of_frame {tree after : BudgetTree} (formed : tree.Formed)
    (frame : SameFrame tree after) (long : after.cells.length = tree.cells.length)
    (holdings : ∀ holding ∈ after.holdings,
      tree.Sound holding.reservation.pool holding.via)
    (conserved : ∀ cell < tree.cells.length,
      after.cells.getD cell 0 + after.throughCell cell = tree.initial.getD cell 0) :
    after.Formed := by
  have kept : ∀ {pool via}, tree.Sound pool via → after.Sound pool via := by
    intro pool via sound
    refine ⟨sound.once, ?_, ?_⟩
    · rw [long]
      exact sound.inside
    · rw [frame.narrowings]
      exact sound.through
  constructor
  · rw [frame.handles]
    exact fun handle member => kept (formed.handles handle member)
  · exact fun holding member => kept (holdings holding member)
  · rw [frame.narrowings, frame.handles]
    exact formed.answered
  · rw [frame.narrowings, frame.initial]
    exact formed.children
  · rw [frame.initial, long]
    exact formed.long
  · rw [frame.initial]
    exact formed.word
  · rw [long, frame.initial]
    exact conserved

/-- What is taken leaves the tree well formed: the cells and the totals move together. -/
theorem Formed.takes {tree after : BudgetTree} (formed : tree.Formed) {pool : Pool}
    {via : List Nat} {amount : Nat} (sound : tree.Sound pool via)
    (takes : Takes tree after pool via amount) : after.Formed := by
  refine formed.of_frame takes.frame (by rw [takes.cells, PoolCells.length_shift]) ?_ ?_
  · intro holding member
    rcases takes.holdings holding member with ⟨same, same'⟩ | ⟨other, before, same, same'⟩
    · rw [same, same']
      exact sound
    · rw [same, same']
      exact formed.holdings other before
  · intro cell inside
    have conserved := formed.conserved cell inside
    rw [takes.cells, PoolCells.getD_shift _ _ _ _ sound.once sound.inside, throughCell, takes.total,
      ← throughCell]
    by_cases member : cell ∈ pool.path
    · have covered := takes.covered cell member
      rw [if_pos member, if_pos (decide_eq_true member)]
      omega
    · rw [if_neg member, if_neg (by rwa [decide_eq_true_eq])]
      exact conserved

/-- So does what is given back. -/
theorem Formed.gives {tree after : BudgetTree} (formed : tree.Formed) {pool : Pool}
    {via : List Nat} {amount : Nat} (sound : tree.Sound pool via)
    (gives : Gives tree after pool via amount) : after.Formed := by
  refine formed.of_frame gives.frame (by rw [gives.cells, PoolCells.length_shift]) ?_ ?_
  · intro holding member
    obtain ⟨other, before, same, same'⟩ := gives.holdings holding member
    rw [same, same']
    exact formed.holdings other before
  · intro cell inside
    have conserved := formed.conserved cell inside
    have word := formed.word cell
    have moved := gives.total fun pool _ => decide (cell ∈ pool.path)
    rw [gives.cells, PoolCells.getD_shift _ _ _ _ sound.once sound.inside]
    rw [← throughCell, ← throughCell] at moved
    rw [wordMax] at word
    by_cases member : cell ∈ pool.path
    · rw [if_pos (decide_eq_true member)] at moved
      rw [if_pos member, Nat.mod_eq_of_lt (by omega)]
      omega
    · rw [if_neg (by rwa [decide_eq_true_eq])] at moved
      rw [if_neg member]
      omega

/-- A total that counts no holding is nothing. -/
theorem total_eq_zero (tree : BudgetTree) (counts : Pool → List Nat → Bool)
    (none : ∀ holding ∈ tree.holdings, counts holding.reservation.pool holding.via = false) :
    tree.total counts = 0 := by
  rw [total, List.sum_eq_zero]
  intro amount member
  obtain ⟨holding, there, rfl⟩ := List.mem_map.mp member
  rw [none holding there]
  rfl

/-- A tree with some more cells, a handle and perhaps a narrowing. -/
structure Grows (tree after : BudgetTree) (more : List Nat) (handle : Handle)
    (further : List Narrowing) : Prop where
  cells : after.cells = tree.cells ++ more
  initial : after.initial = tree.initial ++ more
  handles : after.handles = tree.handles ++ [handle]
  narrowings : after.narrowings = tree.narrowings ++ further
  holdings : after.holdings = tree.holdings

/-- A tree that grows holds what it held. -/
theorem Grows.total {tree after : BudgetTree} {more : List Nat} {handle : Handle}
    {further : List Narrowing} (grows : Grows tree after more handle further)
    (counts : Pool → List Nat → Bool) : after.total counts = tree.total counts := by
  rw [BudgetTree.total, BudgetTree.total, grows.holdings]

/-- A pool of the tree stands in the grown one. -/
theorem Grows.sound {tree after : BudgetTree} {more : List Nat} {handle : Handle}
    {further : List Narrowing} (grows : Grows tree after more handle further) {pool : Pool}
    {via : List Nat} (sound : tree.Sound pool via) : after.Sound pool via where
  once := sound.once
  inside := by
    intro cell member
    rw [grows.cells, List.length_append]
    exact (sound.inside cell member).trans_le (Nat.le_add_right _ _)
  through := by
    intro number member
    obtain ⟨narrowing, there, below⟩ := sound.through number member
    refine ⟨narrowing, ?_, below⟩
    rw [grows.narrowings, List.getElem?_append_left (List.getElem?_eq_some_iff.mp there).1]
    exact there

/-- A tree that grows by cells, a handle and narrowings that stand in it stays well formed. -/
theorem Formed.grows {tree after : BudgetTree} (formed : tree.Formed) {more : List Nat}
    {handle : Handle} {further : List Narrowing} (grows : Grows tree after more handle further)
    (word : ∀ amount ∈ more, amount ≤ wordMax) (sound : after.Sound handle.pool handle.via)
    (answered : ∀ (number : Nat) (narrowing : Narrowing), further[number]? = some narrowing →
      narrowing.handle = tree.handles.length ∧ narrowing.pool = handle.pool ∧
        tree.narrowings.length + number ∈ handle.via)
    (children : ∀ narrowing ∈ further, narrowing.same = false →
      ∃ own ∈ narrowing.pool.path, after.initial.getD own 0 = narrowing.limit) : after.Formed := by
  have old : ∀ {cell}, cell < tree.cells.length →
      after.initial.getD cell 0 = tree.initial.getD cell 0 := by
    intro cell inside
    rw [grows.initial, List.getD_append _ _ _ _ (formed.long ▸ inside)]
  have numbered : ∀ (number : Nat) (narrowing : Narrowing),
      after.narrowings[number]? = some narrowing →
        tree.narrowings[number]? = some narrowing ∨
          ∃ place, number = tree.narrowings.length + place ∧ further[place]? = some narrowing := by
    intro number narrowing there
    rw [grows.narrowings] at there
    rcases Nat.lt_or_ge number tree.narrowings.length with before | behind
    · rw [List.getElem?_append_left before] at there
      exact .inl there
    · rw [List.getElem?_append_right behind] at there
      exact .inr ⟨_, (Nat.add_sub_cancel' behind).symm, there⟩
  constructor
  · rw [grows.handles]
    intro other member
    rcases List.mem_append.mp member with before | last
    · exact grows.sound (formed.handles other before)
    · rw [List.mem_singleton.mp last]
      exact sound
  · rw [grows.holdings]
    exact fun holding member => grows.sound (formed.holdings holding member)
  · intro number narrowing there
    rcases numbered number narrowing there with before | ⟨place, rfl, last⟩
    · obtain ⟨via, stands, through⟩ := formed.answered number narrowing before
      refine ⟨via, ?_, through⟩
      rw [grows.handles, List.getElem?_append_left (List.getElem?_eq_some_iff.mp stands).1]
      exact stands
    · obtain ⟨placed, pool, through⟩ := answered place narrowing last
      refine ⟨handle.via, ?_, through⟩
      rw [grows.handles, placed, List.getElem?_append_right (Nat.le_refl _), Nat.sub_self, pool]
      rfl
  · intro number narrowing there child
    rcases numbered number narrowing there with before | ⟨place, rfl, last⟩
    · obtain ⟨own, member, began⟩ := formed.children number narrowing before child
      obtain ⟨via, stands, _⟩ := formed.answered number narrowing before
      have inside := (formed.handles _ (List.mem_of_getElem? stands)).inside own member
      exact ⟨own, member, by rw [old inside]; exact began⟩
    · exact children narrowing (List.mem_of_getElem? last) child
  · rw [grows.initial, grows.cells, List.length_append, List.length_append, formed.long]
  · intro cell
    rw [grows.initial]
    rcases Nat.lt_or_ge cell tree.initial.length with before | behind
    · rw [List.getD_append _ _ _ _ before]
      exact formed.word cell
    · rw [List.getD_append_right _ _ _ _ behind, List.getD_eq_getElem?_getD]
      cases there : more[cell - tree.initial.length]? with
      | none => exact Nat.zero_le _
      | some amount => exact word amount (List.mem_of_getElem? there)
  · intro cell inside
    rw [throughCell, grows.total]
    rcases Nat.lt_or_ge cell tree.cells.length with before | behind
    · rw [grows.cells, List.getD_append _ _ _ _ before, old before]
      exact formed.conserved cell before
    · have unused : tree.total (fun pool _ => decide (cell ∈ pool.path)) = 0 := by
        refine tree.total_eq_zero _ fun holding member => ?_
        rw [decide_eq_false_iff_not]
        intro along
        have within := (formed.holdings holding member).inside cell along
        omega
      rw [unused, grows.cells, grows.initial, List.getD_append_right _ _ _ _ behind,
        List.getD_append_right _ _ _ _ (formed.long ▸ behind), formed.long, Nat.add_zero]

/-- Minting a budget grows the tree by one cell. -/
theorem mint_grows (tree : BudgetTree) (amount : UInt64) :
    Grows tree (tree.perform (.mint amount)).1 [amount.toNat] ⟨⟨[tree.cells.length]⟩, []⟩ [] :=
  ⟨rfl, rfl, rfl, (List.append_nil _).symm, rfl⟩

/-- An amount of sixty-four bits is a word. -/
theorem word_of_uint64 (amount : UInt64) : amount.toNat ≤ wordMax := by
  have small := amount.toNat_lt
  rw [wordMax]
  omega

/-- Minting keeps the tree well formed. -/
theorem Formed.mint {tree : BudgetTree} (formed : tree.Formed) (amount : UInt64) :
    (tree.perform (.mint amount)).1.Formed := by
  have grows := mint_grows tree amount
  refine formed.grows grows ?_ ⟨List.nodup_singleton _, ?_, nofun⟩ nofun nofun
  · intro other member
    rw [List.mem_singleton.mp member]
    exact word_of_uint64 amount
  · intro cell member
    rw [List.mem_singleton.mp member, grows.cells, List.length_append]
    exact Nat.lt_succ_self _

/-- Narrowing answers the very same pool, or a child with one more cell. -/
theorem narrow_cases (tree : BudgetTree) (handle : Handle) (limit : Nat) :
    (handle.pool.remaining tree.cells ≤ limit ∧
      Grows tree (tree.narrow handle limit) []
        ⟨handle.pool, tree.narrowings.length :: handle.via⟩
        [⟨tree.handles.length, handle.pool, limit, true⟩]) ∨
      Grows tree (tree.narrow handle limit) [limit]
        ⟨⟨tree.cells.length :: handle.pool.path⟩, tree.narrowings.length :: handle.via⟩
        [⟨tree.handles.length, ⟨tree.cells.length :: handle.pool.path⟩, limit, false⟩] := by
  by_cases enough : handle.pool.remaining tree.cells ≤ limit
  · refine .inl ⟨enough, ?_⟩
    constructor <;> simp [narrow, Pool.narrowed, enough]
  · have other : (⟨tree.cells.length :: handle.pool.path⟩ : Pool) ≠ handle.pool := by
      intro same
      have long := congrArg (fun pool : Pool => pool.path.length) same
      simp at long
    refine .inr ?_
    constructor <;> simp [narrow, Pool.narrowed, enough, other]

/-- Narrowing keeps it well formed, whether it makes a child or hands back the same pool. -/
theorem Formed.narrow {tree : BudgetTree} (formed : tree.Formed) (handle : Handle)
    (there : handle ∈ tree.handles) (limit : UInt64) : (tree.narrow handle limit.toNat).Formed := by
  have sound := formed.handles handle there
  rcases tree.narrow_cases handle limit.toNat with ⟨_, grows⟩ | grows
  · refine formed.grows grows nofun ?_ ?_ ?_
    · have kept := grows.sound sound
      refine ⟨kept.once, kept.inside, ?_⟩
      intro number member
      rcases List.mem_cons.mp member with rfl | before
      · refine ⟨⟨tree.handles.length, handle.pool, limit.toNat, true⟩, ?_, List.Subset.refl _⟩
        rw [grows.narrowings, List.getElem?_concat_length]
      · exact kept.through number before
    · intro number narrowing last
      cases number with
      | zero =>
        cases last
        exact ⟨rfl, rfl, List.mem_cons_self⟩
      | succ => cases last
    · intro narrowing member child
      rw [List.mem_singleton.mp member] at child
      cases child
  · have began : (tree.narrow handle limit.toNat).initial.getD tree.cells.length 0 = limit.toNat := by
      rw [grows.initial, List.getD_append_right _ _ _ _ (Nat.le_of_eq formed.long), formed.long,
        Nat.sub_self]
      rfl
    refine formed.grows grows ?_ ?_ ?_ ?_
    · intro other member
      rw [List.mem_singleton.mp member]
      exact word_of_uint64 limit
    · have kept := grows.sound sound
      refine ⟨List.nodup_cons.mpr ⟨?_, sound.once⟩, ?_, ?_⟩
      · intro member
        exact absurd (sound.inside _ member) (Nat.lt_irrefl _)
      · rw [List.forall_mem_cons]
        refine ⟨?_, kept.inside⟩
        rw [grows.cells, List.length_append]
        exact Nat.lt_succ_self _
      · intro number member
        rcases List.mem_cons.mp member with rfl | before
        · refine ⟨⟨tree.handles.length, ⟨tree.cells.length :: handle.pool.path⟩, limit.toNat, false⟩,
            ?_, List.Subset.refl _⟩
          rw [grows.narrowings, List.getElem?_concat_length]
        · obtain ⟨narrowing, stands, below⟩ := kept.through number before
          exact ⟨narrowing, stands, fun cell inside => List.mem_cons_of_mem _ (below inside)⟩
    · intro number narrowing last
      cases number with
      | zero =>
        cases last
        exact ⟨rfl, rfl, List.mem_cons_self⟩
      | succ => cases last
    · intro narrowing member _
      rw [List.mem_singleton.mp member]
      exact ⟨_, List.mem_cons_self, began⟩

/-- Every step keeps it well formed. -/
theorem Formed.perform {tree : BudgetTree} (formed : tree.Formed) (step : BudgetStep) :
    (tree.perform step).1.Formed := by
  rcases perform_cases formed step with same | ⟨amount, rfl⟩ | ⟨handle, limit, there, same⟩ |
    ⟨pool, via, amount, sound, takes, _⟩ | ⟨pool, via, amount, sound, gives, _⟩
  · rw [same]
    exact formed
  · exact formed.mint amount
  · rw [same]
    exact formed.narrow handle there limit
  · exact formed.takes sound takes
  · exact formed.gives sound gives

/-- Every tree that steps build is formed. -/
theorem formed_after (steps : List BudgetStep) : (after steps).Formed := by
  induction steps using List.reverseRecOn with
  | nil => exact Formed.empty
  | append_singleton steps step ih =>
    rw [after_concat]
    exact ih.perform step

/-- What is outstanding through a cell was taken through a narrowing or is held by others. -/
theorem Formed.through_split {tree : BudgetTree} (formed : tree.Formed) {number cell : Nat}
    {narrowing : Narrowing} (there : tree.narrowings[number]? = some narrowing)
    (along : cell ∈ narrowing.pool.path) :
    tree.throughCell cell = tree.throughNarrowing number + tree.heldByOthers cell number := by
  have below : ∀ holding ∈ tree.holdings, number ∈ holding.via →
      cell ∈ holding.reservation.pool.path := by
    intro holding member through
    obtain ⟨other, stands, within⟩ := (formed.holdings holding member).through number through
    rw [there, Option.some.injEq] at stands
    subst stands
    exact within along
  rw [throughCell, throughNarrowing, heldByOthers, total, total, total, ← List.sum_map_add]
  refine congrArg List.sum (List.map_congr_left fun holding member => ?_)
  by_cases through : number ∈ holding.via
  · simp [through, below holding member through]
  · simp [through]

/-- A narrowing's cells are cells there are, and within what it began with is outstanding. -/
theorem Formed.through_le {tree : BudgetTree} (formed : tree.Formed) {number cell : Nat}
    {narrowing : Narrowing} (there : tree.narrowings[number]? = some narrowing)
    (along : cell ∈ narrowing.pool.path) :
    tree.cells.getD cell 0 + (tree.throughNarrowing number + tree.heldByOthers cell number) =
      tree.initial.getD cell 0 := by
  obtain ⟨via, stands, _⟩ := formed.answered number narrowing there
  have inside := (formed.handles _ (List.mem_of_getElem? stands)).inside cell along
  rw [← formed.through_split there along]
  exact formed.conserved cell inside

/-- While a narrowing is entitled to no more than its limit, no more is outstanding through it. -/
theorem Formed.bounded_of_entitled {tree : BudgetTree} (formed : tree.Formed) {number : Nat}
    {narrowing : Narrowing} (there : tree.narrowings[number]? = some narrowing)
    (entitled : tree.Entitled number narrowing) :
    tree.throughNarrowing number ≤ narrowing.limit := by
  obtain ⟨cell, along, enough⟩ := entitled
  have conserved := formed.through_le there along
  omega

/-- A child begins with its limit, so no more than that is ever outstanding through it. -/
theorem Formed.bounded_of_child {tree : BudgetTree} (formed : tree.Formed) {number : Nat}
    {narrowing : Narrowing} (there : tree.narrowings[number]? = some narrowing)
    (child : narrowing.same = false) : tree.throughNarrowing number ≤ narrowing.limit := by
  obtain ⟨own, along, began⟩ := formed.children number narrowing there child
  have conserved := formed.through_le there along
  omega

/-- Through every narrowing no more than its limit is outstanding. -/
def Bounded (tree : BudgetTree) : Prop :=
  ∀ (number : Nat) (narrowing : Narrowing), tree.narrowings[number]? = some narrowing →
    tree.throughNarrowing number ≤ narrowing.limit

/-- Where every narrowing that handed back its own pool is entitled to no more than its limit, the
limits bound what is outstanding through them. -/
theorem Formed.bounded {tree : BudgetTree} (formed : tree.Formed) (all : tree.AllEntitled) :
    tree.Bounded := by
  intro number narrowing there
  cases same : narrowing.same with
  | true => exact formed.bounded_of_entitled there (all number narrowing there same)
  | false => exact formed.bounded_of_child there same

/-- A number that no narrowing has yet is no handle's or holding's. -/
theorem Formed.through_fresh {tree : BudgetTree} (formed : tree.Formed) {number : Nat}
    (fresh : tree.narrowings.length ≤ number) : tree.throughNarrowing number = 0 := by
  refine tree.total_eq_zero _ fun holding member => ?_
  rw [decide_eq_false_iff_not]
  intro through
  obtain ⟨narrowing, there, _⟩ := (formed.holdings holding member).through number through
  have before := (List.getElem?_eq_some_iff.mp there).1
  omega

/-- A tree that grows stays bounded: a new cell holds nothing yet. -/
theorem Formed.bounded_grows {tree after : BudgetTree} (formed : tree.Formed)
    (bounded : tree.Bounded) {more : List Nat} {handle : Handle} {further : List Narrowing}
    (grows : Grows tree after more handle further) : after.Bounded := by
  intro number narrowing there
  rw [throughNarrowing, grows.total, ← throughNarrowing]
  rw [grows.narrowings] at there
  rcases Nat.lt_or_ge number tree.narrowings.length with before | fresh
  · rw [List.getElem?_append_left before] at there
    exact bounded number narrowing there
  · rw [formed.through_fresh fresh]
    exact Nat.zero_le _

/-- A take that every cell covered leaves room in the cell that bounds the narrowing. -/
theorem Formed.bounded_takes {tree after : BudgetTree} (formed : tree.Formed)
    (all : tree.AllEntitled) {pool : Pool} {via : List Nat} {amount : Nat}
    (sound : tree.Sound pool via) (takes : Takes tree after pool via amount) : after.Bounded := by
  intro number narrowing there
  cases same : narrowing.same with
  | false => exact (formed.takes sound takes).bounded_of_child there same
  | true =>
    rw [takes.frame.narrowings] at there
    have bounded := formed.bounded all number narrowing there
    rw [throughNarrowing, takes.total, ← throughNarrowing]
    by_cases through : number ∈ via
    · obtain ⟨other, stands, within⟩ := sound.through number through
      rw [there, Option.some.injEq] at stands
      subst stands
      obtain ⟨cell, along, enough⟩ := all number narrowing there same
      have covered := takes.covered cell (within along)
      have conserved := formed.through_le there along
      rw [if_pos (decide_eq_true through)]
      omega
    · rw [if_neg (by rwa [decide_eq_true_eq])]
      exact bounded

/-- Giving back keeps it bounded. -/
theorem bounded_gives {tree after : BudgetTree} (bounded : tree.Bounded) {pool : Pool}
    {via : List Nat} {amount : Nat} (gives : Gives tree after pool via amount) : after.Bounded := by
  intro number narrowing there
  rw [gives.frame.narrowings] at there
  have before := bounded number narrowing there
  have moved := gives.total fun _ via => decide (number ∈ via)
  rw [← throughNarrowing, ← throughNarrowing] at moved
  omega

/-- One step from a tree whose narrowings are entitled exceeds no limit. -/
theorem Formed.bounded_perform {tree : BudgetTree} (formed : tree.Formed) (all : tree.AllEntitled)
    (step : BudgetStep) : (tree.perform step).1.Bounded := by
  have bounded := formed.bounded all
  rcases perform_cases formed step with same | ⟨amount, rfl⟩ | ⟨handle, limit, there, same⟩ |
    ⟨pool, via, amount, sound, takes, _⟩ | ⟨pool, via, amount, sound, gives, _⟩
  · rw [same]
    exact bounded
  · exact formed.bounded_grows bounded (tree.mint_grows amount)
  · rw [same]
    rcases tree.narrow_cases handle limit.toNat with ⟨_, grows⟩ | grows
    · exact formed.bounded_grows bounded grows
    · exact formed.bounded_grows bounded grows
  · exact formed.bounded_takes all sound takes
  · exact bounded_gives bounded gives

/-- A step that is not granted leaves every cell as it was. -/
theorem Formed.refused {tree : BudgetTree} (formed : tree.Formed) (step : BudgetStep)
    (refused : (tree.perform step).2 = false) : (tree.perform step).1.cells = tree.cells := by
  rcases perform_cases formed step with same | ⟨amount, rfl⟩ | ⟨handle, limit, _, same⟩ |
    ⟨_, _, _, _, _, granted⟩ | ⟨_, _, _, _, _, granted⟩
  · rw [same]
  · cases refused
  · rw [same] at refused
    cases refused
  · rw [granted] at refused
    cases refused
  · rw [granted] at refused
    cases refused

/-- What a narrowed budget is for: no more than its limit is outstanding through it, nothing is
lost or minted in any cell, and what is refused changes nothing. -/
structure Keeps (tree : BudgetTree) : Prop where
  bounded : tree.Bounded
  conserved : ∀ cell < tree.cells.length,
    tree.cells.getD cell 0 + tree.throughCell cell = tree.initial.getD cell 0
  refused : ∀ next, (tree.perform next).2 = false → (tree.perform next).1.cells = tree.cells

/-- Where a narrowing handed back a pool that no cell holds to its limit, one draw exceeds it. -/
theorem Formed.exceeds {tree : BudgetTree} (formed : tree.Formed) {number : Nat}
    {narrowing : Narrowing} (there : tree.narrowings[number]? = some narrowing)
    (loose : ¬tree.Entitled number narrowing) :
    ¬(tree.perform (.draw narrowing.handle
      (narrowing.limit + 1 - tree.throughNarrowing number))).1.Bounded := by
  obtain ⟨via, stands, through⟩ := formed.answered number narrowing there
  have sound := formed.handles _ (List.mem_of_getElem? stands)
  have covered : ∀ cell ∈ narrowing.pool.path,
      narrowing.limit + 1 - tree.throughNarrowing number ≤ tree.cells.getD cell 0 := by
    intro cell along
    have conserved := formed.through_le there along
    have more : narrowing.limit + tree.heldByOthers cell number < tree.initial.getD cell 0 :=
      Nat.lt_of_not_le fun enough => loose ⟨cell, along, enough⟩
    omega
  intro bounded
  have exceeded := bounded number narrowing (by
    simp only [BudgetTree.perform, stands, formed.try_take sound, if_pos covered, begin_]
    exact there)
  simp only [BudgetTree.perform, stands, formed.try_take sound, if_pos covered] at exceeded
  rw [throughNarrowing, total_begin, if_pos (decide_eq_true through), ← throughNarrowing] at exceeded
  simp only [Holding.outstanding] at exceeded
  omega

/-- In a run, every step from every state keeps what a narrowed budget is for exactly when in every
state others hold enough of some cell along each pool that narrowing handed back as it was. -/
theorem keeps_iff_entitled (steps : List BudgetStep) :
    (∀ front, front <+: steps → ∀ next, (after (front ++ [next])).Keeps) ↔
      ∀ front, front <+: steps → (after front).AllEntitled := by
  constructor
  · intro keeps front before number narrowing there _
    by_contra loose
    refine (formed_after front).exceeds there loose ?_
    rw [← after_concat]
    exact (keeps front before _).bounded
  · intro all front before next
    have formed := formed_after (front ++ [next])
    refine ⟨?_, formed.conserved, formed.refused⟩
    rw [after_concat]
    exact (formed_after front).bounded_perform (all front before) next

/-- Eight of ten bytes are reserved, five are allowed while two are left, the reservation ends, and
all ten are drawn of the five. -/
theorem narrowed_while_held_exceeded :
    ¬(after [.mint 10, .reserve 0 8, .narrow 0 5, .drop 0, .draw 1 10]).Keeps := by
  intro keeps
  have bounded := keeps.bounded 0 ⟨1, ⟨[0]⟩, 5, true⟩ (by decide)
  revert bounded
  decide

/-- Narrowing the pool of a context is one step, and so is minting one. -/
theorem limited_eq_narrow (tree : BudgetTree) (place : Nat) (handle : Handle) (limit : UInt64)
    (there : tree.handles[place]? = some handle) :
    IssueContext.limited tree.cells (some handle.pool) limit.toNat =
      ((tree.perform (.narrow place limit)).1.cells, (handle.pool.narrowed tree.cells limit.toNat).2) ∧
    (tree.perform (.narrow place limit)).1.handles =
      tree.handles ++ [⟨(handle.pool.narrowed tree.cells limit.toNat).2,
        tree.narrowings.length :: handle.via⟩] := by
  simp only [BudgetTree.perform, there, narrow, IssueContext.limited, and_self]

/-- A run admitted under no pool gets one that is minted for it. -/
theorem limited_eq_mint (tree : BudgetTree) (amount : UInt64) :
    IssueContext.limited tree.cells none amount.toNat =
      ((tree.perform (.mint amount)).1.cells, ⟨[tree.cells.length]⟩) := rfl

/-- A holding dropped gives back to its own pool what it still held. -/
theorem Formed.drop_followed {tree : BudgetTree} (formed : tree.Formed) {place : Nat}
    {holding : Holding} (held : tree.holdings[place]? = some holding) :
    (tree.following [.drop place]).cells =
      holding.reservation.pool.giveBack tree.cells holding.reservation.bytes := by
  simp only [following, List.foldl_cons, List.foldl_nil, BudgetTree.perform, held, hold]
  exact formed.drop_eq (formed.holdings _ (List.mem_of_getElem? held))

/-- Reading on from a state of a collect is growing what it holds, chunk by chunk, and keeping or
dropping that at the end. -/
theorem Formed.drain_followed {tree : BudgetTree} (formed : tree.Formed) {place : Nat}
    {pool : Pool} {via : List Nat} {drawn : Nat}
    (held : tree.holdings[place]? = some ⟨via, ⟨pool, drawn⟩, 0⟩)
    (chunks : List (Except Error (List UInt8))) (buffer : List UInt8) :
    ∃ steps, (tree.following steps).cells =
      match Body.drainWithin pool chunks drawn buffer tree.cells with
      | (after, _, .ok _) => after
      | (after, drawn, .error _) => pool.giveBack after drawn := by
  induction chunks generalizing tree drawn buffer with
  | nil => exact ⟨[], rfl⟩
  | cons chunk chunks ih =>
    cases chunk with
    | error failure => exact ⟨[.drop place], formed.drop_followed held⟩
    | ok chunk =>
      have sound := formed.holdings _ (List.mem_of_getElem? held)
      rw [Body.drainWithin, formed.try_take sound]
      by_cases covered : ∀ cell ∈ pool.path, chunk.length ≤ tree.cells.getD cell 0
      · -- the chunk is drawn, and the rest is read from the grown state
        have grown : (tree.perform (.grow place chunk.length)).1 =
            tree.hold (tree.cells.shift pool.path (· - chunk.length)) place
              ⟨via, ⟨pool, drawn + chunk.length⟩, 0⟩ := by
          simp only [BudgetTree.perform, held, Reservation.tryGrow, formed.try_take sound,
            if_pos covered, if_true]
        have formed' := formed.perform (.grow place chunk.length)
        rw [grown] at formed'
        have held' : (tree.hold (tree.cells.shift pool.path (· - chunk.length)) place
            ⟨via, ⟨pool, drawn + chunk.length⟩, 0⟩).holdings[place]? =
              some ⟨via, ⟨pool, drawn + chunk.length⟩, 0⟩ :=
          List.getElem?_set_self (List.getElem?_eq_some_iff.mp held).1
        obtain ⟨steps, same⟩ := ih formed' held' (buffer ++ chunk)
        refine ⟨.grow place chunk.length :: steps, ?_⟩
        rw [if_pos covered, following, List.foldl_cons, grown]
        exact same
      · refine ⟨[.drop place], ?_⟩
        rw [if_neg covered]
        exact formed.drop_followed held

/-- A collect under a budget changes cells as some steps through its handle do. -/
theorem Formed.collect_followed {tree : BudgetTree} (formed : tree.Formed) {place : Nat}
    {handle : Handle} (there : tree.handles[place]? = some handle)
    (body : Body) (chunks : List (Except Error (List UInt8))) :
    ∃ steps, (tree.following steps).cells =
      (body.collectWithin tree.cells chunks handle.pool).1 := by
  have begun : (tree.perform (.collect place)).1 =
      tree.begin_ tree.cells ⟨handle.via, ⟨handle.pool, 0⟩, 0⟩ := by
    simp only [BudgetTree.perform, there]
  have formed' := formed.perform (.collect place)
  rw [begun] at formed'
  obtain ⟨steps, same⟩ := formed'.drain_followed List.getElem?_concat_length chunks []
  have collected : ∃ steps, (tree.following steps).cells =
      (Body.collectWithin.collect tree.cells chunks handle.pool).1 := by
    refine ⟨.collect place :: steps, ?_⟩
    rw [following, List.foldl_cons, begun, Body.collectWithin.collect]
    refine same.trans ?_
    simp only [begin_]
    rcases drained : Body.drainWithin handle.pool chunks 0 [] tree.cells with ⟨after, drawn, read⟩
    cases read <;> rfl
  cases body with
  | bytes _ => exact ⟨[], rfl⟩
  | replay _ length =>
    cases length with
    | none => exact collected
    | some length =>
      simp only [Body.collectWithin]
      split
      · exact ⟨[], rfl⟩
      · exact collected
  | once _ => exact collected

end BudgetTree

end Ikigai
