import Ikigai.EndpointWrappers
import Ikigai.IssuePath
import Ikigai.NamedRequests
import Ikigai.SettledReferences

/-!
# Attached bodies

A body rides with a run under a content id. An endpoint that declares an argument a body reader
reads it there; for every other argument that carries the id the kernel collects it before the
request's identity is taken, and hands the bytes over as if they had been given inline. The run is
admitted for the collecting and again for the endpoint, and between the two the others that share
its pools draw from them and give back.
-/

namespace Ikigai

/-- What reading a stream comes to: its chunks, each with what others did to the pools before it
came, and what they did before the end. -/
structure StreamReading where
  chunks : List ((PoolCells → PoolCells) × Except Error (List UInt8))
  ended : PoolCells → PoolCells

namespace Body

/-- The loop that reads a stream into memory, with others at the pools. -/
def drainBeside (budget : Pool) (ended : PoolCells → PoolCells) :
    List ((PoolCells → PoolCells) × Except Error (List UInt8)) → Nat → List UInt8 → PoolCells →
      PoolCells × Nat × Except Error (List UInt8)
  | [], drawn, buffer, cells => (ended cells, drawn, .ok buffer)
  | (others, .error failure) :: _, drawn, _, cells => (others cells, drawn, .error failure)
  | (others, .ok chunk) :: rest, drawn, buffer, cells =>
    let taken := budget.tryTake (others cells) chunk.length
    if taken.2 then
      drainBeside budget ended rest (drawn + chunk.length) (buffer ++ chunk) taken.1
    else (taken.1, drawn,
      .error (overCollect (buffer.length + chunk.length) (budget.remaining taken.1)))

/-- Read a stream, and give back what was drawn when that fails. -/
def collectStream (cells : PoolCells) (reading : StreamReading) (budget : Pool) :
    PoolCells × Except Error (List UInt8) :=
  match drainBeside budget reading.ended reading.chunks 0 [] cells with
  | (after, _, .ok buffer) => (after, .ok buffer)
  | (after, drawn, .error failure) => (budget.giveBack after drawn, .error failure)

/-- `collect_within`, of a body and what reading it comes to. -/
def collectBeside (cells : PoolCells) (body : Body) (reading : StreamReading) (budget : Pool) :
    PoolCells × Except Error (List UInt8) :=
  match body with
  | .bytes data => (cells, .ok data)
  | .replay _ (some length) =>
    if budget.remaining cells < length then
      (cells, .error (overCollect length (budget.remaining cells)))
    else collectStream cells reading budget
  | .replay _ none | .once _ => collectStream cells reading budget

/-- Where the others are idle, a stream is read as it is alone. -/
theorem drain_beside_idle (budget : Pool) (chunks : List (Except Error (List UInt8)))
    (drawn : Nat) (buffer : List UInt8) (cells : PoolCells) :
    drainBeside budget id (chunks.map fun chunk => (id, chunk)) drawn buffer cells =
      drainWithin budget chunks drawn buffer cells := by
  induction chunks generalizing drawn buffer cells with
  | nil => rfl
  | cons chunk rest ih =>
    cases chunk with
    | error failure => rfl
    | ok chunk =>
      rw [List.map_cons, drainBeside, drainWithin, id, ih]

end Body

/-- A run with the id of the body attached to it, if one is. -/
structure AttachedRun where
  context : IssueContext
  attached : Option (List UInt8)
deriving DecidableEq, Repr

/-- The state beside a kernel's: the attached body, until a one-shot one is read; the pools; and
the rest. -/
structure AttachState (ω : Type) where
  slot : Option Body
  cells : PoolCells
  rest : ω

/-- What reading a body comes to. -/
abbrev World (ω : Type) := Body → ω → StreamReading × ω

/-- What a capability is entitled to: retries, where the kernel has a retry policy, and bytes. -/
structure Entitlement where
  retries : Option Nat
  bytes : Nat
deriving DecidableEq, Repr

namespace AttachedRun

def admitted (entitled : Entitlement) (cells : PoolCells) (run : AttachedRun) :
    PoolCells × AttachedRun :=
  let context := run.context.admitted cells entitled.retries entitled.bytes
  (context.1, { run with context := context.2 })

def withoutAttached (run : AttachedRun) : AttachedRun := { run with attached := none }

end AttachedRun

variable {ω : Type}

namespace AttachState

/-- `body_for`, of the attached id: another handle, or a one-shot body, which is taken. -/
def bodyFor (state : AttachState ω) : Option Body × AttachState ω :=
  match state.slot.bind Body.share with
  | some shared => (some shared, state)
  | none => (state.slot, { state with slot := none })

/-- Collect a body under a pool. -/
def collect (world : World ω) (budget : Pool) (body : Body) (state : AttachState ω) :
    Except Error (List UInt8) × AttachState ω :=
  match body with
  | .bytes data => (.ok data, state)
  | .replay _ _ | .once _ =>
    let read := world body state.rest
    let collected := body.collectBeside state.cells read.1 budget
    (collected.2, { state with cells := collected.1, rest := read.2 })

end AttachState

def readAlready (name : Text) (id : List UInt8) : Error :=
  .conflict ("argument `".toList ++ name ++ "` names one-shot content ".toList ++ contentText id ++
    ", already read once".toList)

/-- A refusal of the budget, naming the argument. -/
def collectedFor (name : Text) : Error → Error
  | .overBudget detail =>
    .overBudget ("argument `".toList ++ name ++
      ("` is not declared `reads_body`, so the kernel collected the body attached to " ++
        "it: ").toList ++ detail)
  | other => other

/-- Collect the body for some arguments, one after the other. -/
def collectFor (world : World ω) (budget : Pool) (id : List UInt8) :
    List Text → List (Text × ArgRef) → AttachState ω →
      Except Error (List (Text × ArgRef)) × AttachState ω
  | [], args, state => (.ok args, state)
  | name :: rest, args, state =>
    match state.bodyFor with
    | (none, state) => (.error (readAlready name id), state)
    | (some body, state) =>
      match state.collect world budget body with
      | (.error error, state) => (.error (collectedFor name error), state)
      | (.ok bytes, state) =>
        collectFor world budget id rest (EndpointObject.replaced args name bytes) state

/-- The arguments of a request that carry a content id. -/
def carrying (request : Request) (id : List UInt8) : List Text :=
  (request.args.filter fun arg => arg.2 = .content id).map Prod.fst

/-- Those of them that are not declared body readers. -/
def undeclared (request : Request) (id : List UInt8) (readers : Readers) : List Text :=
  (carrying request id).filter fun name => decide (name ∉ readers)

/-- The pool a run's bytes are drawn from, or a fresh one. -/
def AttachedRun.budget (cells : PoolCells) (run : AttachedRun) : PoolCells × Pool :=
  match run.context.memory with
  | some pool => (cells, pool)
  | none => Pool.new cells defaultStreamMemory

/-- `settle_attached`: the request and the run as they go on, and the names collected. -/
def settleAttached (world : World ω) (entitled : Entitlement) (request : Request)
    (run : AttachedRun) (readers : Readers) (state : AttachState ω) :
    Except Error (Request × AttachedRun × List Text) × AttachState ω :=
  match run.attached with
  | none => (.ok (request, run, []), state)
  | some id =>
    let undeclared := undeclared request id readers
    if undeclared.isEmpty then (.ok (request, run, []), state)
    else
      let admitted := run.admitted entitled state.cells
      let budget := admitted.2.budget admitted.1
      match collectFor world budget.2 id undeclared request.args { state with cells := budget.1 } with
      | (.error error, state) => (.error error, state)
      | (.ok args, state) =>
        (.ok ({ request with args := args },
          if undeclared.length = (carrying request id).length then admitted.2.withoutAttached
          else admitted.2, undeclared), state)

/-- `content_body`, of an argument that carries the attached id. -/
def readAttached (name : Text) (id : List UInt8) (state : AttachState ω) :
    Except Error Body × AttachState ω :=
  match state.bodyFor with
  | (some body, state) => (.ok body, state)
  | (none, state) => (.error (readAlready name id), state)

section Path

variable {σ π : Type} [Blake3] [RequestHash]

/-- A settled request, its identity taken of other arguments. -/
def Settled.given (call : Call σ) (settled : Settled σ) (request : Request) : Settled σ :=
  { settled with
    request := request
    key := ⟨RequestHash.id request, RequestHash.capabilityKey call.capability,
      call.scope.fingerprint⟩ }

/-- What an endpoint is entered with: a run, admitted. -/
structure Entering (σ : Type) [Blake3] (π ω : Type) where
  enter : AttachedRun → Call σ → Settled σ → IssueState π (AttachState ω) →
    Except Error Answer × IssueState π (AttachState ω)
  operate : Call σ → Text → Request → CacheKey → Nat → IssueState π (AttachState ω) →
    Except Error Answer × IssueState π (AttachState ω)

/-- The run is admitted where the cache has not answered. -/
def Entering.under (entering : Entering σ π ω) (entitled : Entitlement) (run : AttachedRun) :
    Runner σ π (AttachState ω) where
  enter call settled state :=
    let admitted := run.admitted entitled state.uncached.cells
    entering.enter admitted.2 call settled
      { state with uncached := { state.uncached with cells := admitted.1 } }
  operate := entering.operate

/-- What a request past its floor comes to: the attached body is settled, unless the endpoint
forwards, and then its identity is taken. -/
def dispatchedAttached (world : World ω) (entering : Entering σ π ω) (entitled : Entitlement)
    (call : Call σ) (run : AttachedRun) (readers : Readers) (forwards : Bool) (settled : Settled σ)
    (state : IssueState π (AttachState ω)) :
    Except Error Answer × IssueState π (AttachState ω) :=
  if forwards then
    Kernel.dispatched (entering.under entitled run) call (settled.given call settled.request) state
  else
    match settleAttached world entitled settled.request run readers state.uncached with
    | (.error error, attached) => (.error error, { state with uncached := attached })
    | (.ok (request, run, _), attached) =>
      Kernel.dispatched (entering.under entitled run) call (settled.given call request)
        { state with uncached := attached }

/-- What a run through views comes to: each is entered with the run admitted, and issues the
request it forwards under it. -/
def throughViews : List (ViewEndpoint × Entitlement) → Request → AttachedRun → PoolCells →
    Except Error (Request × AttachedRun) × PoolCells
  | [], request, run, cells => (.ok (request, run), cells)
  | (view, entitled) :: rest, request, run, cells =>
    let admitted := run.admitted entitled cells
    match view.forwarded request with
    | .error error => (.error error, admitted.1)
    | .ok request => throughViews rest request admitted.2 admitted.1

end Path

/-- Whether a description is an incremental transreptor's. -/
def Description.incremental (description : Description) : Bool :=
  match description.kind with
  | .endpoint => false
  | .transreptor transreption => transreption.incremental

/-- A contract declares an argument a body reader: as an input that reads a body, or as the content
of an incremental transreptor. -/
def Description.DeclaresReader (description : Description) (verb : Verb) (name : Text) : Prop :=
  ∃ spec, description.contractFor verb = some spec ∧
    ((∃ input ∈ spec.inputs, input.name = name ∧ input.readsBody = true ∧ input.source = .argument) ∨
      description.incremental = true ∧ spec.verb = .source ∧ name = "content".toList)

theorem mem_readers_of (incremental : Bool) (spec : ActionSpec) (name : Text) :
    name ∈ Floor.readersOf incremental spec ↔
      (∃ input ∈ spec.inputs, input.name = name ∧ input.readsBody = true ∧ input.source = .argument) ∨
        incremental = true ∧ spec.verb = .source ∧ name = "content".toList := by
  have declared : name ∈ (spec.inputs.filter fun input =>
        input.readsBody && input.source = .argument).map ArgSpec.name ↔
      ∃ input ∈ spec.inputs, input.name = name ∧ input.readsBody = true ∧ input.source = .argument := by
    simp only [List.mem_map, List.mem_filter, Bool.and_eq_true, decide_eq_true_eq]
    constructor
    · rintro ⟨input, ⟨among, reads⟩, named⟩
      exact ⟨input, among, named, reads⟩
    · rintro ⟨input, among, named, reads⟩
      exact ⟨input, ⟨among, reads⟩, named⟩
  rw [Floor.readersOf, ← declared]
  split
  · rename_i adds
    simp only [Bool.and_eq_true, decide_eq_true_eq] at adds
    rw [List.mem_append, List.mem_singleton]
    constructor
    · rintro (among | same)
      · exact .inl among
      · exact .inr ⟨adds.1.1, adds.1.2, same⟩
    · rintro (among | ⟨_, _, same⟩)
      · exact .inl among
      · exact .inr same
  · rename_i keeps
    constructor
    · exact .inl
    · rintro (among | ⟨yes, source, rfl⟩)
      · exact among
      · simp only [yes, source, decide_true, Bool.true_and, Bool.not_eq_true', Bool.not_eq_false,
          List.any_eq_true, beq_iff_eq] at keeps
        obtain ⟨other, among, rfl⟩ := keeps
        exact among

/-- The kernel takes for the body readers of a request those its endpoint's contract declares. -/
theorem mem_readers_iff (description : Description) (verb : Verb) (name : Text) :
    name ∈ Floor.readersFor (Floor.of description).bodyReaders verb ↔
      description.DeclaresReader verb name := by
  have table : Floor.readersFor (Floor.of description).bodyReaders verb =
      ((description.contractFor verb).map (Floor.readersOf description.incremental)).getD [] := by
    rw [← entry_for_verb_table]
    rfl
  rw [table, Description.DeclaresReader]
  cases description.contractFor verb with
  | none => simp
  | some spec =>
    rw [Option.map_some, Option.getD_some, mem_readers_of]
    simp

/-- A stream yields some bytes to a pool: each chunk comes, and is taken from the pool. -/
inductive Yields (budget : Pool) (ended : PoolCells → PoolCells) :
    List ((PoolCells → PoolCells) × Except Error (List UInt8)) → PoolCells → List UInt8 →
      PoolCells → Prop where
  | ended (cells : PoolCells) : Yields budget ended [] cells [] (ended cells)
  | chunk (others : PoolCells → PoolCells) (piece : List UInt8)
      (rest : List ((PoolCells → PoolCells) × Except Error (List UInt8)))
      (cells taken after : PoolCells) (later : List UInt8)
      (took : budget.tryTake (others cells) piece.length = (taken, true))
      (yields : Yields budget ended rest taken later after) :
      Yields budget ended ((others, .ok piece) :: rest) cells (piece ++ later) after

/-- What is in memory when a stream has ended is what it yielded. -/
theorem drain_yields {budget : Pool} {ended : PoolCells → PoolCells}
    {chunks : List ((PoolCells → PoolCells) × Except Error (List UInt8))} {drawn : Nat}
    {buffer : List UInt8} {cells after : PoolCells} {total : Nat} {bytes : List UInt8}
    (drained : Body.drainBeside budget ended chunks drawn buffer cells = (after, total, .ok bytes)) :
    ∃ more, bytes = buffer ++ more ∧ Yields budget ended chunks cells more after := by
  induction chunks generalizing drawn buffer cells with
  | nil =>
    cases drained
    exact ⟨[], (List.append_nil _).symm, .ended cells⟩
  | cons step rest ih =>
    obtain ⟨others, chunk⟩ := step
    cases chunk with
    | error failure => cases drained
    | ok piece =>
      rw [Body.drainBeside] at drained
      cases took : budget.tryTake (others cells) piece.length with
      | mk taken enough =>
        rw [took] at drained
        cases enough with
        | false => cases drained
        | true =>
          obtain ⟨more, rfl, yields⟩ := ih drained
          exact ⟨piece ++ more, by rw [List.append_assoc],
            .chunk others piece rest cells taken after more took yields⟩

theorem collect_stream_yields {budget : Pool} {reading : StreamReading} {cells after : PoolCells}
    {bytes : List UInt8} (collected : Body.collectStream cells reading budget = (after, .ok bytes)) :
    Yields budget reading.ended reading.chunks cells bytes after := by
  rw [Body.collectStream] at collected
  split at collected
  · rename_i drained
    cases collected
    obtain ⟨more, rfl, yields⟩ := drain_yields drained
    exact yields
  · cases collected

/-- A stream that is collected has yielded its bytes. -/
theorem collect_beside_yields {budget : Pool} {body : Body} {reading : StreamReading}
    {cells after : PoolCells} {bytes : List UInt8} (streamed : ∀ data, body ≠ .bytes data)
    (collected : body.collectBeside cells reading budget = (after, .ok bytes)) :
    Yields budget reading.ended reading.chunks cells bytes after := by
  cases body with
  | bytes data => exact absurd rfl (streamed data)
  | once object => exact collect_stream_yields collected
  | replay object length =>
    cases length with
    | none => exact collect_stream_yields collected
    | some length =>
      rw [Body.collectBeside] at collected
      split at collected
      · cases collected
      · exact collect_stream_yields collected

/-- The body's bytes come for some arguments, in order: those of a buffer as they are held, those of
a stream as it yields them to the pool, and a one-shot body is gone after it. -/
inductive Gathers (world : World ω) (budget : Pool) :
    List Text → AttachState ω → List (List UInt8) → AttachState ω → Prop where
  | none (state : AttachState ω) : Gathers world budget [] state [] state
  | held (name : Text) (rest : List Text) (data : List UInt8) (state after : AttachState ω)
      (more : List (List UInt8)) (slot : state.slot = some (.bytes data))
      (later : Gathers world budget rest state more after) :
      Gathers world budget (name :: rest) state (data :: more) after
  | replayed (name : Text) (rest : List Text) (object : Nat) (length : Option Nat)
      (bytes : List UInt8) (cells : PoolCells) (state after : AttachState ω)
      (more : List (List UInt8)) (slot : state.slot = some (.replay object length))
      (yields : Yields budget (world (.replay object length) state.rest).1.ended
        (world (.replay object length) state.rest).1.chunks state.cells bytes cells)
      (later : Gathers world budget rest { state with
        cells := cells, rest := (world (.replay object length) state.rest).2 } more after) :
      Gathers world budget (name :: rest) state (bytes :: more) after
  | taken (name : Text) (rest : List Text) (object : Nat) (bytes : List UInt8) (cells : PoolCells)
      (state after : AttachState ω) (more : List (List UInt8))
      (slot : state.slot = some (.once object))
      (yields : Yields budget (world (.once object) state.rest).1.ended
        (world (.once object) state.rest).1.chunks state.cells bytes cells)
      (later : Gathers world budget rest
        { slot := none, cells := cells, rest := (world (.once object) state.rest).2 } more after) :
      Gathers world budget (name :: rest) state (bytes :: more) after

/-- Arguments with the bytes that came for some of them. -/
def inlined (args : List (Text × ArgRef)) (values : List (Text × List UInt8)) :
    List (Text × ArgRef) :=
  values.foldl (fun args value => EndpointObject.replaced args value.1 value.2) args

/-- What is collected for some arguments is what comes for them. -/
theorem collect_for_gathers {world : World ω} {budget : Pool} {id : List UInt8}
    {names : List Text} {args done : List (Text × ArgRef)} {state after : AttachState ω}
    (collected : collectFor world budget id names args state = (.ok done, after)) :
    ∃ values, Gathers world budget names state values after ∧
      done = inlined args (names.zip values) := by
  induction names generalizing args state with
  | nil =>
    cases collected
    exact ⟨[], .none _, rfl⟩
  | cons name rest ih =>
    rw [collectFor, AttachState.bodyFor] at collected
    cases slot : state.slot with
    | none =>
      rw [slot] at collected
      cases collected
    | some body =>
      cases body with
      | bytes data =>
        simp only [slot, Option.bind_some, Body.share, AttachState.collect] at collected
        obtain ⟨more, later, rfl⟩ := ih collected
        exact ⟨data :: more, .held name rest data state after more slot later, rfl⟩
      | replay object length =>
        simp only [slot, Option.bind_some, Body.share, AttachState.collect] at collected
        cases came : Body.collectBeside state.cells (.replay object length)
            (world (.replay object length) state.rest).1 budget with
        | mk cells result =>
          rw [came] at collected
          cases result with
          | error error => cases collected
          | ok bytes =>
            obtain ⟨more, later, rfl⟩ := ih collected
            exact ⟨bytes :: more, .replayed name rest object length bytes cells state after more slot
              (collect_beside_yields (fun _ => Body.noConfusion) came) (by rw [slot]; exact later), rfl⟩
      | once object =>
        simp only [slot, Option.bind_some, Body.share, AttachState.collect] at collected
        cases came : Body.collectBeside state.cells (.once object)
            (world (.once object) state.rest).1 budget with
        | mk cells result =>
          rw [came] at collected
          cases result with
          | error error => cases collected
          | ok bytes =>
            obtain ⟨more, later, rfl⟩ := ih collected
            exact ⟨bytes :: more, .taken name rest object bytes cells state after more slot
              (collect_beside_yields (fun _ => Body.noConfusion) came) later, rfl⟩

theorem arg_named_replaced (args : List (Text × ArgRef)) (name : Text) (value : List UInt8)
    (other : Text) :
    argNamed (EndpointObject.replaced args name value) other =
      if other = name then (argNamed args other).map fun _ => .inline value
      else argNamed args other := by
  induction args with
  | nil => simp [EndpointObject.replaced, argNamed]
  | cons arg rest ih =>
    rw [EndpointObject.replaced, List.map_cons, ← EndpointObject.replaced, arg_named_cons,
      arg_named_cons, ih]
    by_cases own : arg.1 = name
    · rw [if_pos own]
      by_cases same : name = other
      · simp [same, own]
      · simp [same, own, Ne.symm same]
    · rw [if_neg own]
      by_cases same : arg.1 = other
      · have apart : other ≠ name := fun equal => own (same.trans equal)
        simp [same, apart]
      · simp [same]

/-- An argument that no bytes came for is as it was. -/
theorem arg_named_inlined_other (values : List (Text × List UInt8)) (args : List (Text × ArgRef))
    (name : Text) (absent : ∀ value ∈ values, value.1 ≠ name) :
    argNamed (inlined args values) name = argNamed args name := by
  induction values generalizing args with
  | nil => rfl
  | cons value rest ih =>
    rw [List.forall_mem_cons] at absent
    rw [inlined, List.foldl_cons, ← inlined, ih _ absent.2, arg_named_replaced,
      if_neg (Ne.symm absent.1)]

/-- An argument that bytes came for is some of them, given inline. -/
theorem arg_named_inlined (values : List (Text × List UInt8)) (args : List (Text × ArgRef))
    (name : Text) (given : (argNamed args name).isSome = true)
    (among : ∃ value ∈ values, value.1 = name) :
    ∃ bytes, (name, bytes) ∈ values ∧ argNamed (inlined args values) name = some (.inline bytes) := by
  induction values generalizing args with
  | nil =>
    obtain ⟨_, inside, _⟩ := among
    cases inside
  | cons value rest ih =>
    rw [inlined, List.foldl_cons, ← inlined]
    by_cases later : ∃ other ∈ rest, other.1 = name
    · obtain ⟨bytes, inside, found⟩ := ih (EndpointObject.replaced args value.1 value.2) (by
        rw [arg_named_replaced]
        split <;> simp [given]) later
      exact ⟨bytes, List.mem_cons_of_mem _ inside, found⟩
    · obtain ⟨own, inside, named⟩ := among
      rcases List.mem_cons.mp inside with rfl | further
      · obtain ⟨held, found⟩ := Option.isSome_iff_exists.mp given
        refine ⟨own.2, named ▸ List.mem_cons_self, ?_⟩
        rw [arg_named_inlined_other rest _ name fun other member same => later ⟨other, member, same⟩,
          arg_named_replaced, if_pos named.symm, found]
        rfl
      · exact absurd ⟨own, further, named⟩ later

/-- Limiting a pool leaves the cells there are. -/
theorem limited_grows (cells : PoolCells) (pool : Option Pool) (limit : Nat) :
    ∃ added, (IssueContext.limited cells pool limit).1 = cells ++ added := by
  cases pool with
  | none => exact ⟨[limit], rfl⟩
  | some pool =>
    rw [IssueContext.limited, Pool.narrowed]
    split
    · exact ⟨[], (List.append_nil cells).symm⟩
    · exact ⟨[limit], rfl⟩

/-- Cells that are added leave a pool what it has. -/
theorem remaining_grown (cells added : PoolCells) (pool : Pool)
    (inside : ∀ cell ∈ pool.path, cell < cells.length) :
    pool.remaining (cells ++ added) = pool.remaining cells := by
  rw [Pool.remaining, Pool.remaining]
  apply List.foldl_ext
  intro least cell member
  rw [List.getD_append _ _ _ _ (inside cell member)]

namespace AttachedRun

/-- An admitted run has a pool of bytes. -/
theorem admitted_memory (entitled : Entitlement) (cells : PoolCells) (run : AttachedRun) :
    ∃ pool, (run.admitted entitled cells).2.context.memory = some pool := ⟨_, rfl⟩

/-- A run with a pool in which no more than the entitlement is left is admitted to that very
pool. -/
theorem admitted_again (entitled : Entitlement) (cells : PoolCells) (run : AttachedRun) (pool : Pool)
    (memory : run.context.memory = some pool) (inside : ∀ cell ∈ pool.path, cell < cells.length)
    (within : pool.remaining cells ≤ entitled.bytes) :
    (run.admitted entitled cells).2.context.memory = some pool := by
  obtain ⟨before, added, came⟩ : ∃ before added,
      (run.admitted entitled cells).2.context.memory = some (pool.narrowed before entitled.bytes).2 ∧
        before = cells ++ added := by
    simp only [admitted, IssueContext.admitted, memory]
    cases entitled.retries with
    | none => exact ⟨cells, [], rfl, (List.append_nil cells).symm⟩
    | some retries =>
      obtain ⟨added, grown⟩ := limited_grows cells run.context.retries retries
      exact ⟨_, added, rfl, grown⟩
  rw [came.1, Pool.narrowed, if_pos]
  rwa [came.2, remaining_grown cells added pool inside]

end AttachedRun

theorem mem_undeclared (request : Request) (id : List UInt8) (readers : Readers) (name : Text) :
    name ∈ undeclared request id readers ↔ name ∈ carrying request id ∧ name ∉ readers := by
  rw [undeclared, List.mem_filter, decide_eq_true_eq]

/-- A carrier is found in its request. -/
theorem carrying_named {request : Request} {id : List UInt8} {name : Text}
    (carried : name ∈ carrying request id) : (argNamed request.args name).isSome = true := by
  obtain ⟨arg, among, rfl⟩ := List.mem_map.mp carried
  rw [argNamed, Option.isSome_map, List.isSome_find?, List.any_eq_true]
  exact ⟨arg, List.mem_of_mem_filter among, by simp⟩

/-- What an endpoint is handed of a request that carries an attached body. -/
structure HandedOver (world : World ω) (entitled : Entitlement) (id : List UInt8) (readers : Readers)
    (request : Request) (run : AttachedRun) (state : AttachState ω) (out : Request)
    (left : AttachedRun) (after : AttachState ω) : Prop where
  verb : out.verb = request.verb
  target : out.target = request.target
  /-- What carries another thing is as it was. -/
  others : ∀ name, name ∉ carrying request id → argNamed out.args name = argNamed request.args name
  /-- An argument that the contract declares a body reader still carries the body's id. -/
  read : ∀ name ∈ readers, argNamed out.args name = argNamed request.args name
  /-- Every other argument that carries it is given what came for it from the pool the run was
  admitted to. -/
  gathered : (∀ name ∈ carrying request id, name ∈ readers) ∨
    ∃ pool values,
      (run.admitted entitled state.cells).2.context.memory = some pool ∧
        Gathers world pool (undeclared request id readers)
          { state with cells := (run.admitted entitled state.cells).1 } values after ∧
        ∀ name ∈ carrying request id, name ∉ readers → ∃ bytes,
          (name, bytes) ∈ (undeclared request id readers).zip values ∧
            argNamed out.args name = some (.inline bytes)
  /-- Where no body reader carries it the run goes on as admitted, with nothing attached. -/
  detached : (∀ name ∈ carrying request id, name ∉ readers) →
    left = (run.admitted entitled state.cells).2.withoutAttached
  /-- The body goes on to where a body reader carries it. -/
  attached : (∃ name ∈ carrying request id, name ∈ readers) → left.attached = some id
  /-- The pool of the admission is the one the endpoint then runs under, as long as no more than
  the entitlement is left in it by then. -/
  pool : ∀ pool cells, left.context.memory = some pool →
    (∀ cell ∈ pool.path, cell < cells.length) → pool.remaining cells ≤ entitled.bytes →
      (left.admitted entitled cells).2.context.memory = some pool

theorem gathers_length {world : World ω} {budget : Pool} {names : List Text}
    {state after : AttachState ω} {values : List (List UInt8)}
    (gathers : Gathers world budget names state values after) : values.length = names.length := by
  induction gathers with
  | none => rfl
  | held _ _ _ _ _ _ _ _ ih => rw [List.length_cons, List.length_cons, ih]
  | replayed _ _ _ _ _ _ _ _ _ _ _ _ ih => rw [List.length_cons, List.length_cons, ih]
  | taken _ _ _ _ _ _ _ _ _ _ _ ih => rw [List.length_cons, List.length_cons, ih]

/-- A request that carries the attached body is handed over as the contract says. -/
theorem settle_hands_over {world : World ω} {entitled : Entitlement} {id : List UInt8}
    {readers : Readers} {request out : Request} {run left : AttachedRun} {names : List Text}
    {state after : AttachState ω} (attached : run.attached = some id)
    (carried : carrying request id ≠ [])
    (settled : settleAttached world entitled request run readers state =
      (.ok (out, left, names), after)) :
    HandedOver world entitled id readers request run state out left after := by
  simp only [settleAttached, attached] at settled
  split at settled
  · rename_i none
    have all : ∀ name ∈ carrying request id, name ∈ readers := by
      intro name among
      by_contra other
      have inside := (mem_undeclared request id readers name).mpr ⟨among, other⟩
      rw [List.isEmpty_iff.mp none] at inside
      cases inside
    obtain ⟨name, among⟩ := List.exists_mem_of_ne_nil _ carried
    cases settled
    exact {
      verb := rfl
      target := rfl
      others := fun _ _ => rfl
      read := fun _ _ => rfl
      gathered := .inl all
      detached := fun nothing => absurd (all name among) (nothing name among)
      attached := fun _ => attached
      pool := fun pool cells memory => AttachedRun.admitted_again entitled cells _ pool memory }
  · obtain ⟨pool, memory⟩ := run.admitted_memory entitled state.cells
    have budget : (run.admitted entitled state.cells).2.budget (run.admitted entitled state.cells).1 =
        ((run.admitted entitled state.cells).1, pool) := by
      rw [AttachedRun.budget, memory]
    rw [budget] at settled
    cases collected : collectFor world pool id (undeclared request id readers) request.args
        { state with cells := (run.admitted entitled state.cells).1 } with
    | mk result done =>
      rw [collected] at settled
      cases result with
      | error error => cases settled
      | ok args =>
        cases settled
        obtain ⟨values, gathers, rfl⟩ := collect_for_gathers collected
        have paired : ∀ name ∈ undeclared request id readers,
            ∃ value ∈ (undeclared request id readers).zip values, value.1 = name := by
          intro name among
          obtain ⟨place, inside, rfl⟩ := List.mem_iff_getElem.mp among
          have within : place < values.length := by rw [gathers_length gathers]; exact inside
          refine ⟨_, List.mem_iff_getElem.mpr ⟨place, ?_, List.getElem_zip⟩, rfl⟩
          rw [List.length_zip, lt_min_iff]
          exact ⟨inside, within⟩
        have silent : ∀ name, name ∉ undeclared request id readers →
            argNamed (inlined request.args ((undeclared request id readers).zip values)) name =
              argNamed request.args name := by
          intro name outside
          apply arg_named_inlined_other
          rintro value inside rfl
          exact outside (List.of_mem_zip inside).1
        have every : (undeclared request id readers).length = (carrying request id).length ↔
            ∀ name ∈ carrying request id, name ∉ readers := by
          rw [undeclared, List.length_filter_eq_length_iff]
          simp only [decide_eq_true_eq]
        exact {
          verb := rfl
          target := rfl
          others := fun name outside => silent name fun inside =>
            outside ((mem_undeclared request id readers name).mp inside).1
          read := fun name among => silent name fun inside =>
            ((mem_undeclared request id readers name).mp inside).2 among
          gathered := by
            refine .inr ⟨pool, values, memory, gathers, ?_⟩
            intro name among other
            exact arg_named_inlined _ request.args name (carrying_named among)
              (paired name ((mem_undeclared request id readers name).mpr ⟨among, other⟩))
          detached := by
            intro nothing
            rw [if_pos (every.mpr nothing)]
          attached := by
            rintro ⟨name, among, reads⟩
            rw [if_neg fun all => every.mp all name among reads]
            exact attached
          pool := fun pool cells memory => AttachedRun.admitted_again entitled cells _ pool memory }

/-- The first of two readers of a body that can be read again leaves it, a one-shot body's first
reader takes it, and after it there is none. -/
theorem read_attached_cases (name : Text) (id : List UInt8) (state : AttachState ω) :
    (∃ body, state.slot = some body ∧ body.isOneShot = false ∧
        readAttached name id state = (.ok body, state)) ∨
      (∃ body, state.slot = some body ∧ body.isOneShot = true ∧
        readAttached name id state = (.ok body, { state with slot := none })) ∨
      state.slot = none ∧ readAttached name id state = (.error (readAlready name id), state) := by
  obtain ⟨slot, cells, rest⟩ := state
  cases slot with
  | none => exact .inr (.inr ⟨rfl, rfl⟩)
  | some body =>
    cases body with
    | bytes data => exact .inl ⟨.bytes data, rfl, rfl, rfl⟩
    | replay object length => exact .inl ⟨.replay object length, rfl, rfl, rfl⟩
    | once object => exact .inr (.inl ⟨.once object, rfl, rfl, rfl⟩)

/-- Views hand on the body and every argument that carries it. -/
theorem through_views_keeps {views : List (ViewEndpoint × Entitlement)} {request out : Request}
    {run left : AttachedRun} {cells after : PoolCells} {id : List UInt8}
    (issued : throughViews views request run cells = (.ok (out, left), after)) :
    left.attached = run.attached ∧ out.verb = request.verb ∧
      ∀ name, argNamed request.args name = some (.content id) →
        argNamed out.args name = some (.content id) := by
  induction views generalizing request run cells with
  | nil =>
    cases issued
    exact ⟨rfl, rfl, fun _ found => found⟩
  | cons step rest ih =>
    obtain ⟨view, entitled⟩ := step
    rw [throughViews] at issued
    cases forwarded : view.forwarded request with
    | error error =>
      rw [forwarded] at issued
      cases issued
    | ok next =>
      rw [forwarded] at issued
      obtain ⟨same, verb, kept⟩ := ih issued
      obtain ⟨_, first, _, merged⟩ := view.forwarded_ok forwarded
      have merging := (Merging.nil request.args).run merged
      exact ⟨same, verb.trans first, fun name found => kept name (merging.given name _ found)⟩

section ByValue

variable {σ π : Type} [Blake3] [RequestHash]

omit [RequestHash] in
/-- What the cache answers does not turn on the body or the pools. -/
theorem served_alike (call : Call σ) (settled : Settled σ) (state : IssueState π (AttachState ω))
    (other : AttachState ω) :
    (Kernel.servedFromCache call settled { state with uncached := other }).1 =
      (Kernel.servedFromCache call settled state).1 := by
  simp only [Kernel.servedFromCache]
  split
  · rfl
  · split <;> rfl

/-- An attached body is the by-value request unless its argument reads one. Of every request that
carries it, through any views: a forwarder hands it on as it is; where collecting fails the endpoint
is not entered and the kernel is as it was; and otherwise the request goes on as the contract says,
its identity and key taken of what it then is. The cache answers it as the request with the bytes
given inline, and that request's run would be admitted as this one was. -/
theorem attached_body_is_by_value (world : World ω) (entering : Entering σ π ω)
    (entitled : Entitlement) (call : Call σ) (run : AttachedRun) (id : List UInt8)
    (attached : run.attached = some id) (description : Description) (settled : Settled σ)
    (state : IssueState π (AttachState ω)) (carried : carrying settled.request id ≠ []) :
    (∀ name, name ∈ Floor.readersFor (Floor.of description).bodyReaders settled.request.verb ↔
        description.DeclaresReader settled.request.verb name) ∧
      (∀ readers, dispatchedAttached world entering entitled call run readers true settled state =
        Kernel.dispatched (entering.under entitled run) call (settled.given call settled.request)
          state) ∧
      (∀ readers error after,
        settleAttached world entitled settled.request run readers state.uncached =
            (.error error, after) →
          dispatchedAttached world entering entitled call run readers false settled state =
            (.error error, { state with uncached := after })) ∧
      (∀ readers out left names after,
        settleAttached world entitled settled.request run readers state.uncached =
            (.ok (out, left, names), after) →
          dispatchedAttached world entering entitled call run readers false settled state =
              Kernel.dispatched (entering.under entitled left) call (settled.given call out)
                { state with uncached := after } ∧
            HandedOver world entitled id readers settled.request run state.uncached out left after) ∧
      (∀ given (other : AttachState ω),
        (Kernel.servedFromCache call given { state with uncached := other }).1 =
          (Kernel.servedFromCache call given state).1) ∧
      (∀ other : IssueState π (AttachState ω), other.uncached.cells = state.uncached.cells →
        ∀ given, (entering.under entitled run.withoutAttached).enter call given other =
          entering.enter (run.admitted entitled state.uncached.cells).2.withoutAttached call given
            { other with uncached := { other.uncached with
              cells := (run.admitted entitled state.uncached.cells).1 } }) ∧
      (∀ name (other : AttachState ω),
        (∃ body, other.slot = some body ∧ body.isOneShot = false ∧
            readAttached name id other = (.ok body, other)) ∨
          (∃ body, other.slot = some body ∧ body.isOneShot = true ∧
            readAttached name id other = (.ok body, { other with slot := none })) ∨
          other.slot = none ∧ readAttached name id other = (.error (readAlready name id), other)) ∧
      ∀ views request out left cells after,
        throughViews views request run cells = (.ok (out, left), after) →
          left.attached = some id ∧ out.verb = request.verb ∧
            ∀ name, argNamed request.args name = some (.content id) →
              argNamed out.args name = some (.content id) := by
  refine ⟨fun name => mem_readers_iff description _ name, fun _ => rfl, ?_, ?_,
    fun given other => served_alike call given state other, ?_,
    fun name other => read_attached_cases name id other, ?_⟩
  · intro readers error after failed
    rw [dispatchedAttached, if_neg Bool.false_ne_true, failed]
  · intro readers out left names after done
    refine ⟨?_, settle_hands_over attached carried done⟩
    rw [dispatchedAttached, if_neg Bool.false_ne_true, done]
  · intro other same given
    simp only [Entering.under, AttachedRun.admitted, same]
    rfl
  · intro views request out left cells after issued
    obtain ⟨same, verb, kept⟩ := through_views_keeps issued
    exact ⟨same.trans attached, verb, kept⟩

end ByValue

namespace RidingBody

local instance anyDigest : Blake3 := ⟨fun bytes => bytes.length.toUInt64⟩

local instance oneHash : RequestHash := ⟨fun _ => ⟨Vector.replicate 32 0⟩, fun _ => 0⟩

def id : List UInt8 := [1]

/-- A stream that yields two chunks to a pool nobody else uses. -/
def world : World Unit := fun _ rest =>
  (⟨[(fun cells => cells, .ok [104]), (fun cells => cells, .ok [105])], fun cells => cells⟩, rest)

def entitled : Entitlement := ⟨none, 10⟩

def run : AttachedRun := ⟨⟨none, none, some ⟨[0]⟩⟩, some id⟩

def buffered : AttachState Unit := ⟨some (.bytes [104, 105]), [10], ()⟩

def streamed : AttachState Unit := ⟨some (.once 7), [10], ()⟩

def bare : Request := ⟨.source, ['u', 'r', 'n', ':', 'a'], []⟩

def carrier : Request := { bare with args := [(['b'], .content id)] }

def given : Request := { bare with args := [(['b'], .inline [104, 105])] }

/-- A request that does not carry the body leaves it attached, where what is issued below reads it;
and a buffer that is collected draws nothing. -/
theorem bare_request_keeps_body :
    carrying bare id = [] ∧
      settleAttached world entitled bare run [] buffered = (.ok (bare, run, []), buffered) ∧
      run.attached = some id ∧
      readAttached ['b'] id buffered = (.ok (.bytes [104, 105]), buffered) ∧
      settleAttached world entitled carrier run [] buffered =
        (.ok (given, run.withoutAttached, [['b']]), buffered) :=
  ⟨rfl, rfl, rfl, rfl, rfl⟩

def call : Call Unit where
  request := carrier
  capability := .root
  scope := .empty
  depth := 0
  incoming := none
  buffer := true
  now := none

def settled : Settled Unit where
  request := carrier
  endpoint := .bottom
  bindings := []
  levels := []
  references := none
  key := ⟨oneHash.id carrier, 0, 0⟩
  offer := none
  taken := 0

def entering : Entering Unit ShippedPolicy Unit where
  enter := fun _ _ _ state => (.error (.endpoint []), state)
  operate := fun _ _ _ _ _ state => (.error (.endpoint []), state)

def state : IssueState ShippedPolicy (AttachState Unit) where
  counts := []
  floors := ∅
  probes := ∅
  cache := .new (.simple (.lru ⟨16, 1024⟩))
  window := []
  uncached := streamed

/-- A one-shot body is collected for an argument that no contract declares a body reader. -/
theorem carrier_is_collected :
    HandedOver world entitled id [] carrier run streamed given run.withoutAttached
      ⟨none, [8], ()⟩ :=
  ((attached_body_is_by_value world entering entitled call run id rfl { id := [] } settled state
    (by decide)).2.2.2.1 [] given run.withoutAttached [['b']] ⟨none, [8], ()⟩ rfl).2

end RidingBody

end Ikigai
