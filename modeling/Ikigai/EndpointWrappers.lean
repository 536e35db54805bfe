import Ikigai.BudgetPool
import Ikigai.Dependencies
import Ikigai.Floor
import Ikigai.Forwarding
import Ikigai.ScopeStacking

/-!
# Endpoints around endpoints

An endpoint describes itself and answers through two faces, a buffer's and a body's. The core's
wrappers hand everything on to what they wrap: a confinement narrows the chain it runs in, a
thread is recorded with what it answers, a projection describes it anew. Only the confinement
answers through one face: its body face is the default one, which is the buffer's.
-/

namespace Ikigai

/-- What an endpoint runs over: what its invocation recorded, the byte pools, and the rest. -/
structure RunState (ω : Type) where
  recorded : Recorded
  cells : PoolCells
  rest : ω

/-- What runs, changes the state, and comes to something or fails. -/
abbrev Effect (ω α : Type) := ExceptT Error (StateM (RunState ω)) α

/-- Two effects are one when they do the same from each state. -/
theorem Effect.ext {ω α : Type} {left right : Effect ω α}
    (same : ∀ state, left.run.run state = right.run.run state) : left = right := by
  funext state
  exact same state

/-- Past a value, an effect goes on from where it came to it. -/
theorem Effect.run_bind_ok {ω α β : Type} {act : Effect ω α} {state after : RunState ω} {value : α}
    (came : act.run.run state = (.ok value, after)) (next : α → Effect ω β) :
    (act >>= next).run.run state = (next value).run.run after := by
  change (ExceptT.bindCont next (act.run.run state).1) (act.run.run state).2 = _
  rw [came]
  rfl

/-- A failure ends it. -/
theorem Effect.run_bind_error {ω α β : Type} {act : Effect ω α} {state after : RunState ω}
    {error : Error} (came : act.run.run state = (.error error, after)) (next : α → Effect ω β) :
    (act >>= next).run.run state = (.error error, after) := by
  change (ExceptT.bindCont next (act.run.run state).1) (act.run.run state).2 = _
  rw [came]
  rfl

/-- A change to what is done changes its value alone. -/
theorem Effect.run_map {ω α β : Type} (act : Effect ω α) (f : α → β) (state : RunState ω) :
    (f <$> act).run.run state = ((act.run.run state).1.map f, (act.run.run state).2) := by
  cases came : act.run.run state with
  | mk result after =>
    have whole : (f <$> act).run.run state = (act >>= fun value => pure (f value)).run.run state := by
      rfl
    cases result with
    | error error => exact whole.trans (Effect.run_bind_error came _)
    | ok value => exact whole.trans (Effect.run_bind_ok came _)

/-- An answer held whole. -/
structure Buffered where
  answer : Representation
  held : answer.body.asBytes.isSome = true

/-- `Representation::into_body`. -/
def Buffered.intoBody (buffered : Buffered) : Representation := buffered.answer

/-- What an endpoint is handed. -/
structure Invocation (σ : Type) [Blake3] where
  request : Request
  bindings : List (Text × Text)
  capability : Capability
  scope : Scope σ
  depth : Nat
  run : IssueContext

/-- What lies outside an endpoint: what a sub-request of an invocation comes to, with the
dependencies it hands back beside an error, and what a stream yields when it is read. -/
structure Outside (σ ω : Type) [Blake3] where
  answer : Invocation σ → Request → PoolCells → ω →
    (Except Error Representation × Dependencies) × PoolCells × ω
  chunks : Body → ω → List (Except Error (List UInt8)) × ω

/-- The byte budget of an invocation that runs under none. -/
def defaultStreamMemory : Nat := 64 * 1024 * 1024

namespace Invocation

variable {σ ω : Type} [Blake3]

/-- The same invocation, its chain confined to a space. -/
def confine (inv : Invocation σ) (name : Iri) (space : σ) : Invocation σ :=
  { inv with scope := inv.scope.confine name space }

def withRequest (inv : Invocation σ) (request : Request) : Invocation σ :=
  { inv with request := request }

/-- Record a thread the answer hangs from. -/
def dependsOn (thread : Thread) : Effect ω Unit :=
  modify fun state => { state with recorded := state.recorded.dependsOn thread }

/-- Issue a sub-request, and record what came of it. -/
def issueBody (outside : Outside σ ω) (inv : Invocation σ) (request : Request) :
    Effect ω Representation :=
  ExceptT.mk fun state =>
    let came := outside.answer inv request state.cells state.rest
    (came.1.1,
      { recorded := state.recorded.record request.target came.1.1 came.1.2
        cells := came.2.1
        rest := came.2.2 })

/-- Collect a body under the run's pool, or a fresh one. -/
def collect (outside : Outside σ ω) (inv : Invocation σ) (body : Body) : Effect ω (List UInt8) :=
  match body with
  | .bytes data => pure data
  | .replay _ _ | .once _ =>
    ExceptT.mk fun state =>
      let read := outside.chunks body state.rest
      let budget :=
        match inv.run.memory with
        | some budget => (state.cells, budget)
        | none => Pool.new state.cells defaultStreamMemory
      let collected := body.collectWithin budget.1 read.1 budget.2
      (collected.2, { state with cells := collected.1, rest := read.2 })

end Invocation

/-- A node under a name of its own. -/
def Topology.under (name : Iri) : Topology → Topology
  | .node _ kind children level => .node (some name) kind children level

/-- An endpoint: what it says of itself, and its two faces. -/
structure EndpointObject (σ ω : Type) [Blake3] where
  name : Text
  describe : Description
  forwards : Option Forward
  confinement : Option Topology
  isLimiter : Bool
  invoke : Invocation σ → Effect ω Buffered
  invokeBody : Invocation σ → Effect ω Representation

/-- A stale answer offered for revalidation, when its body can still be read. -/
structure OfferedAnswer where
  stored : Option Representation

namespace EndpointObject

variable {σ ω : Type} [Blake3]

/-- The body face of an endpoint that only has the other. -/
def defaultBody (invoke : Invocation σ → Effect ω Buffered) (inv : Invocation σ) :
    Effect ω Representation :=
  Buffered.intoBody <$> invoke inv

/-- The buffer of an answer: its own, or what collecting its stream comes to. -/
def collected (outside : Outside σ ω) (inv : Invocation σ) (answer : Representation) :
    Effect ω Buffered :=
  if held : answer.body.asBytes.isSome = true then pure ⟨answer, held⟩
  else do
    let data ← inv.collect outside answer.body
    pure ⟨{ answer with body := .bytes data }, rfl⟩

/-- `Confine`, of a space under a name it claims or none does. -/
def confine [Space σ] (inner : EndpointObject σ ω) (name : Iri) (space : σ) :
    EndpointObject σ ω :=
  let invoke (inv : Invocation σ) := inner.invoke (inv.confine name space)
  { name := inner.name
    describe := inner.describe
    forwards := inner.forwards
    confinement := some ((Space.topology space).under name)
    isLimiter := false
    invoke
    invokeBody := defaultBody invoke }

/-- `ThreadedEndpoint`. -/
def threaded (inner : EndpointObject σ ω) (thread : Thread) : EndpointObject σ ω :=
  { name := inner.name
    describe := inner.describe
    forwards := inner.forwards
    confinement := inner.confinement
    isLimiter := false
    invoke := fun inv => do
      Invocation.dependsOn thread
      inner.invoke inv
    invokeBody := fun inv => do
      Invocation.dependsOn thread
      inner.invokeBody inv }

/-- `Projected`. -/
def projected (inner : EndpointObject σ ω) (description : Description) : EndpointObject σ ω :=
  { name := inner.name
    describe := description
    forwards := inner.forwards
    confinement := inner.confinement
    isLimiter := false
    invoke := inner.invoke
    invokeBody := inner.invokeBody }

/-- A reference to settle: its argument, its name, and whether the argument is a name. -/
structure PendingReference where
  argument : Text
  target : Iri
  asName : Bool
deriving DecidableEq, Repr

/-- A referent's failure, naming the argument and the reference it was given by. -/
def referentError (pending : PendingReference) (error : Error) : Error :=
  let refers := "argument `".toList ++ pending.argument ++ "` refers to <".toList ++
    pending.target ++ ">".toList
  match error with
  | .denied detail =>
    .denied (refers ++ ", which this caller may not read: ".toList ++ detail)
  | .overBudget detail =>
    .overBudget (refers ++ ", which the kernel reads because `".toList ++ pending.argument ++
      "` is not declared `reads_body`: ".toList ++ detail)
  | .notFound detail => .notFound (refers ++ ": ".toList ++ detail)
  | .gone detail => .gone (refers ++ ": ".toList ++ detail)
  | other => other

/-- Put a value where an argument was. -/
def replaced (args : List (Text × ArgRef)) (name : Text) (value : List UInt8) :
    List (Text × ArgRef) :=
  args.map fun arg => if arg.1 = name then (name, .inline value) else arg

/-- What an invocation gets by sourcing a name and collecting the answer. -/
def sourced (outside : Outside σ ω) (inv : Invocation σ) (target : Iri) :
    Effect ω (List UInt8) := do
  let answer ← inv.issueBody outside (Request.new .source target)
  inv.collect outside answer.body

/-- The value one reference is settled to. -/
def settledValue (outside : Outside σ ω) (inv : Invocation σ) (pending : PendingReference) :
    Effect ω (List UInt8) :=
  if pending.asName then pure (Text.asBytes pending.target)
  else
    ExceptT.adapt (referentError pending) (sourced outside inv pending.target)

/-- The request with every pending reference settled, in their order. -/
def settledArgs (outside : Outside σ ω) (inv : Invocation σ) :
    List PendingReference → List (Text × ArgRef) → Effect ω (List (Text × ArgRef))
  | [], args => pure args
  | pending :: rest, args => do
    let value ← settledValue outside inv pending
    settledArgs outside inv rest (replaced args pending.argument value)

/-- `SettleReferences`. -/
def settling (outside : Outside σ ω) (inner : EndpointObject σ ω)
    (pending : List PendingReference) : EndpointObject σ ω :=
  let settled (inv : Invocation σ) : Effect ω (Invocation σ) := do
    let args ← settledArgs outside inv pending inv.request.args
    pure (inv.withRequest { inv.request with args := args })
  { name := inner.name
    describe := inner.describe
    forwards := none
    confinement := inner.confinement
    isLimiter := false
    invoke := fun inv => settled inv >>= inner.invoke
    invokeBody := fun inv => settled inv >>= inner.invokeBody }

/-- The stored body under the deadline of an answer that says it is still valid. -/
def refreshed (offer : OfferedAnswer) (answer : Representation) : Effect ω Representation :=
  if answer.revalidated then
    match offer.stored with
    | none => throw (.endpoint "the offered stale body cannot be read again".toList)
    | some stored =>
      pure { stored with
        expiry := answer.expiry
        validator := answer.validator <|> stored.validator }
  else pure answer

/-- `Revalidate`. -/
def revalidating (outside : Outside σ ω) (inner : EndpointObject σ ω) (offer : OfferedAnswer) :
    EndpointObject σ ω :=
  let invokeBody (inv : Invocation σ) : Effect ω Representation :=
    inner.invokeBody inv >>= refreshed offer
  { name := inner.name
    describe := inner.describe
    forwards := inner.forwards
    confinement := inner.confinement
    isLimiter := inner.isLimiter
    invoke := fun inv => invokeBody inv >>= collected outside inv
    invokeBody }

/-- The references of a request that a contract says how to settle. -/
def pendingReferences (request : Request) (references : Option References) :
    List PendingReference :=
  match references with
  | none => []
  | some references =>
    request.args.filterMap fun arg =>
      match arg.2 with
      | .reference target => (references.settles arg.1).map fun asName => ⟨arg.1, target, asName⟩
      | .inline _ | .content _ => none

/-- `settled_by_contract`. -/
def settledByContract (outside : Outside σ ω) (endpoint : EndpointObject σ ω) (request : Request)
    (references : Option References) : EndpointObject σ ω :=
  let pending := pendingReferences request references
  if pending.isEmpty || endpoint.forwards.isSome then endpoint
  else endpoint.settling outside pending

/-- The endpoint a request is invoked through. -/
def settleReferences (outside : Outside σ ω) (endpoint : EndpointObject σ ω) (request : Request)
    (references : Option References) (offer : Option OfferedAnswer) : EndpointObject σ ω :=
  let endpoint := settledByContract outside endpoint request references
  match offer with
  | none => endpoint
  | some offer => endpoint.revalidating outside offer

end EndpointObject

section Stacks

variable {σ ω : Type} [Blake3] [Space σ]

/-- One of the core's wrappers. A confinement's name agrees with what its space claims. -/
inductive Wrapper (σ : Type) [Blake3] [Space σ] where
  | confine (name : Iri) (space : σ) (claimed : Scope.checkClaim name space = true)
  | threaded (thread : Thread)
  | projected (description : Description)

namespace Wrapper

def wrap : Wrapper σ → EndpointObject σ ω → EndpointObject σ ω
  | confine name space _, inner => inner.confine name space
  | threaded thread, inner => inner.threaded thread
  | projected description, inner => inner.projected description

def confines : Wrapper σ → Bool
  | confine _ _ _ => true
  | threaded _ | projected _ => false

def projects : Wrapper σ → Bool
  | projected _ => true
  | confine _ _ _ | threaded _ => false

/-- The corridor a confinement reports. -/
def corridor : Wrapper σ → Option Topology
  | confine name space _ => some ((Space.topology space).under name)
  | threaded _ | projected _ => none

/-- The invocation that what is wrapped is handed. -/
def derive : Wrapper σ → Invocation σ → Invocation σ
  | confine name space _, inv => inv.confine name space
  | threaded _, inv | projected _, inv => inv

/-- What is recorded before what is wrapped runs. -/
def hang : Wrapper σ → RunState ω → RunState ω
  | threaded thread, state => { state with recorded := state.recorded.dependsOn thread }
  | confine _ _ _, state | projected _, state => state

/-- A stack around an endpoint, its outermost wrapper first. -/
def wrapAll (wrappers : List (Wrapper σ)) (object : EndpointObject σ ω) : EndpointObject σ ω :=
  wrappers.foldr wrap object

def derived (wrappers : List (Wrapper σ)) (inv : Invocation σ) : Invocation σ :=
  wrappers.foldl (fun inv wrapper => wrapper.derive inv) inv

def hung (wrappers : List (Wrapper σ)) (state : RunState ω) : RunState ω :=
  wrappers.foldl (fun state wrapper => wrapper.hang state) state

/-- Run behind what a stack records. -/
def behind {α : Type} (wrappers : List (Wrapper σ)) (act : Effect ω α) : Effect ω α := do
  modify (hung wrappers)
  act

/-- What is done behind wrappers is done with their threads hung. -/
theorem run_behind {α : Type} (wrappers : List (Wrapper σ)) (act : Effect ω α)
    (state : RunState ω) :
    (behind wrappers act).run.run state = act.run.run (hung wrappers state) :=
  rfl

/-- A change to a value may be made behind the wrappers or before them. -/
theorem behind_map {α β : Type} (wrappers : List (Wrapper σ)) (act : Effect ω α) (f : α → β) :
    f <$> behind wrappers act = behind wrappers (f <$> act) :=
  rfl

/-- The buffer face is handed on by each wrapper. -/
theorem wrap_invoke (wrapper : Wrapper σ) (inner : EndpointObject σ ω) (inv : Invocation σ) :
    (wrapper.wrap inner).invoke inv = behind [wrapper] (inner.invoke (wrapper.derive inv)) := by
  cases wrapper <;> rfl

/-- The body face is handed on by each wrapper but a confinement. -/
theorem wrap_invoke_body (wrapper : Wrapper σ) (inner : EndpointObject σ ω) (inv : Invocation σ)
    (other : wrapper.confines = false) :
    (wrapper.wrap inner).invokeBody inv =
      behind [wrapper] (inner.invokeBody (wrapper.derive inv)) := by
  cases wrapper with
  | confine => cases other
  | threaded => rfl
  | projected => rfl

/-- A confinement's body face is its buffer face. -/
theorem confined_invoke_body (wrapper : Wrapper σ) (inner : EndpointObject σ ω)
    (inv : Invocation σ) (confining : wrapper.confines = true) :
    (wrapper.wrap inner).invokeBody inv = Buffered.intoBody <$> (wrapper.wrap inner).invoke inv := by
  cases wrapper with
  | confine => rfl
  | threaded => cases confining
  | projected => cases confining

/-- Wrappers around wrappers are wrappers. -/
theorem behind_cons {α : Type} (wrapper : Wrapper σ) (rest : List (Wrapper σ))
    (act : Effect ω α) :
    behind [wrapper] (behind rest act) = behind (wrapper :: rest) act :=
  rfl

/-- A stack's buffer face is the endpoint's own, in the invocation the stack derives. -/
theorem wrap_all_invoke (wrappers : List (Wrapper σ)) (object : EndpointObject σ ω)
    (inv : Invocation σ) :
    (wrapAll wrappers object).invoke inv =
      behind wrappers (object.invoke (derived wrappers inv)) := by
  induction wrappers generalizing inv with
  | nil => rfl
  | cons wrapper rest ih =>
    have step := wrapper.wrap_invoke (wrapAll rest object) inv
    rw [ih, behind_cons] at step
    exact step

/-- So is its body face, where nothing in it confines. -/
theorem wrap_all_invoke_body (wrappers : List (Wrapper σ)) (object : EndpointObject σ ω)
    (inv : Invocation σ) (open_ : ∀ wrapper ∈ wrappers, wrapper.confines = false) :
    (wrapAll wrappers object).invokeBody inv =
      behind wrappers (object.invokeBody (derived wrappers inv)) := by
  induction wrappers generalizing inv with
  | nil => rfl
  | cons wrapper rest ih =>
    rw [List.forall_mem_cons] at open_
    have step := wrapper.wrap_invoke_body (wrapAll rest object) inv open_.1
    rw [ih _ open_.2, behind_cons] at step
    exact step

/-- Where something confines, the stack's body face is its buffer face. -/
theorem wrap_all_confined (wrappers : List (Wrapper σ)) (object : EndpointObject σ ω)
    (inv : Invocation σ) (confined : ∃ wrapper ∈ wrappers, wrapper.confines = true) :
    (wrapAll wrappers object).invokeBody inv =
      behind wrappers (Buffered.intoBody <$> object.invoke (derived wrappers inv)) := by
  induction wrappers generalizing inv with
  | nil =>
    obtain ⟨_, member, _⟩ := confined
    cases member
  | cons wrapper rest ih =>
    cases confining : wrapper.confines with
    | true =>
      have step := wrapper.confined_invoke_body (wrapAll rest object) inv confining
      rw [wrap_invoke, wrap_all_invoke, behind_cons, behind_map] at step
      exact step
    | false =>
      obtain ⟨own, member, confines⟩ := confined
      have further : ∃ wrapper ∈ rest, wrapper.confines = true := by
        rcases List.mem_cons.mp member with rfl | member
        · rw [confining] at confines
          cases confines
        · exact ⟨own, member, confines⟩
      have step := wrapper.wrap_invoke_body (wrapAll rest object) inv confining
      rw [ih _ further, behind_cons] at step
      exact step

/-- Wrapping keeps the name. -/
theorem wrap_all_name (wrappers : List (Wrapper σ)) (object : EndpointObject σ ω) :
    (wrapAll wrappers object).name = object.name := by
  induction wrappers with
  | nil => rfl
  | cons wrapper rest ih => cases wrapper <;> exact ih

/-- Wrapping keeps what an endpoint forwards to. -/
theorem wrap_all_forwards (wrappers : List (Wrapper σ)) (object : EndpointObject σ ω) :
    (wrapAll wrappers object).forwards = object.forwards := by
  induction wrappers with
  | nil => rfl
  | cons wrapper rest ih => cases wrapper <;> exact ih

/-- Wrapping keeps the description where no wrapper projects. -/
theorem wrap_all_describe (wrappers : List (Wrapper σ)) (object : EndpointObject σ ω)
    (plain : ∀ wrapper ∈ wrappers, wrapper.projects = false) :
    (wrapAll wrappers object).describe = object.describe := by
  induction wrappers with
  | nil => rfl
  | cons wrapper rest ih =>
    rw [List.forall_mem_cons] at plain
    have inner := ih plain.2
    cases wrapper with
    | confine => exact inner
    | threaded => exact inner
    | projected => cases plain.1

/-- The confinement reported is the outermost one's, or the endpoint's own. -/
theorem wrap_all_confinement (wrappers : List (Wrapper σ)) (object : EndpointObject σ ω) :
    (wrapAll wrappers object).confinement =
      (wrappers.findSome? corridor).or object.confinement := by
  induction wrappers with
  | nil => rfl
  | cons wrapper rest ih =>
    cases wrapper with
    | confine => rfl
    | threaded => exact ih
    | projected => exact ih

end Wrapper

namespace EndpointObject

/-- The documented contract of an endpoint's two faces: the buffer's is the body's, collected. -/
def Collects (outside : Outside σ ω) (object : EndpointObject σ ω) : Prop :=
  ∀ inv, object.invoke inv = object.invokeBody inv >>= collected outside inv

/-- What a face is when it stands for an endpoint in a stack: all it says is the endpoint's,
a projected description and a confinement apart, and it answers with the endpoint's own body, or
with that very body collected, in the invocation the stack derives, reading nothing. -/
structure Transparent (outside : Outside σ ω) (object : EndpointObject σ ω)
    (wrappers : List (Wrapper σ)) (face : EndpointObject σ ω) : Prop where
  name : face.name = object.name
  forwards : face.forwards = object.forwards
  describe : (∀ wrapper ∈ wrappers, wrapper.projects = false) → face.describe = object.describe
  confinement : face.confinement = (wrappers.findSome? Wrapper.corridor).or object.confinement
  body : ∀ inv, face.invokeBody inv =
    Wrapper.behind wrappers (object.invokeBody (Wrapper.derived wrappers inv))
  buffer : ∀ inv, face.invoke inv =
    Wrapper.behind wrappers (object.invokeBody (Wrapper.derived wrappers inv) >>=
      collected outside (Wrapper.derived wrappers inv))

/-- In the invocations a stack derives, an endpoint answers with no stream. -/
def AnswersWhole (object : EndpointObject σ ω) (wrappers : List (Wrapper σ)) : Prop :=
  ∀ inv state answer,
    ((object.invokeBody (Wrapper.derived wrappers inv)).run.run (Wrapper.hung wrappers state)).1 =
      .ok answer → answer.body.asBytes.isSome = true

omit [Space σ] in
/-- Collecting what is held whole does nothing. -/
theorem collected_whole (outside : Outside σ ω) (inv : Invocation σ) (answer : Representation)
    (held : answer.body.asBytes.isSome = true) :
    (collected outside inv answer : Effect ω Buffered) = pure ⟨answer, held⟩ :=
  dif_pos held

omit [Space σ] in
/-- A collected body is the body itself exactly where the answer is no stream. -/
theorem collected_same_iff (outside : Outside σ ω) (inv : Invocation σ)
    (act : Effect ω Representation) (state : RunState ω) :
    (Buffered.intoBody <$> (act >>= collected outside inv)).run.run state = act.run.run state ↔
      ∀ answer, (act.run.run state).1 = .ok answer → answer.body.asBytes.isSome = true := by
  rw [Effect.run_map]
  cases came : act.run.run state with
  | mk result after =>
    cases result with
    | error error =>
      rw [Effect.run_bind_error came]
      constructor
      · intro _ answer same
        cases same
      · intro _
        rfl
    | ok answer =>
      rw [Effect.run_bind_ok came]
      constructor
      · intro same answer' own
        cases own
        by_contra stream
        have drained : (collected outside inv answer : Effect ω Buffered) =
            inv.collect outside answer.body >>= fun data =>
              pure ⟨{ answer with body := .bytes data }, rfl⟩ :=
          dif_neg stream
        rw [drained] at same
        have results := congrArg Prod.fst same
        cases read : ((inv.collect outside answer.body : Effect ω (List UInt8))).run.run after with
        | mk outcome later =>
          cases outcome with
          | error error =>
            rw [Effect.run_bind_error read] at results
            cases results
          | ok data =>
            rw [Effect.run_bind_ok read] at results
            have body : Representation.mk answer.reprType (.bytes data) answer.expiry answer.threads
                answer.validator answer.revalidated = answer := Except.ok.inj results
            rw [← body] at stream
            exact stream rfl
      · intro whole
        rw [collected_whole outside inv answer (whole answer rfl)]
        rfl

omit [Space σ] in
/-- With nothing to settle and nothing offered, the kernel invokes the endpoint itself. -/
theorem settle_nothing (outside : Outside σ ω) (endpoint : EndpointObject σ ω)
    (request : Request) (references : Option References)
    (nothing : pendingReferences request references = []) :
    settleReferences outside endpoint request references none = endpoint := by
  rw [settleReferences, settledByContract, nothing]
  rfl

/-- A stack's body face is the endpoint's own body exactly where nothing confines, or the endpoint
answers with no stream. -/
theorem body_handed_on_iff (outside : Outside σ ω) (object : EndpointObject σ ω)
    (wrappers : List (Wrapper σ)) (contract : object.Collects outside) :
    (∀ inv, (Wrapper.wrapAll wrappers object).invokeBody inv =
      Wrapper.behind wrappers (object.invokeBody (Wrapper.derived wrappers inv))) ↔
    (∀ wrapper ∈ wrappers, wrapper.confines = false) ∨ object.AnswersWhole wrappers := by
  by_cases open_ : ∀ wrapper ∈ wrappers, wrapper.confines = false
  · exact ⟨fun _ => .inl open_, fun _ inv => Wrapper.wrap_all_invoke_body wrappers object inv open_⟩
  · have confined : ∃ wrapper ∈ wrappers, wrapper.confines = true := by
      simpa using open_
    constructor
    · intro same
      refine .inr fun inv state => ?_
      have own := same inv
      rw [Wrapper.wrap_all_confined wrappers object inv confined, contract] at own
      have runs := congrArg (fun act : Effect ω Representation => act.run.run state) own
      exact (collected_same_iff outside _ _ _).mp runs
    · rintro (none | whole) inv
      · exact absurd none open_
      · rw [Wrapper.wrap_all_confined wrappers object inv confined, contract]
        apply Effect.ext
        intro state
        rw [Wrapper.run_behind, Wrapper.run_behind]
        exact (collected_same_iff outside _ _ _).mpr (whole inv state)

/-- A stack of wrappers, whatever their order, hands on all an endpoint says and both its faces
exactly where nothing in it confines or the endpoint answers with no stream. -/
theorem wrappers_transparent_iff (outside : Outside σ ω) (object : EndpointObject σ ω)
    (wrappers : List (Wrapper σ)) (request : Request) (references : Option References)
    (contract : object.Collects outside)
    (nothing : pendingReferences request references = []) :
    Transparent outside object wrappers
      (settleReferences outside (Wrapper.wrapAll wrappers object) request references none) ↔
    (∀ wrapper ∈ wrappers, wrapper.confines = false) ∨ object.AnswersWhole wrappers := by
  rw [settle_nothing outside _ request references nothing,
    ← body_handed_on_iff outside object wrappers contract]
  constructor
  · exact Transparent.body
  · intro body
    refine ⟨Wrapper.wrap_all_name wrappers object, Wrapper.wrap_all_forwards wrappers object,
      Wrapper.wrap_all_describe wrappers object, Wrapper.wrap_all_confinement wrappers object,
      body, fun inv => ?_⟩
    rw [Wrapper.wrap_all_invoke, contract]

end EndpointObject

end Stacks

namespace StreamConfined

local instance anyDigest : Blake3 := ⟨fun bytes => bytes.length.toUInt64⟩

/-- A space that answers no name and claims none. -/
inductive Closed where
  | closed

local instance closedSpace : Space Closed where
  resolve := fun _ _ _ => .miss
  id := fun _ => none
  topology := fun _ => .node none .other [] none

/-- Nothing answers a sub-request, and each stream yields one byte. -/
def outside : Outside Closed Unit where
  answer := fun _ request cells rest => ((.error (.unresolved request.target), .none), cells, rest)
  chunks := fun _ rest => ([.ok [0x61]], rest)

def streamed : Representation where
  reprType := ⟨"text/plain".toList, []⟩
  body := .once 1
  expiry := .always
  threads := OrderedSet.empty
  validator := none
  revalidated := false

/-- An endpoint that streams, and collects for its buffer face. -/
def streaming : EndpointObject Closed Unit where
  name := "stream".toList
  describe := { id := "stream".toList }
  forwards := none
  confinement := none
  isLimiter := false
  invoke := fun inv => pure streamed >>= EndpointObject.collected outside inv
  invokeBody := fun _ => pure streamed

/-- The example streams what it would collect. -/
theorem collects : streaming.Collects outside := fun _ => rfl

def asked : Request := Request.new .source "urn:stream".toList

/-- A thread hands the stream on. -/
theorem threaded_stream :
    EndpointObject.Transparent outside streaming [.threaded "urn:thread".toList]
      (EndpointObject.settleReferences outside
        (Wrapper.wrapAll [.threaded "urn:thread".toList] streaming) asked none none) :=
  (EndpointObject.wrappers_transparent_iff outside streaming [.threaded "urn:thread".toList] asked
    none collects rfl).mpr (.inl (by simp [Wrapper.confines]))

/-- A confinement collects it. -/
theorem confined_stream_collected :
    ¬ ∀ (wrappers : List (Wrapper Closed)) (request : Request),
      EndpointObject.pendingReferences request none = [] →
        EndpointObject.Transparent outside streaming wrappers
          (EndpointObject.settleReferences outside (Wrapper.wrapAll wrappers streaming) request
            none none) := by
  intro transparent
  have body := (transparent [.confine "urn:context".toList .closed rfl] asked rfl).body
    ⟨asked, [], .root, .empty, 0, ⟨none, none, none⟩⟩
  have runs := congrArg (fun act : Effect Unit Representation =>
    (act.run.run ⟨.empty, [], ()⟩).1.toOption.map Representation.body) body
  cases runs

end StreamConfined

end Ikigai
