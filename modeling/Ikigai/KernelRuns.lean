import Ikigai.Dependencies
import Ikigai.DynamicSpace
import Ikigai.InvocationTree
import Ikigai.NoStaleServe
import Ikigai.Transitions

/-!
# Runs of the kernel

Any number of requests on their way through the issue path at once, each one a frame that
moves by single steps: one step for each hold of the cache's lock, one for each thing its
endpoint does through its invocation, and one for each step of the transreption that turns a
description into the requested type. What a name resolves to, whom the floor admits
and what an endpoint computes are not modelled here: a step may take any of them. A
request reads the clock when it begins and when its answer is stored; any reading may come
up, and none at all on a kernel without a clock. One dynamic space may be in the
arrangement; its binds run beside the requests.

Beside the state each frame, and each thing the cache holds, carries the facts it was
computed from. They say what was relied on, which threads revoke it, how long it is good
for and since when it stands; no step reads them, but for whether a door was entered.
-/

namespace Ikigai

/-- `Revalidate::refreshed`: "still valid" becomes the offered body, under the answer's
expiry and with its validator if it carries one. A body that cannot be read again fails,
as any endpoint may. -/
def refreshed (offer : Option Offer) (answer : Representation) : Option Representation :=
  match offer with
  | none => some answer
  | some offer =>
    if !answer.revalidated then some answer
    else
      offer.stored.share.map fun stored =>
        { stored with
          expiry := answer.expiry
          validator := if answer.validator.isSome then answer.validator else stored.validator }

/-- Whether an answer is stored: not when it is volatile, timed without a clock, expired
with no validator, or readable once. -/
def storable (now : Option Time) (answer : Representation) : Bool :=
  !answer.body.isOneShot &&
    match answer.expiry, now with
    | .always, _ => false
    | .never, _ => true
    | .«at» _, none => false
    | .«at» deadline, some now => decide (now < deadline) || answer.validator.isSome

/-- Whether a kernel operation's answer is stored: not when it is volatile, or timed without
a clock. -/
def operationStorable (now : Option Time) (answer : Representation) : Bool :=
  match answer.expiry with
  | .always => false
  | .never => true
  | .«at» _ => now.isSome

/-- A kernel operation's answer, under its upstream. -/
def operationAnswer (incoming : Option Provenance) (answer : Representation) : Representation :=
  match incoming with
  | none => answer
  | some incoming =>
    { answer with
      expiry := answer.expiry.mostRestrictive incoming.expiry
      threads := answer.threads.extend incoming.threads.items }

/-- The operations of one cut: recorded and published apart, or at once when someone
listens. -/
def cutOps (listened : Bool) (thread : Thread) : List CacheOp :=
  if listened then [.cutWith thread] else [.recordCut thread, .publish]

/-- The cut a request that ran makes. -/
def writeCut (verb : Verb) (listened : Bool) (canonical : Iri) : List CacheOp :=
  if verb.isMutating then cutOps listened canonical else []

/-- Forget the entry an offer was made from. -/
def discardOps (key : CacheKey) (offer : Option Offer) : List CacheOp :=
  match offer with
  | none => []
  | some offer => [.discard key (some offer)]

/-- What a computation relied on. -/
inductive About where
  /-- What the resource of this name holds. -/
  | read (canonical : Iri)
  /-- What a sub-request for this name came to. -/
  | heard (requested : Iri)
  /-- A thread its endpoint declared, or a body it read once. -/
  | declared
  /-- What the endpoint said of its answer. -/
  | answered
  /-- A door of the arrangement in force at this version. -/
  | door (version : Nat)
  /-- That a description was transrepted behind a door of this version. -/
  | behind (version : Nat)
  /-- That a name came to nothing under the arrangement in force at this version. -/
  | missed (version : Nat)
  /-- That the request was as deep as it was. -/
  | depth
  /-- What produced its input. -/
  | upstream
  /-- A description of what is bound. -/
  | described
  /-- How long its endpoint lets a failure stand. -/
  | stated
  /-- How long the host lets a failure stand. -/
  | ceiling
  /-- This body, as it was computed. -/
  | computed (body : Body)
deriving DecidableEq

/-- The arrangement a computation found a door in. -/
def About.doorOf : About → Option Nat
  | .door version | .behind version => some version
  | _ => none

/-- Something relied on, the threads that revoke it, how long it is good for, and the number
of the last cut before it was established; whether it came with a sub-request, whether its
time was moved, by a revalidation that vouched for it or by a description, and whether it
came through the transreption of a description. -/
structure Fact where
  about : About
  threads : ThreadSet
  expiry : Expiry
  since : Nat
  inherited : Bool
  extended : Bool
  turned : Bool
deriving DecidableEq

/-- A fact of one's own. -/
abbrev Fact.own (about : About) (threads : ThreadSet) (expiry : Expiry) (since : Nat) : Fact :=
  ⟨about, threads, expiry, since, false, false, false⟩

/-- A fact of one's own that no thread revokes. -/
def Fact.timed (about : About) (expiry : Expiry) (since : Nat) : Fact :=
  .own about OrderedSet.empty expiry since

/-- A fact of one's own that one thread revokes. -/
def Fact.on (about : About) (thread : Thread) (since : Nat) : Fact :=
  .own about (OrderedSet.ofList [thread]) .never since

/-- What something the cache holds was computed from: how many cuts had been recorded when
its computation began, and the facts. -/
structure Credit where
  began : Nat
  facts : List Fact
deriving DecidableEq

/-- When what is held runs out. -/
def Held.expiry : Held → Expiry
  | .answer representation => representation.expiry
  | .failed failure => .«at» failure.until_

/-- Something out of the cache: what was held, for what, and how many cuts had been recorded
by then. -/
structure FromCache where
  held : Held
  credit : Credit
  cuts : Nat
deriving DecidableEq

/-- What a request was resolved and admitted to: its canonical name and its key, whether
the kernel answers it itself, and the version of the dynamic space it was found in. -/
structure Dispatch where
  canonical : Iri
  key : CacheKey
  operation : Bool
  door : Option Nat
deriving DecidableEq

/-- An issue's result, and the dependencies it hands back beside an error. -/
abbrev Issued := Outcome

/-- How far a request is. While a description is transrepted: the frame of the step that is on
its way, what the last step answered, and the versions whose doors its steps went through. -/
inductive Stage where
  | arrived
  | admitted
  | checked
  | running (offer : Option Offer) (recorded : Recorded)
  | turning (offer : Option Offer) (awaited : Option Nat) (current : Option Representation)
      (doors : List Nat)
  | closing (pending : List CacheOp) (issued : Issued)
  | delivered

/-- One request on its way: what it asked, under which clock reading and snapshot, who
issued it and how far it is. -/
structure Frame where
  parent : Option Nat
  requested : Iri
  verb : Verb
  buffer : Bool
  incoming : Option Provenance
  now : Option Time
  taken : Nat
  began : Nat
  dispatch : Option Dispatch
  stage : Stage
  facts : List Fact
  stale : Option Offer
  offered : Option FromCache
  served : Option FromCache
  wrote : Option Nat

/-- An accepted bind on its way: its version, the cuts it still makes, and the cuts recorded
when it swapped and made since. -/
structure Install where
  version : Nat
  swapped : Nat
  pending : List CacheOp
  made : List (Thread × Nat)

/-- What a key stands for. Identities are content digests of verb, canonical name and
arguments. -/
structure Inquiry where
  verb : Verb
  canonical : Iri
  operation : Bool
deriving DecidableEq

/-- The kernel's fixed parts. -/
structure Host (π δ : Type) where
  policy : π
  ceiling : Nat
  asked : CacheKey → Inquiry
  spaceThread : Thread
  binder : Binder δ

structure KernelState (δ : Type) where
  ops : List CacheOp
  frames : KeyedMap Nat Frame
  credits : CacheKey → Bool → Credit
  space : DynamicState δ
  installs : KeyedMap Nat Install

variable {π δ : Type}

namespace KernelState

def initial (inner : δ) : KernelState δ :=
  ⟨[], ∅, fun _ _ => ⟨0, []⟩, .empty inner, ∅⟩

/-- How many cuts have been recorded. -/
def cuts (state : KernelState δ) : Nat := (cutsOf state.ops).length

/-- Replace a frame. -/
def set (state : KernelState δ) (id : Nat) (frame : Frame) : KernelState δ :=
  { state with frames := state.frames.insert id frame }

/-- One operation on the cache, and the credit of what it filed. -/
def perform [CachePolicy π] (policy : π) (state : KernelState δ) (op : CacheOp)
    (credit : Credit) : KernelState δ :=
  { state with
    ops := state.ops ++ [op]
    credits := fun key failure =>
      match op.filing with
      | none => state.credits key failure
      | some filing =>
        if ((ReprCache.after policy state.ops).perform op).2.took = true ∧ key = filing.key ∧
          failure = filing.held.isFailure then credit
        else state.credits key failure }

/-- An operation that files nothing. -/
def observe (state : KernelState δ) (op : CacheOp) : KernelState δ :=
  { state with ops := state.ops ++ [op] }

end KernelState

/-- What an answer to a verb read of its own target. -/
def readFacts (verb : Verb) (canonical : Iri) (taken : Nat) : List Fact :=
  match verb with
  | .source | .exists => [Fact.on (.read canonical) canonical taken]
  | .sink | .delete | .«meta» => []

/-- What an upstream limits. -/
def upstreamFacts (incoming : Option Provenance) (taken : Nat) : List Fact :=
  match incoming with
  | none => []
  | some incoming => [.own .upstream incoming.threads incoming.expiry taken]

/-- A refusal relies on nothing that is kept track of, unless it is for depth or for a name
that came to nothing. -/
def refusalFacts (error : Error) (version taken : Nat) : List Fact :=
  match error with
  | .depthExceeded _ _ => [Fact.timed .depth .always taken]
  | .unresolved _ => [Fact.timed (.missed version) .never taken]
  | _ => []

/-- A fact as a caller comes by it. -/
def Fact.passedOn (fact : Fact) : Fact := { fact with inherited := true }

/-- A fact behind a body whose deadline a revalidation moved. -/
def Fact.vouched (fact : Fact) : Fact := { fact with extended := true }

/-- The facts behind the body an answer brings: the offered one's, whose deadlines are moved,
or its own computing. -/
def bodyFacts (offer : Option Offer) (offered : Option FromCache) (given final : Representation)
    (taken : Nat) : List Fact :=
  if offer.isSome && given.revalidated then
    offered.elim [] fun offered => offered.credit.facts.map Fact.vouched
  else [.own (.computed final.body) final.threads final.expiry taken]

/-- What a description's face relies on itself: what is bound, the door it was found behind
and those its transreption went through, all of it revoked by the binding thread. -/
def describedFacts (door : Option Nat) (doors : List Nat) (bound : Expiry) (taken : Nat) :
    List Fact :=
  .own .described (OrderedSet.ofList [bindingsThread]) bound taken ::
    (door.elim [] fun version => [Fact.on (.door version) bindingsThread taken]) ++
    doors.map fun version => Fact.on (.behind version) bindingsThread taken

/-- A fact as a description comes by it, which is kept until the bindings change. -/
def Fact.turnedOn (fact : Fact) : Fact :=
  { fact with inherited := true, extended := true, turned := true }

/-- The doors behind facts that did not come through a description. -/
def doorsOf (facts : List Fact) : List Nat :=
  facts.filterMap fun fact => if fact.turned then none else fact.about.doorOf

namespace Frame

/-- A frame ends with an issue's result, with cache operations still to make. -/
def close (frame : Frame) (pending : List CacheOp) (issued : Issued) (facts : List Fact) : Frame :=
  { frame with stage := .closing pending issued, facts := facts }

/-- After the failures were asked. -/
def afterFailure (frame : Frame) (credit : Credit) (cuts : Nat) : Option CachedFailure → Frame
  | some failure =>
    { frame.close [] ⟨.error failure.error,
        ⟨.«at» failure.until_, failure.threads, some failure.until_⟩⟩ credit.facts with
      served := some ⟨.failed failure, credit, cuts⟩ }
  | none => { frame with stage := .checked }

/-- After the lookup. -/
def afterLookup (frame : Frame) (credit : Credit) (cuts : Nat) : Served Answer → Frame
  | .hit (.body answer) | .hit (.buffer answer) =>
    { frame.close [] ⟨.ok answer, .none⟩ credit.facts with
      served := some ⟨.answer answer, credit, cuts⟩ }
  | .offer stale =>
    { frame with
      stage := .running (some stale) .empty
      stale := some stale
      offered := some ⟨.answer stale.stored, credit, cuts⟩ }
  | .miss => { frame with stage := .running none .empty }

/-- What is relied on by whoever hears of a frame's result: what was heard, and the frame's own
facts. -/
def heardFacts (frame : Frame) (heard : Heard) (taken : Nat) : List Fact :=
  .own (.heard frame.requested) heard.threads heard.expiry taken :: frame.facts.map Fact.passedOn

/-- What a description relies on through one of its steps. -/
def turnFacts (step : Frame) (heard : Heard) (taken : Nat) : List Fact :=
  (step.heardFacts heard taken).map Fact.turnedOn

/-- The record and one more fact, while the endpoint runs. -/
def note (frame : Frame) (offer : Option Offer) (recorded : Recorded) (facts : List Fact) : Frame :=
  { frame with stage := .running offer recorded, facts := facts ++ frame.facts }

end Frame

/-- What an endpoint says through its invocation. -/
inductive Declaration where
  | thread (name : Thread)
  | oneShot
  | failureUntil (deadline : Time)

namespace Declaration

def apply : Declaration → Recorded → Recorded
  | .thread named, recorded => recorded.dependsOn named
  | .oneShot, recorded => recorded.oneShot
  | .failureUntil until_, recorded => recorded.failureExpiresAt until_

def facts (taken : Nat) : Declaration → List Fact
  | .thread named => [Fact.on .declared named taken]
  | .oneShot => [Fact.timed .declared .always taken]
  | .failureUntil _ => []

end Declaration

/-- The cache operations after an endpoint answered. -/
def answerOps (verb : Verb) (listened : Bool) (dispatch : Dispatch) (offer : Option Offer)
    (now : Option Time) (final : Representation) (taken : Nat) (costMillis : Option Nat)
    (incoming : Option Provenance) : List CacheOp :=
  if verb.isCacheable then
    discardOps dispatch.key offer ++
      if storable now final then
        [.store dispatch.key dispatch.canonical final taken costMillis incoming]
      else []
  else writeCut verb listened dispatch.canonical

/-- The store of a failure, when it may be cached, and until when. -/
def failureStore (ceiling : Nat) (frame : Frame) (dispatch : Dispatch) (recorded : Recorded)
    (error : Error) (now : Option Time) : Option (Time × CacheOp) :=
  if frame.verb.isCacheable then
    (failureToStore ceiling now error recorded.failureUntil
      (recorded.failureDependencies dispatch.canonical) frame.incoming).map fun stored =>
        (stored.1, .storeFailure dispatch.key dispatch.canonical error stored.1 stored.2
          frame.taken frame.incoming)
  else none

/-- What letting a failure stand relies on: what its endpoint and the host allow it, and
its upstream. -/
def standingFacts (ceiling : Nat) (frame : Frame) (recorded : Recorded) (now : Option Time) :
    List Fact :=
  (recorded.failureUntil.elim [] fun said => [Fact.timed .stated (.«at» said) frame.taken]) ++
    (now.elim [] fun read =>
      [Fact.timed .ceiling (.«at» (saturatingAdd read (min ceiling wordMax))) frame.taken]) ++
    upstreamFacts frame.incoming frame.taken

/-- What a failed invocation relied on. -/
def failureFacts (frame : Frame) (dispatch : Dispatch) : List Fact :=
  readFacts frame.verb dispatch.canonical frame.taken ++ frame.facts

/-- What an answered invocation relied on. -/
def answerFacts (frame : Frame) (dispatch : Dispatch) (offer : Option Offer)
    (given final : Representation) : List Fact :=
  Fact.timed .answered given.expiry frame.taken ::
    bodyFacts offer frame.offered given final frame.taken ++
    upstreamFacts frame.incoming frame.taken ++
    readFacts frame.verb dispatch.canonical frame.taken ++ frame.facts

/-- What a run is said to be careful about: that no collect loses anything, and that no
transreption of a description does. -/
structure Care where
  collects : Prop
  turns : Prop

/-- Care about nothing. -/
def Care.nothing : Care := ⟨False, False⟩

/-- Care about collects alone. -/
def Care.collected : Care := ⟨True, False⟩

/-- Care about both. -/
def Care.both : Care := ⟨True, True⟩

/-- A step of a transreption that answered loses nothing: its answer may be kept, and the
answer before it, whose bytes alone it was handed, hung from nothing. -/
def TurnKeeps (current : Option Representation) (answer : Representation) : Prop :=
  answer.expiry ≠ .always ∧ ∀ earlier, current = some earlier → ∀ thread, thread ∉ earlier.threads

/-- A step of a transreption that failed as a miss loses nothing: the name that came to nothing
is in the error, and the steps hung from nothing else. -/
def BareKeeps (requested : Iri) (current : Option Representation)
    (result : Except Error Representation) (carried : Dependencies) : Prop :=
  ∀ name depended, hear requested result carried = .miss name depended →
    result = .error (.unresolved name) ∧ depended.expiry ≠ .always ∧
      (∀ thread ∈ depended.threads, thread = name) ∧
      ∀ earlier, current = some earlier → ∀ thread, thread ∉ earlier.threads

/-- A collect that loses nothing of an answer: no streamed answer with a deadline or a
thread of its own fails as a miss while it is collected. -/
def LosesNothing (requested : Iri) (reading : Reading) (issued : Issued) : Prop :=
  ∀ answer name carried, issued.result = .ok answer →
    hear requested (reading.received issued.result) issued.carried = .miss name carried →
      ¬Sub.Loses answer name

namespace KernelState

/-- A request begins: its snapshot is taken before anything else. -/
def arrive [CachePolicy π] (policy : π) (state : KernelState δ) (id : Nat) (parent : Option Nat)
    (requested : Iri) (verb : Verb) (buffer : Bool) (incoming : Option Provenance)
    (now : Option Time) : KernelState δ :=
  (state.observe .snapshot).set id
    ⟨parent, requested, verb, buffer, incoming.filter Provenance.contributes, now,
      (ReprCache.after policy state.ops).snapshot, state.cuts, none, .arrived, [], none, none,
      none, none⟩

/-- An accepted bind: the swap, with the cuts still to make. -/
def bound (state : KernelState δ) (binder : Binder δ) (spaceThread : Thread) (id : Nat)
    (candidate : Candidate δ) (objection : Option Text) (now : Option Time)
    (listened : Bool × Bool) : KernelState δ :=
  { state with
    space := state.space.offered binder objection now candidate
    installs := state.installs.insert id
      ⟨state.space.installs + 1, state.cuts,
        cutOps listened.1 spaceThread ++ cutOps listened.2 bindingsThread, []⟩ }

end KernelState

/-- Whether a frame's endpoint runs: not for a description, nor for what the kernel answers
itself. -/
def Frame.invoked (frame : Frame) (dispatch : Dispatch) : Prop :=
  frame.dispatch = some dispatch ∧ frame.verb ≠ .«meta» ∧ dispatch.operation = false

/-- Whether the kernel answers a frame with a description. -/
def Frame.describes (frame : Frame) (dispatch : Dispatch) : Prop :=
  frame.dispatch = some dispatch ∧ frame.verb = .«meta» ∧ dispatch.operation = false

/-- A door of the dynamic space was entered, where the frame was resolved to one: nothing
behind it answers, or says how long a failure stands, before that. -/
def Frame.entered (frame : Frame) (dispatch : Dispatch) : Prop :=
  ∀ version, dispatch.door = some version →
    ∃ fact ∈ frame.facts, fact.about = .door version ∧ fact.inherited = false

/-- One step of the kernel, which loses nothing of what the run is careful about. -/
inductive KernelStep [CachePolicy π] (host : Host π δ) (care : Care) :
    KernelState δ → KernelState δ → Prop where
  /-- The host, a kernel operation or a readout uses the cache. -/
  | hosted (state : KernelState δ) (op : CacheOp) (files : op.filing = none) :
      KernelStep host care state (state.observe op)
  | refuseBind (state : KernelState δ) (candidate : Candidate δ) (objection : Option Text)
      (now : Option Time) (refusal : DynamicRefusal)
      (refused : host.binder.verdict objection candidate = .error refusal) :
      KernelStep host care state
        { state with space := state.space.offered host.binder objection now candidate }
  | bind (state : KernelState δ) (id : Nat) (candidate : Candidate δ) (objection : Option Text)
      (now : Option Time) (listened : Bool × Bool) (declared : δ)
      (fresh : state.installs.lookup id = none)
      (accepted : host.binder.verdict objection candidate = .ok declared) :
      KernelStep host care state
        (state.bound host.binder host.spaceThread id candidate objection now listened)
  | cutBound (state : KernelState δ) (id : Nat) (install : Install) (op : CacheOp)
      (rest : List CacheOp) (held : state.installs.lookup id = some install)
      (next : install.pending = op :: rest) :
      KernelStep host care state
        { state.observe op with
          installs := state.installs.insert id
            { install with
              pending := rest
              made := op.cutThread.toList.map (fun thread => (thread, state.cuts)) ++
                install.made } }
  | arrive (state : KernelState δ) (id : Nat) (parent : Option Nat) (requested : Iri)
      (verb : Verb) (buffer : Bool) (incoming : Option Provenance) (now : Option Time)
      (fresh : state.frames.lookup id = none)
      (issued : ∀ issuer, parent = some issuer → incoming = none ∧
        ∃ frame dispatch offer recorded, state.frames.lookup issuer = some frame ∧
          frame.invoked dispatch ∧ frame.stage = .running offer recorded) :
      KernelStep host care state
        (state.arrive host.policy id parent requested verb buffer incoming now)
  /-- Anything that fails before the endpoint is entered, a description that cannot be
  rendered, and a kernel operation that fails. -/
  | refuse (state : KernelState δ) (id : Nat) (frame : Frame) (error : Error)
      (held : state.frames.lookup id = some frame)
      (early : frame.stage = .arrived ∨ ∃ dispatch offer recorded,
        frame.stage = .running offer recorded ∧ frame.dispatch = some dispatch ∧
          ¬frame.invoked dispatch) :
      KernelStep host care state
        (state.set id
          (frame.close [] ⟨.error error, .none⟩
            (refusalFacts error state.space.installs frame.taken)))
  | resolve (state : KernelState δ) (id : Nat) (frame : Frame) (dispatch : Dispatch)
      (held : state.frames.lookup id = some frame) (stage : frame.stage = .arrived)
      (stands : host.asked dispatch.key = ⟨frame.verb, dispatch.canonical, dispatch.operation⟩)
      (door : dispatch.door = none ∨ dispatch.door = some state.space.installs) :
      KernelStep host care state
        (state.set id { frame with dispatch := some dispatch, stage := .admitted })
  /-- A verb that is never cached goes straight to its endpoint. -/
  | enter (state : KernelState δ) (id : Nat) (frame : Frame)
      (held : state.frames.lookup id = some frame) (stage : frame.stage = .admitted)
      (verb : frame.verb.isCacheable = false) :
      KernelStep host care state (state.set id { frame with stage := .running none .empty })
  /-- The failures are not asked while there never was one, nor for a kernel operation. -/
  | skipFailures (state : KernelState δ) (id : Nat) (frame : Frame) (dispatch : Dispatch)
      (held : state.frames.lookup id = some frame) (stage : frame.stage = .admitted)
      (verb : frame.verb.isCacheable = true) (dispatched : frame.dispatch = some dispatch)
      (unasked : dispatch.operation = true ∨
        (ReprCache.after host.policy state.ops).failedOnce = false) :
      KernelStep host care state (state.set id { frame with stage := .checked })
  | askFailure (state : KernelState δ) (id : Nat) (frame : Frame) (dispatch : Dispatch)
      (held : state.frames.lookup id = some frame) (stage : frame.stage = .admitted)
      (verb : frame.verb.isCacheable = true) (dispatched : frame.dispatch = some dispatch)
      (endpoint : dispatch.operation = false) :
      KernelStep host care state
        ((state.observe (.getFailure dispatch.key frame.now frame.incoming)).set id
          (frame.afterFailure (state.credits dispatch.key true) state.cuts
            ((ReprCache.after host.policy state.ops).getFailure dispatch.key frame.now
              frame.incoming).2))
  | look (state : KernelState δ) (id : Nat) (frame : Frame) (dispatch : Dispatch)
      (held : state.frames.lookup id = some frame) (stage : frame.stage = .checked)
      (dispatched : frame.dispatch = some dispatch) :
      KernelStep host care state
        ((state.observe (.lookup dispatch.key frame.now frame.buffer frame.incoming
            (!dispatch.operation))).set id
          (frame.afterLookup (state.credits dispatch.key false) state.cuts
            ((ReprCache.after host.policy state.ops).lookup dispatch.key frame.now frame.buffer
              frame.incoming (!dispatch.operation)).2))
  | declare (state : KernelState δ) (id : Nat) (frame : Frame) (dispatch : Dispatch)
      (offer : Option Offer) (recorded : Recorded) (declaration : Declaration)
      (held : state.frames.lookup id = some frame) (invoked : frame.invoked dispatch)
      (stage : frame.stage = .running offer recorded) :
      KernelStep host care state
        (state.set id
          (frame.note offer (declaration.apply recorded) (declaration.facts frame.taken)))
  /-- The door of a dynamic space names the space's thread as it is entered. -/
  | enterDoor (state : KernelState δ) (id : Nat) (frame : Frame) (dispatch : Dispatch)
      (offer : Option Offer) (recorded : Recorded) (version : Nat)
      (held : state.frames.lookup id = some frame) (invoked : frame.invoked dispatch)
      (stage : frame.stage = .running offer recorded) (door : dispatch.door = some version) :
      KernelStep host care state
        (state.set id (frame.note offer (recorded.dependsOn host.spaceThread)
          [Fact.on (.door version) host.spaceThread frame.taken]))
  | deliver (state : KernelState δ) (id issuer : Nat) (child frame : Frame) (dispatch : Dispatch)
      (offer : Option Offer) (recorded : Recorded) (issued : Issued) (reading : Reading)
      (there : state.frames.lookup id = some child) (issuedBy : child.parent = some issuer)
      (done : child.stage = .closing [] issued)
      (held : state.frames.lookup issuer = some frame) (invoked : frame.invoked dispatch)
      (stage : frame.stage = .running offer recorded)
      (taken : reading = .body ↔ child.buffer = false)
      (kept : care.collects → LosesNothing child.requested reading issued) :
      KernelStep host care state
        ((state.set id { child with stage := .delivered }).set issuer
          (frame.note offer
            (recorded.record child.requested (reading.received issued.result) issued.carried)
            (child.heardFacts
              (hear child.requested (reading.received issued.result) issued.carried)
              frame.taken)))
  | answer (state : KernelState δ) (id : Nat) (frame : Frame) (dispatch : Dispatch)
      (offer : Option Offer) (recorded : Recorded) (given answer : Representation)
      (now : Option Time) (costMillis : Option Nat) (listened : Bool)
      (held : state.frames.lookup id = some frame) (invoked : frame.invoked dispatch)
      (stage : frame.stage = .running offer recorded) (entered : frame.entered dispatch)
      (body : refreshed offer given = some answer) (stored : answer.revalidated = false) :
      KernelStep host care state
        (state.set id
          (frame.close
            (answerOps frame.verb listened dispatch offer now
              (settled dispatch.canonical recorded frame.incoming answer) frame.taken costMillis
              frame.incoming)
            ⟨.ok (settled dispatch.canonical recorded frame.incoming answer), .none⟩
            (answerFacts frame dispatch offer given
              (settled dispatch.canonical recorded frame.incoming answer))))
  /-- "Still valid" from an invocation that was offered nothing. -/
  | unoffered (state : KernelState δ) (id : Nat) (frame : Frame) (dispatch : Dispatch)
      (offer : Option Offer) (recorded : Recorded) (given answer : Representation)
      (listened : Bool)
      (held : state.frames.lookup id = some frame) (invoked : frame.invoked dispatch)
      (stage : frame.stage = .running offer recorded) (entered : frame.entered dispatch)
      (body : refreshed offer given = some answer) (stands : answer.revalidated = true) :
      KernelStep host care state
        (state.set id
          (frame.close (writeCut frame.verb listened dispatch.canonical)
            ⟨.error (.endpoint unofferedDetail), .none⟩ frame.facts))
  | fail (state : KernelState δ) (id : Nat) (frame : Frame) (dispatch : Dispatch)
      (offer : Option Offer) (recorded : Recorded) (error : Error) (now : Option Time)
      (listened : Bool)
      (held : state.frames.lookup id = some frame) (invoked : frame.invoked dispatch)
      (stage : frame.stage = .running offer recorded)
      (unstored : failureStore host.ceiling frame dispatch recorded error now = none) :
      KernelStep host care state
        (state.set id
          (frame.close
            (writeCut frame.verb listened dispatch.canonical ++ discardOps dispatch.key offer)
            ⟨.error error, recorded.failureDependencies dispatch.canonical⟩
            (failureFacts frame dispatch)))
  | failStored (state : KernelState δ) (id : Nat) (frame : Frame) (dispatch : Dispatch)
      (offer : Option Offer) (recorded : Recorded) (error : Error) (now : Option Time)
      (listened : Bool) (until_ : Time) (op : CacheOp)
      (held : state.frames.lookup id = some frame) (invoked : frame.invoked dispatch)
      (stage : frame.stage = .running offer recorded) (entered : frame.entered dispatch)
      (stored : failureStore host.ceiling frame dispatch recorded error now = some (until_, op)) :
      KernelStep host care state
        ((state.perform host.policy op
            ⟨frame.began, standingFacts host.ceiling frame recorded now ++
              failureFacts frame dispatch⟩).set id
          (frame.close
            (writeCut frame.verb listened dispatch.canonical ++ discardOps dispatch.key offer)
            ⟨.error error, failedDependencies (recorded.failureDependencies dispatch.canonical)
              (if ((ReprCache.after host.policy state.ops).perform op).2.took = true then
                some until_ else none)⟩
            (if ((ReprCache.after host.policy state.ops).perform op).2.took = true then
                standingFacts host.ceiling frame recorded now ++ failureFacts frame dispatch
              else failureFacts frame dispatch)))
  /-- The renderer does not emit the requested type: the description is to be transrepted. -/
  | transrept (state : KernelState δ) (id : Nat) (frame : Frame) (dispatch : Dispatch)
      (offer : Option Offer) (recorded : Recorded)
      (held : state.frames.lookup id = some frame) (describes : frame.describes dispatch)
      (stage : frame.stage = .running offer recorded) :
      KernelStep host care state
        (state.set id { frame with stage := .turning offer none none [] })
  /-- The next step of a transreption: a plain request for a buffer, one at a time. -/
  | issueTurn (state : KernelState δ) (id issuer : Nat) (frame : Frame) (offer : Option Offer)
      (current : Option Representation) (doors : List Nat) (requested : Iri) (now : Option Time)
      (fresh : state.frames.lookup id = none)
      (held : state.frames.lookup issuer = some frame)
      (stage : frame.stage = .turning offer none current doors) :
      KernelStep host care state
        ((state.arrive host.policy id (some issuer) requested .source true none now).set issuer
          { frame with stage := .turning offer (some id) current doors })
  /-- A step answered: its bytes are what the next one is handed. -/
  | turn (state : KernelState δ) (id issuer : Nat) (child frame : Frame) (offer : Option Offer)
      (current : Option Representation) (doors : List Nat) (issued : Issued)
      (read : Except Error (List UInt8)) (answer : Representation)
      (there : state.frames.lookup id = some child) (issuedBy : child.parent = some issuer)
      (done : child.stage = .closing [] issued)
      (held : state.frames.lookup issuer = some frame)
      (stage : frame.stage = .turning offer (some id) current doors)
      (came : (Reading.collected read).received issued.result = .ok answer)
      (kept : care.turns → TurnKeeps current answer) :
      KernelStep host care state
        ((state.set id { child with stage := .delivered }).set issuer
          { frame with
            stage := .turning offer none (some answer) (doorsOf child.facts ++ doors)
            facts := child.turnFacts (.answer answer) frame.taken ++ frame.facts })
  /-- A step failed: the description fails with its error, and with nothing beside it. -/
  | turnFailed (state : KernelState δ) (id issuer : Nat) (child frame : Frame)
      (offer : Option Offer) (current : Option Representation) (doors : List Nat)
      (issued : Issued) (read : Except Error (List UInt8)) (error : Error)
      (there : state.frames.lookup id = some child) (issuedBy : child.parent = some issuer)
      (done : child.stage = .closing [] issued)
      (held : state.frames.lookup issuer = some frame)
      (stage : frame.stage = .turning offer (some id) current doors)
      (came : (Reading.collected read).received issued.result = .error error)
      (lossless : care.collects → LosesNothing child.requested (.collected read) issued)
      (kept : care.turns → BareKeeps child.requested current
        ((Reading.collected read).received issued.result) issued.carried) :
      KernelStep host care state
        ((state.set id { child with stage := .delivered }).set issuer
          (frame.close [] ⟨.error error, .none⟩
            (child.turnFacts
              (hear child.requested ((Reading.collected read).received issued.result)
                issued.carried) frame.taken ++ frame.facts)))
  /-- The next transreptor of the plan has no name. -/
  | unparsed (state : KernelState δ) (id : Nat) (frame : Frame) (offer : Option Offer)
      (current : Option Representation) (doors : List Nat) (detail : Text)
      (held : state.frames.lookup id = some frame)
      (stage : frame.stage = .turning offer none current doors) :
      KernelStep host care state
        (state.set id (frame.close [] ⟨.error (.endpoint detail), .none⟩ frame.facts))
  /-- The description has its face: as it was rendered, or as the last step left it. -/
  | describe (state : KernelState δ) (id : Nat) (frame : Frame) (dispatch : Dispatch)
      (offer : Option Offer) (doors : List Nat) (bound : Expiry) (rendered : Representation)
      (now : Option Time) (costMillis : Option Nat)
      (held : state.frames.lookup id = some frame) (describes : frame.describes dispatch)
      (stage : (∃ recorded, frame.stage = .running offer recorded ∧ doors = []) ∨
        frame.stage = .turning offer none (some rendered) doors) :
      KernelStep host care state
        (state.set id
          (frame.close
            (answerOps frame.verb false dispatch offer now (describedFace bound rendered) frame.taken
              costMillis frame.incoming)
            ⟨.ok (describedFace bound rendered), .none⟩
            (describedFacts dispatch.door doors bound frame.taken ++ frame.facts)))
  | operate (state : KernelState δ) (id : Nat) (frame : Frame) (dispatch : Dispatch)
      (offer : Option Offer) (recorded : Recorded) (answer : Representation)
      (now : Option Time) (costMillis : Option Nat)
      (held : state.frames.lookup id = some frame) (dispatched : frame.dispatch = some dispatch)
      (operation : dispatch.operation = true) (stage : frame.stage = .running offer recorded) :
      KernelStep host care state
        (state.set id
          (frame.close
            (if frame.verb.isCacheable &&
                operationStorable now (operationAnswer frame.incoming answer) then
              [.store dispatch.key dispatch.canonical (operationAnswer frame.incoming answer)
                frame.taken costMillis frame.incoming]
            else [])
            ⟨.ok (operationAnswer frame.incoming answer), .none⟩
            (upstreamFacts frame.incoming frame.taken)))
  /-- The next cache operation of a frame that ends. -/
  | close (state : KernelState δ) (id : Nat) (frame : Frame) (op : CacheOp)
      (rest : List CacheOp) (issued : Issued)
      (held : state.frames.lookup id = some frame)
      (stage : frame.stage = .closing (op :: rest) issued) :
      KernelStep host care state
        ((state.perform host.policy op ⟨frame.began, frame.facts⟩).set id
          { frame with
            stage := .closing rest issued
            wrote := if op.cutThread.isSome then some state.cuts else frame.wrote })

/-- What a run of the kernel reaches. -/
def KernelReached [CachePolicy π] (host : Host π δ) (care : Care) (inner : δ)
    (state : KernelState δ) : Prop :=
  Relation.ReflTransGen (KernelStep host care) (KernelState.initial inner) state

end Ikigai
