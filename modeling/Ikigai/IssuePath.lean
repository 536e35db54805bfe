import Ikigai.Arrangement
import Ikigai.KernelOps
import Ikigai.ProbeMemo
import Ikigai.ReprCache

/-!
# The issue path

A request on its way through a kernel: the kernel's own rewrite, the nesting budget, the
kernel's namespace, resolution in the chain, the canonical a space reported, the limiter,
the floor, the record for the probe, the key, and the cache. What runs once the cache has
not answered (an endpoint's invocation, a description, a kernel operation) and what
follows it is a parameter, and so is the hash behind a request's identity. Attached bodies,
traces and the readouts are left out, and so are the counters of an overlay's own table.
-/

namespace Ikigai

namespace AliasReason

def text : AliasReason → Text
  | .invalid next =>
    "rewrite produced `".toList ++ next ++ "`, which is not a valid IRI".toList
  | .cycle => "alias cycle".toList
  | .exceeded hops => "alias chain exceeded ".toList ++ (toString hops).toList ++ " hops".toList

end AliasReason

def AliasRefusal.text (refusal : AliasRefusal) : Text :=
  refusal.reason.text ++ " (".toList ++ " -> ".toList.intercalate refusal.trail ++ ")".toList

def AliasHop.text (hop : AliasHop) : Text := hop.logical ++ " -> ".toList ++ hop.canonical

def SealBreach.message (breach : SealBreach) : Text :=
  if breach.unregistered then
    "`".toList ++ breach.name ++ "` was answered through level `".toList ++
      breach.level.getD "?".toList ++
      ("`, which declares sealed names this kernel never registered — the level is hidden " ++
        "from the topology (an overlay that does not forward `Space::topology`?), so its " ++
        "seals cannot be enforced: refused").toList
  else if breach.owner = .core then
    "`".toList ++ breach.name ++
      "` is in the kernel's own namespace and was answered by a space".toList ++
      (breach.level.map fun level => " in level `".toList ++ level ++ "`".toList).getD [] ++
      (" — core answers `urn:kernel:` itself, ahead of every space, so the space rewrote a " ++
        "name into it: refused").toList
  else
    match breach.level with
    | some level =>
      "sealed name `".toList ++ breach.name ++ "` (sealed by ".toList ++ breach.owner.text ++
        ") was answered by level `".toList ++ level ++
        ("`, which does not own it — through something the topology cannot show (an opaque " ++
          "space or a closure rewrite inside the level): refused").toList
    | none =>
      "sealed name `".toList ++ breach.name ++ "` (sealed by ".toList ++ breach.owner.text ++
        (") was answered outside that level — through something the topology cannot show: " ++
          "refused").toList

/-- Whether a chain of rewrites passes through a named request. -/
def AliasTable.throughNamed (table : AliasTable) (hop : AliasHop) : Bool :=
  hop.rules.any fun index => table.rules[index]?.any AliasRule.isNamedRequest

/-- What a rule has done: its rewrites, those that landed on nothing, its refusals. -/
structure RuleCounts where
  hops : Nat
  unresolved : Nat
  refused : Nat
deriving DecidableEq

/-- Count something against each rule of a path. -/
def bump (rules : List Nat) (count : RuleCounts → RuleCounts) (counts : List RuleCounts) :
    List RuleCounts :=
  rules.foldl (fun counts index => counts.modify index count) counts

/-- What a rewrite that is not a preview adds to the counters. -/
def Canonical.counted (outcome : Canonical) (counts : List RuleCounts) : List RuleCounts :=
  match outcome with
  | .direct => counts
  | .aliased hop => bump hop.rules (fun count => { count with hops := count.hops + 1 }) counts
  | .refused refusal =>
    bump refusal.rules (fun count => { count with refused := count.refused + 1 }) counts

/-- The content address of a request. -/
class RequestHash where
  id : Request → RequestId
  capabilityKey : Capability → UInt64

namespace Endpoint

/-- A name as a number. -/
def nameAddress (name : Iri) : Nat := Encodable.encode (name.map Char.toNat)

theorem name_address_injective : Function.Injective nameAddress :=
  Encodable.encode_injective.comp
    (List.map_injective_iff.mpr fun _ _ same => Char.toNat_inj.mp same)

/-- An allocation for every endpoint. -/
def ownAddress : Endpoint → Nat
  | .bound object limiter => Nat.pair 0 (Encodable.encode (object, limiter))
  | .bottom => Nat.pair 1 0
  | .refusal logical => Nat.pair 2 (nameAddress logical)
  | .view logical canonical => Nat.pair 3 (Nat.pair (nameAddress logical) (nameAddress canonical))

/-- No two endpoints share an allocation. -/
theorem own_address_injective : Function.Injective ownAddress := by
  intro left right same
  cases left <;> cases right <;>
    simp_all [ownAddress, Nat.pair_eq_pair, name_address_injective.eq_iff]

end Endpoint

/-- What resolution and admission read of a kernel. The allocations its endpoints live in
are apart; `alive` says which of them are still held. -/
structure Kernel (σ : Type) where
  aliases : Option AliasTable
  root : σ
  seals : Seals
  streams : List (Grammar × Endpoint)
  maxDepth : Nat
  describe : Endpoint → Description
  address : Endpoint → Nat
  apart : Function.Injective address
  alive : Nat → Bool

/-- One resolution in the constraint window. -/
structure Sample where
  target : Iri
  cacheHit : Bool
deriving DecidableEq

def constraintWindow : Nat := 512

/-- What a request may change: the counters of the kernel's table, the memos, the cache, the
constraint window and the log of uncached answers. -/
structure IssueState (π υ : Type) where
  counts : List RuleCounts
  floors : FloorMemo
  probes : ProbeMemo
  cache : ReprCache π
  window : List Sample
  uncached : υ

/-- A request as it is issued: by whom, in which chain, how deep, under which upstream, for
a buffer or a body, and at which reading of the kernel's clock. -/
structure Call (σ : Type) [Blake3] where
  request : Request
  capability : Capability
  scope : Scope σ
  depth : Nat
  incoming : Option Provenance
  buffer : Bool
  now : Option Time

/-- A request the cache did not answer: what it was resolved to and settled as. -/
structure Settled (σ : Type) where
  request : Request
  endpoint : Endpoint
  bindings : List (Text × Text)
  levels : LevelPath σ
  references : Option References
  key : CacheKey
  offer : Option Offer
  taken : Nat

/-- What is done once the cache has not answered: enter an endpoint or render its
description, or carry out an operation of the kernel. -/
structure Runner (σ : Type) [Blake3] (π υ : Type) where
  enter : Call σ → Settled σ → IssueState π υ → Except Error Answer × IssueState π υ
  operate : Call σ → Text → Request → CacheKey → Nat → IssueState π υ →
    Except Error Answer × IssueState π υ

/-- Put an argument at its name's place, unless the name is there. -/
def fillArgument (args : List (Text × ArgRef)) (name value : Text) : List (Text × ArgRef) :=
  if args.any fun argument => argument.1 = name then args
  else args.takeWhile (fun argument => argument.1 < name) ++
    (name, .inline value.asBytes) :: args.dropWhile fun argument => argument.1 < name

/-- Fill in the declared defaults a request leaves out. -/
def prefill (request : Request) (defaults : Defaults) : Request :=
  { request with
    args := defaults.foldl (fun args filled => fillArgument args filled.1 filled.2) request.args }

/-- Fill in the declared binding defaults a resolution lacks. -/
def fillBindings (bindings : List (Text × Text)) (defaults : Defaults) : List (Text × Text) :=
  bindings ++ defaults

/-- The stream builtins' namespace. -/
def streamPrefix : Text := "urn:stream:".toList

def isStream (target : Iri) : Bool := target.startsWith streamPrefix

/-- Where a request goes once the kernel has read its name. -/
inductive Routed where
  | refused (error : Error)
  | operation (op : Text) (request : Request)
  | space (request : Request) (hop : Option AliasHop)

/-- What resolving a name in a chain came to, past the seals and the reported canonical. -/
inductive Found (σ : Type) where
  | refused (error : Error)
  | missed
  | limited (request : Request)
  | door (request : Request) (probedAs : Option Iri) (hop : Option AliasHop) (hit : Resolved σ)

namespace Kernel

variable {σ π υ : Type}

section Naming

variable [IriSyntax]

/-- What the kernel's own table makes of a name. A chain through a named request is left
to the overlay that resolves it. -/
def canonicalize (kernel : Kernel σ) (target : Iri) : Except Error (Option AliasHop) :=
  match kernel.aliases with
  | none => .ok none
  | some table =>
    match table.canonicalize target with
    | .direct => .ok none
    | .aliased hop => .ok (if table.throughNamed hop then none else some hop)
    | .refused refusal =>
      .error (.endpoint ("alias table refused `".toList ++ refusal.logical ++ "`: ".toList ++
        refusal.text))

/-- The counters once a name has been rewritten. -/
def counted (kernel : Kernel σ) (target : Iri) (counts : List RuleCounts) : List RuleCounts :=
  match kernel.aliases with
  | none => counts
  | some table => (table.canonicalize target).counted counts

/-- The counters once a rewritten name came to nothing. A hop the table would not take is
ignored. -/
def recordUnresolved (kernel : Kernel σ) (hop : Option AliasHop) (counts : List RuleCounts) :
    List RuleCounts :=
  match kernel.aliases, hop with
  | some table, some hop =>
    if table.canonicalize hop.logical = .aliased hop then
      bump hop.rules (fun count => { count with unresolved := count.unresolved + 1 }) counts
    else counts
  | _, _ => counts

/-- The name once the kernel's table has rewritten it. -/
def renamed (request : Request) (hop : Option AliasHop) : Request :=
  match hop with
  | none => request
  | some hop => { request with target := hop.canonical }

/-- The kernel's own rewrite, then the nesting budget, then the kernel's own namespace. -/
def route (kernel : Kernel σ) (request : Request) (depth : Nat) : Routed :=
  match kernel.canonicalize request.target with
  | .error error => .refused error
  | .ok hop =>
    let request := renamed request hop
    if kernel.maxDepth < depth then .refused (.depthExceeded depth request.target)
    else
      match kernelOp request.target with
      | some op => .operation op request
      | none => .space request hop

end Naming

/-- The refusal of a canonical that a space reported inside a namespace the kernel answers
itself. -/
def rewrittenInto (request : Request) (canonical : Iri) : Option Error :=
  if isStream canonical then
    some (.endpoint ("`".toList ++ request.target ++ "` was rewritten by a space to `".toList ++
      canonical ++ ("`, inside the stream builtins' namespace — `urn:stream:` is answered " ++
        "only by the kernel: refused").toList))
  else if (kernelOp canonical).isSome then
    some (.endpoint ("`".toList ++ request.target ++ "` was rewritten by a space to `".toList ++
      canonical ++ ("`, inside the kernel's own namespace — `urn:kernel:` is answered only by " ++
        "the kernel: refused").toList))
  else none

/-- Adopt the canonical a space reported: the request under it, the name it was asked by if
that is another, and the hop onto it. -/
def adopt (request : Request) (hop : Option AliasHop) (canonical : Option Iri) :
    Request × Option Iri × Option AliasHop :=
  match canonical with
  | none => (request, none, hop)
  | some canonical =>
    if canonical = request.target then (request, none, hop)
    else
      ({ request with target := canonical }, some request.target,
        some ⟨(hop.map AliasHop.logical).getD request.target, canonical, []⟩)

section Resolving

variable [Blake3] [Space σ]

/-- The stream builtins answer their own namespace; any other name is resolved in the chain. -/
def resolution (kernel : Kernel σ) (request : Request) (scope : Scope σ) :
    Except SealBreach (Resolution σ) :=
  if isStream request.target then .ok (firstBinding request.target kernel.streams)
  else scope.resolveIn request kernel.root kernel.seals

/-- What a resolution comes to: its canonical adopted, and a hit on ⊥ told apart. -/
def found (kernel : Kernel σ) (request : Request) (hop : Option AliasHop) (scope : Scope σ) :
    Found σ :=
  match kernel.resolution request scope with
  | .error breach => .refused (.endpoint breach.message)
  | .ok .miss => .missed
  | .ok (.hit hit) =>
    match hit.canonical.bind (rewrittenInto request) with
    | some error => .refused error
    | none =>
      let (adopted, probedAs, hop) := adopt request hop hit.canonical
      if hit.endpoint.isLimiter then .limited adopted else .door adopted probedAs hop hit

end Resolving

section Issuing

variable [IriSyntax]

/-- The scopes held that mention a namespace the table rewrites. -/
def staleScopes (kernel : Kernel σ) (capability : Capability) : List Text :=
  match kernel.aliases, capability.scopes with
  | some table, some held =>
    held.items.filter fun scope => table.rules.any fun rule => rule.source <:+: scope
  | _, _ => []

/-- What a denial says. -/
def denialMessage (kernel : Kernel σ) (lacking : Text) (target : Iri) (capability : Capability)
    (hop : Option AliasHop) : Text :=
  let quoted (text : Text) : Text := "`".toList ++ text ++ "`".toList
  let declared := "capability does not grant ".toList ++ quoted lacking ++
    " (declared by ".toList ++ quoted target
  let message :=
    match lacking.stripSuffix '*' with
    | none => declared ++ ")".toList
    | some [] => declared ++ "; any grant at all satisfies it)".toList
    | some head => declared ++ "; any grant under ".toList ++ quoted head ++ " satisfies it)".toList
  match hop with
  | none => message
  | some hop =>
    let stale := kernel.staleScopes capability
    message ++ " — target arrived via alias ".toList ++ quoted hop.text ++
      if stale.isEmpty then []
      else "; the capability holds ".toList ++ ", ".toList.intercalate (stale.map quoted) ++
        (" — scope(s) naming a namespace this table rewrites, so the grant may not have been " ++
          "migrated with the resource").toList

/-- Admission to an endpoint through the floor memo. -/
def admitRequest (kernel : Kernel σ) (floors : FloorMemo) (endpoint : Endpoint) (request : Request)
    (bindings : List (Text × Text)) (capability : Capability) (now : Option Time) :
    Admission × FloorMemo :=
  let place := kernel.address endpoint
  let asked : Asked := ⟨place, request, bindings, capability, now⟩
  let read (stale : Bool) : Admission × FloorMemo :=
    let description := kernel.describe endpoint
    let keep := Keep.of description.contractCaching now
    (admission asked (Floor.of description) keep,
      floors.write kernel.alive place place (Floor.of description) keep stale)
  match floors.lookup place with
  | none => read false
  | some entry =>
    if entry.freshAt now then (admission asked entry.floor entry.keep, floors) else read true

/-- One more resolution in the constraint window. -/
def sample (window : List Sample) (request : Request) (cacheHit : Bool) : List Sample :=
  (if constraintWindow ≤ window.length then window.drop 1 else window) ++
    [⟨request.target, cacheHit⟩]

/-- The request a kernel operation carries out: its declared defaults filled in. -/
def operationRequest (op : Text) (request : Request) : Request :=
  match KernelOps.description op with
  | some description => prefill request ((Floor.of description).defaultsFor request.verb)
  | none => request

variable [Blake3] [RequestHash]

/-- The key an operation's answer is cached under: only some depend on the chain. -/
def operationKey (op : Text) (request : Request) (capability : Capability) (scope : Scope σ) :
    CacheKey :=
  ⟨RequestHash.id request, RequestHash.capabilityKey capability,
    if KernelOps.dependsOnChain op then scope.fingerprint else 0⟩

/-- An operation of the kernel: out of the cache, or carried out. -/
def answerKernelOp (run : Runner σ π υ) (call : Call σ) (op : Text) (request : Request)
    (taken : Nat) (state : IssueState π υ) : Except Error Answer × IssueState π υ :=
  let request := operationRequest op request
  let key := operationKey op request call.capability call.scope
  if request.verb.isCacheable then
    match state.cache.lookup key call.now call.buffer call.incoming false with
    | (cache, .hit answer) => (.ok answer, { state with cache })
    | (cache, _) => run.operate call op request key taken { state with cache }
  else run.operate call op request key taken state

/-- The cache's answer to a settled request: a failure first, then an entry. -/
def servedFromCache (call : Call σ) (settled : Settled σ) (state : IssueState π υ) :
    (Except Error Answer ⊕ Option Offer) × IssueState π υ :=
  let answered (answer : Except Error Answer) (cache : ReprCache π) :
      (Except Error Answer ⊕ Option Offer) × IssueState π υ :=
    (.inl answer, { state with cache, window := sample state.window settled.request true })
  let asked := if state.cache.failedOnce then
      state.cache.getFailure settled.key call.now call.incoming
    else (state.cache, none)
  match asked with
  | (cache, some failure) => answered (.error failure.error) cache
  | (cache, none) =>
    match cache.lookup settled.key call.now call.buffer call.incoming true with
    | (cache, .hit answer) => answered (.ok answer) cache
    | (cache, .offer offer) => (.inr (some offer), { state with cache })
    | (cache, .miss) => (.inr none, { state with cache })

/-- A settled request: what the cache answers, else what the endpoint does. -/
def dispatched (run : Runner σ π υ) (call : Call σ) (settled : Settled σ)
    (state : IssueState π υ) : Except Error Answer × IssueState π υ :=
  if settled.request.verb.isCacheable then
    match servedFromCache call settled state with
    | (.inl answer, state) => (answer, state)
    | (.inr offer, state) => run.enter call { settled with offer := offer } state
  else run.enter call settled state

/-- What the probe is told of a name, for an answer that can be cached. -/
def probeRecord (request : Request) (probedAs : Option Iri) (admission : Admission)
    (scope : UInt64) (now : Option Time) (probes : ProbeMemo) : ProbeMemo :=
  if request.verb.isCacheable && request.verb ≠ .«meta» then
    probes.record (probedAs.getD request.target)
      ⟨request.verb, scope, admission.declared, probedAs.map fun _ => request.target,
        admission.keep⟩ now
  else probes

/-- A request that was resolved to a door: the floor, the record for the probe, the key. -/
def entered (kernel : Kernel σ) (run : Runner σ π υ) (call : Call σ) (request : Request)
    (probedAs : Option Iri) (hop : Option AliasHop) (hit : Resolved σ) (taken : Nat)
    (state : IssueState π υ) : Except Error Answer × IssueState π υ :=
  let (admission, floors) := kernel.admitRequest state.floors hit.endpoint request hit.bindings
    call.capability call.now
  let state := { state with floors }
  if admission.conceal then (.error (.unresolved (probedAs.getD request.target)), state)
  else
    let state := { state with
      probes := probeRecord request probedAs admission call.scope.fingerprint call.now
        state.probes }
    let request := prefill request admission.defaults
    match admission.lacking with
    | some lacking =>
      (.error (.denied (kernel.denialMessage lacking request.target call.capability hop)), state)
    | none =>
      dispatched run call
        { request
          endpoint := hit.endpoint
          bindings := fillBindings hit.bindings admission.bindingDefaults
          levels := hit.levels
          references := admission.references
          key := ⟨RequestHash.id request, RequestHash.capabilityKey call.capability,
            call.scope.fingerprint⟩
          offer := none
          taken } state

variable [Space σ]

/-- The resolution path: what a request comes to, and the state it leaves. An upstream that
contributes nothing is no upstream. -/
def issue (kernel : Kernel σ) (run : Runner σ π υ) (call : Call σ) (state : IssueState π υ) :
    Except Error Answer × IssueState π υ :=
  let call := { call with incoming := call.incoming.filter Provenance.contributes }
  let taken := state.cache.snapshot
  let state := { state with counts := kernel.counted call.request.target state.counts }
  match kernel.route call.request call.depth with
  | .refused error => (.error error, state)
  | .operation op request => answerKernelOp run call op request taken state
  | .space request hop =>
    match kernel.found request hop call.scope with
    | .refused error => (.error error, state)
    | .missed =>
      (.error (.unresolved request.target),
        { state with counts := kernel.recordUnresolved hop state.counts })
    | .limited adopted => (.error (.unresolved adopted.target), state)
    | .door adopted probedAs hop hit =>
      kernel.entered run call adopted probedAs hop hit taken state

end Issuing

end Kernel

end Ikigai
