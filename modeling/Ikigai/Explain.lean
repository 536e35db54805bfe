import Ikigai.AliasConfluence
import Ikigai.ChainMembers
import Ikigai.IssuePath

/-!
# A dry run of resolution

What `urn:kernel:explain` says of a name: the rewrites of the kernel's own table, what each
member of the chain does with it, and how it ends. Issuing the request comes to a decision
before an endpoint is entered; the dry run tells that decision where both see one name and one
resolution of it. The texts of the two faces are left out, and so is what a member's topology
shows: its kind, what it hides, and its doors.
-/

namespace Ikigai

/-- One rewrite the kernel's own table would perform. -/
structure ExplainedHop where
  kind : MatchKind
  source : Text
  target : Text
  before : Text
  after : Text
deriving DecidableEq, Repr

/-- The kernel's rewrite of the asked name, before any space is consulted. -/
inductive Rewrite where
  | none
  | table (hops : List ExplainedHop) (canonical : Iri)
  | refused (reason : AliasReason) (trail : List Text)
deriving DecidableEq, Repr

/-- What one member of the chain did with the name. A member that was not consulted is shadowed
if it would have answered. -/
inductive MemberStatus where
  | answered
  | limited
  | declined
  | skipped
  | shadowed (endpoint : Endpoint)
  | unreached
deriving DecidableEq, Repr

/-- One member of the chain, as the dry run saw it. -/
structure ExplainedMember where
  label : Text
  status : MemberStatus
deriving DecidableEq, Repr

/-- The endpoint that would answer, and what its contract says. -/
structure ExplainedAnswer (σ : Type) where
  endpoint : Endpoint
  id : Text
  bindings : List (Text × Text)
  answeredBy : Option Iri
  levels : LevelPath σ
  reported : Option Iri
  declaresVerb : Option Bool
  «requires» : List Text
  lacking : List Text

/-- How the dry run ended. -/
inductive ExplainOutcome (σ : Type) where
  | answered (answer : ExplainedAnswer σ)
  | limited
  | nothing
  | refused (message : Text)
  | kernel (op : Text) (served answersVerb : Bool) («requires» lacking : List Text)

/-- The explanation, before it is rendered in either face. -/
structure Explanation (σ : Type) where
  asked : Iri
  verb : Verb
  held : Option ScopeSet
  attenuated : Bool
  chain : Text
  severed : Bool
  rewrite : Rewrite
  members : List ExplainedMember
  outcome : ExplainOutcome σ
  caching : ContractCaching

/-- A name through the rules of a path: what each makes of it. -/
def AliasTable.retrace [IriSyntax] (table : AliasTable) : Text → List Nat → List ExplainedHop
  | _, [] => []
  | current, index :: rules =>
    match table.rules[index]? with
    | none => table.retrace current rules
    | some rule =>
      let after := (rule.apply current).getD current
      ⟨rule.matchKind, rule.source, rule.target, current, after⟩ :: table.retrace after rules

namespace Description

/-- `Description::required_scopes`. -/
def requiredScopes (description : Description) (verb : Verb) : List Text :=
  (Floor.of description).requirements verb

/-- `Description::unsatisfied_scopes`. -/
def unsatisfiedScopes [IriSyntax] (description : Description) (verb : Verb)
    (capability : Capability) : List Text :=
  (description.requiredScopes verb).filter fun scope => !capability.satisfies scope

/-- Whether a description declares a verb, if it declares any. -/
def declaresVerb (description : Description) (verb : Verb) : Option Bool :=
  if description.verbs.isEmpty then none
  else some (decide (verb = .«meta») || decide (verb ∈ description.verbs))

end Description

namespace Kernel

variable {σ : Type}

section Explaining

variable [IriSyntax]

/-- The kernel's own rewrite, and the name it leads to unless it refuses. -/
def explainedRewrite (kernel : Kernel σ) (asked : Iri) : Rewrite × Except Text Iri :=
  match kernel.aliases with
  | none => (.none, .ok asked)
  | some table =>
    match table.canonicalize asked with
    | .direct => (.none, .ok asked)
    | .aliased hop => (.table (table.retrace asked hop.rules) hop.canonical, .ok hop.canonical)
    | .refused refusal =>
      (.refused refusal.reason refusal.trail,
        .error ("the kernel's rewrite table refuses `".toList ++ asked ++ "`: ".toList ++
          refusal.text))

/-- What the kernel says of an operation of its own. -/
def explainedOperation (op : Text) (verb : Verb) (capability : Capability) : ExplainOutcome σ :=
  let «requires» := KernelOps.requiredScopes op verb
  .kernel op (KernelOps.description op).isSome
    ((KernelOps.description op).any fun description => decide (verb ∈ description.verbs))
    «requires» («requires».filter fun scope => !capability.allows scope)

variable [Blake3] [Space σ]

/-- What the walk says of a member: its verdict, or, past the member that answered, what asking
it would come to. -/
def memberStatus (observed : Option Consulted) (limiter : Bool) (wouldBe : Resolution σ) :
    MemberStatus :=
  match observed with
  | some .hit => if limiter then .limited else .answered
  | some .miss => .declined
  | some .skipped => .skipped
  | none =>
    match wouldBe with
    | .hit hit => if hit.endpoint.isLimiter then .unreached else .shadowed hit.endpoint
    | .miss => .unreached

/-- The hit a resolution came to, past the seals. -/
def admittedHit : Except SealBreach (Resolution σ) → Option (Resolved σ)
  | .ok (.hit hit) => some hit
  | .ok .miss | .error _ => none

/-- Every member of the chain with its status. -/
def explainedMembers (kernel : Kernel σ) (scope : Scope σ) (probe : Request) :
    List ExplainedMember :=
  let (resolution, observed) := scope.resolveObserved probe kernel.root kernel.seals
  (scope.members kernel.root).zipIdx.map fun (member, position) =>
    ⟨member.label, memberStatus (observed.lookup position)
      ((admittedHit resolution).any fun hit => hit.endpoint.isLimiter)
      (Space.resolve member.space probe scope)⟩

/-- The endpoint a hit names, and what its contract says. -/
def explainedAnswer (kernel : Kernel σ) (probe : Request) (capability : Capability)
    (hit : Resolved σ) : ExplainedAnswer σ :=
  let description := kernel.describe hit.endpoint
  { endpoint := hit.endpoint
    id := description.id
    bindings := hit.bindings
    answeredBy := hit.answeredBy
    levels := hit.levels
    reported := hit.canonical.filter fun canonical => canonical ≠ probe.target
    declaresVerb := description.declaresVerb probe.verb
    «requires» := description.requiredScopes probe.verb
    lacking := description.unsatisfiedScopes probe.verb capability }

/-- How a walk ends, and how long what it says may be kept. -/
def explainedWalk (kernel : Kernel σ) (probe : Request) (capability : Capability)
    (resolution : Except SealBreach (Resolution σ)) : ExplainOutcome σ × ContractCaching :=
  match resolution with
  | .error breach => (.refused breach.message, .untilRebind)
  | .ok .miss => (.nothing, .untilRebind)
  | .ok (.hit hit) =>
    if hit.endpoint.isLimiter then (.limited, .untilRebind)
    else
      match hit.canonical.filter fun canonical => (kernelOp canonical).isSome with
      | some canonical =>
        (.refused ("a space rewrote the name to `".toList ++ canonical ++
          ("`, inside the kernel's own namespace — `urn:kernel:` is answered only by the " ++
            "kernel").toList), .untilRebind)
      | none =>
        (.answered (kernel.explainedAnswer probe capability hit),
          (kernel.describe hit.endpoint).contractCaching)

/-- `explain::walk`: the dry run of a name, for a verb and a capability in a chain. -/
def explain (kernel : Kernel σ) (scope : Scope σ) (asked : Iri) (verb : Verb)
    (capability : Capability) (attenuated : Bool) : Explanation σ :=
  let (rewrite, name) := kernel.explainedRewrite asked
  let ended (members : List ExplainedMember) (outcome : ExplainOutcome σ)
      (caching : ContractCaching) : Explanation σ :=
    { asked, verb, held := capability.scopes, attenuated, chain := scope.chainName
      severed := scope.isSevered, rewrite, members, outcome, caching }
  match name with
  | .error message => ended [] (.refused message) .untilRebind
  | .ok name =>
    match kernelOp name with
    | some op => ended [] (explainedOperation op verb capability) .untilRebind
    | none =>
      let probe := Request.new verb name
      let (outcome, caching) := kernel.explainedWalk probe capability
        (scope.resolveObserved probe kernel.root kernel.seals).1
      ended (kernel.explainedMembers scope probe) outcome caching

end Explaining

end Kernel

/-- The scopes that the arm of an operation asks for itself, beside the declared ones. -/
def KernelOps.armScopes (op : Text) (verb : Verb) : List Text :=
  if verb = .sink && op == "cut".toList then [capCut]
  else if verb = .source && ["cache", "cached", "uncached", "threads", "aliases", "topology",
      "dependents", "explain", "scheduler", "constraint", "catalog"].any fun served =>
        op == served.toList then [capInspect]
  else []

/-- The first scope that the gate of an operation asks for and a capability does not grant. -/
def KernelOps.gate [IriSyntax] (op : Text) (verb : Verb) (capability : Capability) : Option Text :=
  (requiredScopes op verb ++ armScopes op verb).find? fun scope => !capability.allows scope

/-- What issuing a request comes to before an endpoint is entered. -/
inductive Decision (σ : Type) where
  | refused (error : Error)
  | operation (op : Text) (request : Request)
  | unresolved (target : Iri)
  | hidden (hit : Resolved σ) (target : Iri)
  | denied (hit : Resolved σ) (message : Text)
  | dispatched (hit : Resolved σ) (settled : Settled σ)

namespace Kernel

variable {σ π υ : Type}

section Deciding

variable [IriSyntax] [Blake3] [RequestHash]

/-- What the floor decides of a request that was resolved to a door. -/
def decideEntry (kernel : Kernel σ) (call : Call σ) (request : Request) (probedAs : Option Iri)
    (hop : Option AliasHop) (hit : Resolved σ) (taken : Nat) (floors : FloorMemo) : Decision σ :=
  let admission := (kernel.admitRequest floors hit.endpoint request hit.bindings call.capability
    call.now).1
  if admission.conceal then .hidden hit (probedAs.getD request.target)
  else
    let request := prefill request admission.defaults
    match admission.lacking with
    | some lacking => .denied hit (kernel.denialMessage lacking request.target call.capability hop)
    | none => .dispatched hit
        { request
          endpoint := hit.endpoint
          bindings := fillBindings hit.bindings admission.bindingDefaults
          levels := hit.levels
          references := admission.references
          key := ⟨RequestHash.id request, RequestHash.capabilityKey call.capability,
            call.scope.fingerprint⟩
          offer := none
          taken }

variable [Space σ]

/-- What issuing a request decides. -/
def decision (kernel : Kernel σ) (call : Call σ) (taken : Nat) (floors : FloorMemo) : Decision σ :=
  match kernel.route call.request call.depth with
  | .refused error => .refused error
  | .operation op request => .operation op request
  | .space request hop =>
    match kernel.found request hop call.scope with
    | .refused error => .refused error
    | .missed => .unresolved request.target
    | .limited adopted => .unresolved adopted.target
    | .door adopted probedAs hop hit => kernel.decideEntry call adopted probedAs hop hit taken floors

/-- A result is what a decision leads to. -/
inductive Carries (run : Runner σ π υ) (call : Call σ) (taken : Nat) :
    Decision σ → Except Error Answer × IssueState π υ → Prop where
  | refused (error : Error) (state : IssueState π υ) :
    Carries run call taken (.refused error) (.error error, state)
  | operation (op : Text) (request : Request) (state : IssueState π υ) :
    Carries run call taken (.operation op request) (answerKernelOp run call op request taken state)
  | unresolved (target : Iri) (state : IssueState π υ) :
    Carries run call taken (.unresolved target) (.error (.unresolved target), state)
  | hidden (hit : Resolved σ) (target : Iri) (state : IssueState π υ) :
    Carries run call taken (.hidden hit target) (.error (.unresolved target), state)
  | denied (hit : Resolved σ) (message : Text) (state : IssueState π υ) :
    Carries run call taken (.denied hit message) (.error (.denied message), state)
  | dispatched (hit : Resolved σ) (settled : Settled σ) (state : IssueState π υ) :
    Carries run call taken (.dispatched hit settled) (dispatched run call settled state)

/-- Issuing a request carries out what it decides. -/
theorem issue_carries (kernel : Kernel σ) (run : Runner σ π υ) (call : Call σ)
    (state : IssueState π υ) :
    Carries run { call with incoming := call.incoming.filter Provenance.contributes }
      state.cache.snapshot (kernel.decision call state.cache.snapshot state.floors)
      (kernel.issue run call state) := by
  unfold issue decision
  dsimp only
  cases kernel.route call.request call.depth with
  | refused error => exact .refused error _
  | operation op request => exact .operation op request _
  | space request hop =>
    dsimp only
    cases kernel.found request hop call.scope with
    | refused error => exact .refused error _
    | missed => exact .unresolved _ _
    | limited adopted => exact .unresolved _ _
    | door adopted probedAs hop hit =>
      dsimp only
      unfold entered decideEntry
      dsimp only
      cases (kernel.admitRequest state.floors hit.endpoint adopted hit.bindings call.capability
          call.now).1.conceal with
      | true => exact .hidden _ _ _
      | false =>
        cases (kernel.admitRequest state.floors hit.endpoint adopted hit.bindings call.capability
            call.now).1.lacking with
        | some lacking => exact .denied _ _ _
        | none => exact .dispatched _ _ _

end Deciding

section Floors

variable [IriSyntax]

/-- The floor memos that admissions leave behind. -/
inductive FloorsReached (kernel : Kernel σ) : FloorMemo → Prop where
  | empty : FloorsReached kernel ∅
  | reads (floors : FloorMemo) (endpoint : Endpoint) (request : Request)
      (bindings : List (Text × Text)) (capability : Capability) (now : Option Time)
      (reached : FloorsReached kernel floors) :
      FloorsReached kernel
        (kernel.admitRequest floors endpoint request bindings capability now).2

/-- A floor that is kept is the endpoint's own. -/
theorem FloorsReached.own {kernel : Kernel σ} {floors : FloorMemo}
    (reached : kernel.FloorsReached floors) (endpoint : Endpoint) (entry : FloorEntry)
    (held : floors.lookup (kernel.address endpoint) = some entry) :
    entry.floor = Floor.of (kernel.describe endpoint) := by
  induction reached with
  | empty => cases held
  | reads floors other request bindings capability now _ ih =>
    have written : ∀ stale, (floors.write kernel.alive (kernel.address other)
        (kernel.address other) (Floor.of (kernel.describe other))
        (Keep.of (kernel.describe other).contractCaching now) stale).lookup
          (kernel.address endpoint) = some entry →
        entry.floor = Floor.of (kernel.describe endpoint) := by
      intro stale held
      rcases FloorMemo.lookup_of_write _ _ _ _ _ _ _ _ _ held with
        earlier | ⟨same, _, _, floor, _⟩
      · exact ih earlier
      · rw [floor, kernel.apart same]
    unfold admitRequest at held
    dsimp only at held
    split at held
    · exact written false held
    · split at held
      · exact ih held
      · exact written true held

/-- An admission is the one of the endpoint's own floor. -/
theorem admission_own {kernel : Kernel σ} {floors : FloorMemo}
    (reached : kernel.FloorsReached floors) (endpoint : Endpoint) (request : Request)
    (bindings : List (Text × Text)) (capability : Capability) (now : Option Time) :
    ((kernel.admitRequest floors endpoint request bindings capability now).1).conceal =
        (Floor.of (kernel.describe endpoint)).conceals request.verb capability ∧
      ((kernel.admitRequest floors endpoint request bindings capability now).1).lacking =
        (Floor.of (kernel.describe endpoint)).unsatisfied request.verb capability := by
  unfold admitRequest
  dsimp only
  split
  · exact ⟨rfl, rfl⟩
  · rename_i entry held
    split
    · rw [admission, reached.own endpoint entry held]
      exact ⟨rfl, rfl⟩
    · exact ⟨rfl, rfl⟩

end Floors

end Kernel

namespace Description

variable [IriSyntax]

/-- Nothing is lacking exactly when the floor finds nothing unsatisfied. -/
theorem unsatisfied_scopes_nil_iff (description : Description) (verb : Verb)
    (capability : Capability) :
    description.unsatisfiedScopes verb capability = [] ↔
      (Floor.of description).unsatisfied verb capability = none := by
  rw [unsatisfiedScopes, requiredScopes, Floor.unsatisfied, List.filter_eq_nil_iff,
    List.find?_eq_none]

/-- A description asks nothing of `Meta`. -/
theorem unsatisfied_scopes_meta (description : Description) (capability : Capability) :
    description.unsatisfiedScopes .«meta» capability = [] := by
  have undeclared : Floor.own (Floor.of description).declared .«meta» = none := by
    have table := Floor.own_table description.actionSpecs ActionSpec.requires .«meta»
    have nowhere : description.actionSpecs.find? (fun spec => spec.verb = .«meta») = none := by
      rw [List.find?_eq_none]
      intro spec listed
      obtain ⟨verb, member, rfl⟩ := List.mem_map.mp listed
      rw [description.action_of_verb]
      simpa using (List.mem_filter.mp member).2
    rw [nowhere] at table
    exact table
  rw [unsatisfiedScopes, requiredScopes, Floor.requirements, undeclared]
  rfl

end Description

/-- Where a name leads: to a refusal, to the kernel, to nothing, or to a door. -/
inductive RouteEnd where
  | refused
  | operation (op : Text)
  | unresolved
  | door (endpoint : Endpoint) (bindings : List (Text × Text))
deriving DecidableEq, Repr

/-- Two ends are alike: the same one, or two doors that both refuse. -/
def RouteEnd.Alike (lacks : Endpoint → Prop) (first second : RouteEnd) : Prop :=
  first = second ∨ ∃ endpoint bindings endpoint' bindings', first = .door endpoint bindings ∧
    second = .door endpoint' bindings' ∧ lacks endpoint ∧ lacks endpoint'

variable {σ : Type}

def ExplainOutcome.«end» : ExplainOutcome σ → RouteEnd
  | .answered answer => .door answer.endpoint answer.bindings
  | .limited | .nothing => .unresolved
  | .refused _ => .refused
  | .kernel op _ _ _ _ => .operation op

def Decision.«end» : Decision σ → RouteEnd
  | .refused _ => .refused
  | .operation op _ => .operation op
  | .unresolved _ => .unresolved
  | .hidden hit _ | .denied hit _ | .dispatched hit _ => .door hit.endpoint hit.bindings

/-- An outcome tells a decision: the door that is entered with nothing lacking, a door that
refuses or is hidden with something lacking, and a name that is refused, unresolved, or the
kernel's own as such. -/
inductive Tells (verb : Verb) (capability : Capability) [IriSyntax] :
    ExplainOutcome σ → Decision σ → Prop where
  | dispatched (answer : ExplainedAnswer σ) (hit : Resolved σ) (settled : Settled σ)
      (granted : answer.lacking = []) (endpoint : answer.endpoint = hit.endpoint)
      (bindings : answer.bindings = hit.bindings) :
      Tells verb capability (.answered answer) (.dispatched hit settled)
  | denied (answer : ExplainedAnswer σ) (hit : Resolved σ) (message : Text)
      (lacking : answer.lacking ≠ []) :
      Tells verb capability (.answered answer) (.denied hit message)
  | hidden (answer : ExplainedAnswer σ) (hit : Resolved σ) (target : Iri)
      (lacking : answer.lacking ≠ []) :
      Tells verb capability (.answered answer) (.hidden hit target)
  | limited (target : Iri) : Tells verb capability .limited (.unresolved target)
  | nothing (target : Iri) : Tells verb capability .nothing (.unresolved target)
  | refused (message : Text) (error : Error) :
      Tells verb capability (.refused message) (.refused error)
  | kernel (op : Text) (served answersVerb : Bool) («requires» lacking : List Text)
      (request : Request)
      (gate : lacking = [] ↔ KernelOps.gate op verb capability = none) :
      Tells verb capability (.kernel op served answersVerb «requires» lacking)
        (.operation op request)

/-- An arm asks for nothing that its operation does not declare. -/
theorem KernelOps.arm_scopes_declared (op : Text) (verb : Verb) :
    ∀ scope ∈ armScopes op verb, scope ∈ requiredScopes op verb := by
  intro scope asked
  unfold armScopes at asked
  split at asked
  · rename_i cut
    rw [Bool.and_eq_true, decide_eq_true_eq, beq_iff_eq] at cut
    obtain ⟨rfl, rfl⟩ := cut
    rw [List.mem_singleton.mp asked]
    decide
  · split at asked
    · rename_i served
      rw [Bool.and_eq_true, decide_eq_true_eq] at served
      obtain ⟨rfl, listed⟩ := served
      rw [List.mem_singleton.mp asked]
      obtain ⟨served, inside, same⟩ := List.any_eq_true.mp listed
      rw [beq_iff_eq] at same
      subst same
      revert served
      decide
    · cases asked

/-- An operation declares all that its gate asks for. -/
theorem KernelOps.gate_none_iff [IriSyntax] (op : Text) (verb : Verb) (capability : Capability) :
    ((requiredScopes op verb).filter fun scope => !capability.allows scope) = [] ↔
      gate op verb capability = none := by
  rw [gate, List.filter_eq_nil_iff, List.find?_eq_none]
  constructor
  · intro granted scope asked
    rcases List.mem_append.mp asked with declared | own
    · exact granted scope declared
    · exact granted scope (arm_scopes_declared op verb scope own)
  · exact fun granted scope declared => granted scope (List.mem_append_left _ declared)

namespace Kernel

section Ends

variable [IriSyntax] [Blake3] [Space σ]

/-- A canonical that the dry run refuses: inside `urn:kernel:`, unless a limiter reports it. -/
def dryReserved (endpoint : Endpoint) (canonical : Iri) : Bool :=
  !endpoint.isLimiter && (kernelOp canonical).isSome

/-- A canonical that issuing refuses: inside a namespace the kernel answers itself. -/
def issuedReserved (_ : Endpoint) (canonical : Iri) : Bool :=
  isStream canonical || (kernelOp canonical).isSome

/-- Where a resolution leads, once the reserved canonicals are refused. -/
def landedEnd (reserved : Endpoint → Iri → Bool) (resolution : Except SealBreach (Resolution σ)) :
    RouteEnd :=
  match resolution with
  | .error _ => .refused
  | .ok .miss => .unresolved
  | .ok (.hit hit) =>
    if hit.canonical.any (reserved hit.endpoint) then .refused
    else if hit.endpoint.isLimiter then .unresolved
    else .door hit.endpoint hit.bindings

/-- Where the dry run leads from a name that the kernel's table has rewritten. -/
def dryEnd (kernel : Kernel σ) (scope : Scope σ) (request : Request) : RouteEnd :=
  match kernelOp request.target with
  | some op => .operation op
  | none => landedEnd dryReserved (scope.resolveIn request kernel.root kernel.seals)

/-- Where the issue path leads from there, or from the name as it was asked. -/
def onwardEnd (kernel : Kernel σ) (scope : Scope σ) (request : Request) : RouteEnd :=
  match kernelOp request.target with
  | some op => .operation op
  | none => landedEnd issuedReserved (kernel.resolution request scope)

/-- Where the dry run of a name leads. -/
def explainedEnd (kernel : Kernel σ) (scope : Scope σ) (verb : Verb) (asked : Iri) : RouteEnd :=
  match (kernel.explainedRewrite asked).2 with
  | .error _ => .refused
  | .ok name => kernel.dryEnd scope (Request.new verb name)

/-- Where a name leads when it is issued within the nesting budget. -/
def issuedEnd (kernel : Kernel σ) (scope : Scope σ) (verb : Verb) (asked : Iri) : RouteEnd :=
  match kernel.canonicalize asked with
  | .error _ => .refused
  | .ok hop => kernel.onwardEnd scope (renamed (Request.new verb asked) hop)

/-- An outcome is of the end the dry run leads to, and lacks what the door's contract or the
operation's declaration asks for. -/
theorem explain_end (kernel : Kernel σ) (scope : Scope σ) (asked : Iri) (verb : Verb)
    (capability : Capability) (attenuated : Bool) :
    (kernel.explain scope asked verb capability attenuated).outcome.«end» =
        kernel.explainedEnd scope verb asked ∧
      (∀ answer, (kernel.explain scope asked verb capability attenuated).outcome =
          .answered answer →
        answer.lacking =
          (kernel.describe answer.endpoint).unsatisfiedScopes verb capability) ∧
      ∀ op served answersVerb «requires» lacking,
        (kernel.explain scope asked verb capability attenuated).outcome =
            .kernel op served answersVerb «requires» lacking →
          (lacking = [] ↔ KernelOps.gate op verb capability = none) := by
  unfold explain explainedEnd
  dsimp only
  cases (kernel.explainedRewrite asked).2 with
  | error message => exact ⟨rfl, nofun, nofun⟩
  | ok name =>
    have target : (Request.new verb name).target = name := rfl
    unfold dryEnd
    dsimp only
    rw [target]
    cases kernelOp name with
    | some op =>
      refine ⟨rfl, nofun, ?_⟩
      intro op' served answersVerb «requires» lacking same
      cases same
      exact KernelOps.gate_none_iff op verb capability
    | none =>
      dsimp only
      rw [scope.observed_walk]
      cases scope.resolveIn (Request.new verb name) kernel.root kernel.seals with
      | error breach => exact ⟨rfl, nofun, nofun⟩
      | ok resolution =>
        cases resolution with
        | miss => exact ⟨rfl, nofun, nofun⟩
        | hit hit =>
          unfold explainedWalk landedEnd dryReserved
          dsimp only
          cases hit.endpoint.isLimiter with
          | true => exact ⟨by simp [ExplainOutcome.«end»], nofun, nofun⟩
          | false =>
            cases hit.canonical with
            | none =>
              refine ⟨rfl, ?_, nofun⟩
              intro answer same
              cases same
              rfl
            | some canonical =>
              rw [Option.filter_some, Option.any_some]
              cases (kernelOp canonical).isSome with
              | true => exact ⟨rfl, nofun, nofun⟩
              | false =>
                refine ⟨rfl, ?_, nofun⟩
                intro answer same
                cases same
                rfl

end Ends

section Telling

variable [IriSyntax] [Blake3] [RequestHash] [Space σ]

omit [IriSyntax] [Blake3] [RequestHash] [Space σ] in
/-- A renamed request has the verb it had. -/
theorem renamed_verb (request : Request) (hop : Option AliasHop) :
    (renamed request hop).verb = request.verb := by
  cases hop <;> rfl

omit [IriSyntax] [Blake3] [RequestHash] [Space σ] in
/-- So has one that adopts a canonical name. -/
theorem adopt_verb (request : Request) (hop : Option AliasHop) (canonical : Option Iri) :
    (adopt request hop canonical).1.verb = request.verb := by
  unfold adopt
  split
  · rfl
  · split <;> rfl

omit [IriSyntax] [RequestHash] in
/-- A door's request keeps the verb. -/
theorem found_verb (kernel : Kernel σ) (request : Request) (hop : Option AliasHop)
    (scope : Scope σ) (adopted : Request) (probedAs : Option Iri) (hop' : Option AliasHop)
    (hit : Resolved σ) (door : kernel.found request hop scope = .door adopted probedAs hop' hit) :
    adopted.verb = request.verb := by
  unfold found at door
  split at door
  · cases door
  · cases door
  · split at door
    · cases door
    · dsimp only at door
      split at door
      · cases door
      · cases door
        exact adopt_verb request hop _

omit [IriSyntax] [RequestHash] in
/-- What issuing finds is where its resolution leads. -/
theorem found_end (kernel : Kernel σ) (request : Request) (hop : Option AliasHop)
    (scope : Scope σ) :
    (match kernel.found request hop scope with
      | .refused _ => RouteEnd.refused
      | .missed | .limited _ => .unresolved
      | .door _ _ _ hit => .door hit.endpoint hit.bindings) =
      landedEnd issuedReserved (kernel.resolution request scope) := by
  unfold found landedEnd issuedReserved
  cases kernel.resolution request scope with
  | error breach => rfl
  | ok resolution =>
    cases resolution with
    | miss => rfl
    | hit hit =>
      dsimp only
      cases hit.canonical with
      | none => cases hit.endpoint.isLimiter <;> rfl
      | some canonical =>
        rw [Option.bind_some, Option.any_some, rewrittenInto]
        cases isStream canonical with
        | true => rfl
        | false =>
          cases (kernelOp canonical).isSome with
          | true => rfl
          | false => cases hit.endpoint.isLimiter <;> rfl

/-- What the floor has decided of a door. -/
def Decided (kernel : Kernel σ) (verb : Verb) (capability : Capability) : Decision σ → Prop
  | .hidden hit _ => (Floor.of (kernel.describe hit.endpoint)).conceals verb capability = true
  | .denied hit _ => (kernel.describe hit.endpoint).unsatisfiedScopes verb capability ≠ []
  | .dispatched hit _ =>
    (Floor.of (kernel.describe hit.endpoint)).conceals verb capability = false ∧
      (kernel.describe hit.endpoint).unsatisfiedScopes verb capability = []
  | .refused _ | .operation _ _ | .unresolved _ => True

omit [Space σ] in
/-- An explained hit ends at its door, and says of the call what admitting it decides. -/
theorem decide_entry_spec {kernel : Kernel σ} {floors : FloorMemo}
    (reached : kernel.FloorsReached floors) (call : Call σ) (request : Request)
    (probedAs : Option Iri) (hop : Option AliasHop) (hit : Resolved σ) (taken : Nat) :
    (kernel.decideEntry call request probedAs hop hit taken floors).«end» =
        .door hit.endpoint hit.bindings ∧
      kernel.Decided request.verb call.capability
        (kernel.decideEntry call request probedAs hop hit taken floors) := by
  obtain ⟨conceal, lacking⟩ := admission_own reached hit.endpoint request hit.bindings
    call.capability call.now
  unfold decideEntry
  dsimp only
  cases concealed : (kernel.admitRequest floors hit.endpoint request hit.bindings call.capability
      call.now).1.conceal with
  | true => exact ⟨rfl, by rw [if_pos rfl, Decided, ← conceal, concealed]⟩
  | false =>
    rw [if_neg Bool.false_ne_true]
    cases lacks : (kernel.admitRequest floors hit.endpoint request hit.bindings call.capability
        call.now).1.lacking with
    | some scope =>
      refine ⟨rfl, ?_⟩
      rw [Decided, Ne, Description.unsatisfied_scopes_nil_iff, ← lacking, lacks]
      exact nofun
    | none =>
      refine ⟨rfl, ?_⟩
      rw [Decided, Description.unsatisfied_scopes_nil_iff, ← lacking, lacks, ← conceal, concealed]
      exact ⟨rfl, rfl⟩

/-- A decision is of the end the issue path leads to. -/
theorem decision_end {kernel : Kernel σ} {floors : FloorMemo}
    (reached : kernel.FloorsReached floors) (call : Call σ) (verb : Verb) (asked : Iri)
    (bare : call.request = Request.new verb asked) (shallow : call.depth ≤ kernel.maxDepth)
    (taken : Nat) :
    (kernel.decision call taken floors).«end» = kernel.issuedEnd call.scope verb asked ∧
      kernel.Decided verb call.capability (kernel.decision call taken floors) := by
  have target : (Request.new verb asked).target = asked := rfl
  unfold decision issuedEnd route onwardEnd
  rw [bare, target]
  cases kernel.canonicalize asked with
  | error error => exact ⟨rfl, trivial⟩
  | ok hop =>
    dsimp only
    rw [if_neg (Nat.not_lt.mpr shallow)]
    cases kernelOp (renamed (Request.new verb asked) hop).target with
    | some op => exact ⟨rfl, trivial⟩
    | none =>
      dsimp only
      rw [← kernel.found_end (renamed (Request.new verb asked) hop) hop call.scope]
      cases lands : kernel.found (renamed (Request.new verb asked) hop) hop call.scope with
      | refused error => exact ⟨rfl, trivial⟩
      | missed => exact ⟨rfl, trivial⟩
      | limited adopted => exact ⟨rfl, trivial⟩
      | door adopted probedAs hop' hit =>
        dsimp only
        have kept : adopted.verb = verb := by
          rw [kernel.found_verb _ _ _ _ _ _ _ lands, renamed_verb]
          rfl
        have spec := decide_entry_spec reached call adopted probedAs hop' hit taken
        rw [kept] at spec
        exact spec

/-- The dry run and the issue path lead alike, and `Meta` is not hidden at the door it leads to. -/
structure SeenAlike (kernel : Kernel σ) (scope : Scope σ) (verb : Verb) (capability : Capability)
    (asked : Iri) : Prop where
  alike : RouteEnd.Alike
    (fun endpoint => (kernel.describe endpoint).unsatisfiedScopes verb capability ≠ [])
    (kernel.explainedEnd scope verb asked) (kernel.issuedEnd scope verb asked)
  shows : verb = .«meta» → ∀ endpoint bindings,
    kernel.issuedEnd scope verb asked = .door endpoint bindings →
      (Floor.of (kernel.describe endpoint)).conceals .«meta» capability = false

omit [Blake3] [RequestHash] in
/-- A hidden action lacks a scope. -/
theorem lacks_of_concealed (description : Description) (verb : Verb) (capability : Capability)
    (acts : verb ≠ .«meta») (hidden : (Floor.of description).conceals verb capability = true) :
    description.unsatisfiedScopes verb capability ≠ [] := by
  intro granted
  have lacks := (Floor.of description).conceals_lacks verb capability acts hidden
  rw [(description.unsatisfied_scopes_nil_iff verb capability).mp granted] at lacks
  cases lacks

omit [RequestHash] in
/-- An outcome that tells a decision was led alike. -/
theorem seen_alike_of_tells (kernel : Kernel σ) (scope : Scope σ) (verb : Verb)
    (capability : Capability) (asked : Iri) {outcome : ExplainOutcome σ} {decision : Decision σ}
    (explained : outcome.«end» = kernel.explainedEnd scope verb asked)
    (lacking : ∀ answer, outcome = .answered answer → answer.lacking =
      (kernel.describe answer.endpoint).unsatisfiedScopes verb capability)
    (issued : decision.«end» = kernel.issuedEnd scope verb asked)
    (decided : kernel.Decided verb capability decision)
    (tells : Tells verb capability outcome decision) :
    kernel.SeenAlike scope verb capability asked := by
  cases tells with
  | dispatched answer hit settled granted endpoint bindings =>
    refine ⟨.inl ?_, ?_⟩
    · rw [← explained, ← issued, ExplainOutcome.«end», endpoint, bindings]
      rfl
    · rintro rfl endpoint' bindings' leads
      rw [← issued] at leads
      cases leads
      exact decided.1
  | denied answer hit message lacks =>
    rw [lacking answer rfl] at lacks
    refine ⟨.inr ⟨_, _, _, _, explained.symm, issued.symm, lacks, decided⟩, ?_⟩
    rintro rfl
    exact absurd (Description.unsatisfied_scopes_meta _ _) lacks
  | hidden answer hit target lacks =>
    rw [lacking answer rfl] at lacks
    have acts : verb ≠ .«meta» := by
      rintro rfl
      exact lacks (Description.unsatisfied_scopes_meta _ _)
    exact ⟨.inr ⟨_, _, _, _, explained.symm, issued.symm, lacks,
      lacks_of_concealed _ verb capability acts decided⟩, fun same => absurd same acts⟩
  | limited target | nothing target =>
    refine ⟨.inl (explained.symm.trans issued), ?_⟩
    intro _ endpoint bindings leads
    rw [← issued] at leads
    cases leads
  | refused message error =>
    refine ⟨.inl (explained.symm.trans issued), ?_⟩
    intro _ endpoint bindings leads
    rw [← issued] at leads
    cases leads
  | kernel op served answersVerb «requires» lacking request gate =>
    refine ⟨.inl (explained.symm.trans issued), ?_⟩
    intro _ endpoint bindings leads
    rw [← issued] at leads
    cases leads

omit [RequestHash] in
/-- Where both lead alike the outcome tells the decision. -/
theorem tells_of_seen_alike (kernel : Kernel σ) (scope : Scope σ) (verb : Verb)
    (capability : Capability) (asked : Iri) {outcome : ExplainOutcome σ} {decision : Decision σ}
    (explained : outcome.«end» = kernel.explainedEnd scope verb asked)
    (lacking : ∀ answer, outcome = .answered answer → answer.lacking =
      (kernel.describe answer.endpoint).unsatisfiedScopes verb capability)
    (gate : ∀ op served answersVerb «requires» lacking,
      outcome = .kernel op served answersVerb «requires» lacking →
        (lacking = [] ↔ KernelOps.gate op verb capability = none))
    (issued : decision.«end» = kernel.issuedEnd scope verb asked)
    (decided : kernel.Decided verb capability decision)
    (seen : kernel.SeenAlike scope verb capability asked) : Tells verb capability outcome decision := by
  obtain ⟨alike, shows⟩ := seen
  rw [← explained, ← issued] at alike
  rw [← issued] at shows
  rcases alike with same | ⟨endpoint, bindings, endpoint', bindings', first, second, lacks, lacks'⟩
  · cases outcome with
    | answered answer =>
      have lack := lacking answer rfl
      cases decision with
      | dispatched hit settled =>
        obtain ⟨endpoint, bindings⟩ := RouteEnd.door.inj same
        refine .dispatched answer hit settled ?_ endpoint bindings
        rw [lack, endpoint]
        exact decided.2
      | denied hit message =>
        refine .denied answer hit message ?_
        rw [lack, (RouteEnd.door.inj same).1]
        exact decided
      | hidden hit target =>
        refine .hidden answer hit target ?_
        rw [lack, (RouteEnd.door.inj same).1]
        refine lacks_of_concealed _ verb capability ?_ decided
        rintro rfl
        have shown := shows rfl _ _ rfl
        rw [show _ = true from decided] at shown
        cases shown
      | refused error => cases same
      | operation op request => cases same
      | unresolved target => cases same
    | limited =>
      cases decision with
      | unresolved target => exact .limited target
      | _ => cases same
    | nothing =>
      cases decision with
      | unresolved target => exact .nothing target
      | _ => cases same
    | refused message =>
      cases decision with
      | refused error => exact .refused message error
      | _ => cases same
    | kernel op served answersVerb «requires» lacks =>
      cases decision with
      | operation op' request =>
        cases same
        exact .kernel op served answersVerb «requires» lacks request
          (gate op served answersVerb «requires» lacks rfl)
      | _ => cases same
  · cases outcome with
    | answered answer =>
      have lack : answer.lacking ≠ [] := by
        rw [lacking answer rfl, (RouteEnd.door.inj first).1]
        exact lacks
      cases decision with
      | dispatched hit settled =>
        rw [← (RouteEnd.door.inj second).1] at lacks'
        exact absurd decided.2 lacks'
      | denied hit message => exact .denied answer hit message lack
      | hidden hit target => exact .hidden answer hit target lack
      | _ => cases second
    | _ => cases first

/-- A resolution that is refused, at a reserved canonical or before it reports one. -/
def Refuses (reserved : Endpoint → Iri → Bool) (resolution : Except SealBreach (Resolution σ)) :
    Prop :=
  (∃ breach, resolution = .error breach) ∨
    ∃ hit canonical, resolution = .ok (.hit hit) ∧ hit.canonical = some canonical ∧
      reserved hit.endpoint canonical = true

/-- A resolution that no door answers: a miss, or a limiter that reports nothing reserved. -/
def Unanswered (reserved : Endpoint → Iri → Bool) (resolution : Except SealBreach (Resolution σ)) :
    Prop :=
  resolution = .ok .miss ∨
    ∃ hit, resolution = .ok (.hit hit) ∧ hit.endpoint.isLimiter = true ∧
      ∀ canonical, hit.canonical = some canonical → reserved hit.endpoint canonical = false

/-- A resolution that a door answers, reporting nothing reserved. -/
def AnsweredBy (reserved : Endpoint → Iri → Bool) (resolution : Except SealBreach (Resolution σ))
    (hit : Resolved σ) : Prop :=
  resolution = .ok (.hit hit) ∧ hit.endpoint.isLimiter = false ∧
    ∀ canonical, hit.canonical = some canonical → reserved hit.endpoint canonical = false

/-- Two resolutions, the dry run's and the issue path's, that are answered alike: both refused, or
by no door, or by one door with the same bindings, or by two doors that both refuse. -/
inductive AnsweredAlike (lacks : Endpoint → Prop)
    (dry issued : Except SealBreach (Resolution σ)) : Prop where
  | refused (refuses : Refuses dryReserved dry) (refuses' : Refuses issuedReserved issued)
  | nothing (silent : Unanswered dryReserved dry) (silent' : Unanswered issuedReserved issued)
  | door (hit hit' : Resolved σ) (answers : AnsweredBy dryReserved dry hit)
      (answers' : AnsweredBy issuedReserved issued hit') (endpoint : hit.endpoint = hit'.endpoint)
      (bindings : hit.bindings = hit'.bindings)
  | lacking (hit hit' : Resolved σ) (answers : AnsweredBy dryReserved dry hit)
      (answers' : AnsweredBy issuedReserved issued hit') (lack : lacks hit.endpoint)
      (lack' : lacks hit'.endpoint)

/-- The name that the kernel's table leads to, where it passes no named request on the way. -/
inductive Renames (kernel : Kernel σ) (asked : Iri) : Iri → Prop where
  | untabled (bare : kernel.aliases = none) : Renames kernel asked asked
  | direct (table : AliasTable) (held : kernel.aliases = some table)
      (unmatched : table.canonicalize asked = .direct) : Renames kernel asked asked
  | aliased (table : AliasTable) (hop : AliasHop) (held : kernel.aliases = some table)
      (rewritten : table.canonicalize asked = .aliased hop)
      (unnamed : table.throughNamed hop = false) : Renames kernel asked hop.canonical

/-- The names of which the dry run tells what issuing them does, by what the kernel's table makes
of them and what the chain reports. -/
inductive LedAlike (kernel : Kernel σ) (scope : Scope σ) (verb : Verb) (capability : Capability)
    (asked : Iri) : Prop where
  /-- The table refuses the name. -/
  | refused (table : AliasTable) (refusal : AliasRefusal) (held : kernel.aliases = some table)
      (refuses : table.canonicalize asked = .refused refusal)
  /-- It leads to an operation of the kernel's. -/
  | operation (name : Iri) (op : Text) (renames : kernel.Renames asked name)
      (reserved : kernelOp name = some op)
  /-- It leads to a name outside the kernel's namespaces, and no space reports a canonical
  inside `urn:stream:`, nor a limiter one inside `urn:kernel:`. -/
  | walked (name : Iri) (renames : kernel.Renames asked name) (outside : kernelOp name = none)
      (unstreamed : isStream name = false)
      (reported : ∀ hit canonical,
        scope.resolveIn (Request.new verb name) kernel.root kernel.seals = .ok (.hit hit) →
        hit.canonical = some canonical →
          isStream canonical = false ∧ (hit.endpoint.isLimiter = true → kernelOp canonical = none))
  /-- It leads to a name of the stream builtins, which the chain answers as they do. -/
  | stream (name : Iri) (renames : kernel.Renames asked name) (outside : kernelOp name = none)
      (streamed : isStream name = true)
      (alike : AnsweredAlike
        (fun endpoint => (kernel.describe endpoint).unsatisfiedScopes verb capability ≠ [])
        (scope.resolveIn (Request.new verb name) kernel.root kernel.seals)
        (.ok (firstBinding name kernel.streams)))
  /-- It leads through a named request to a name outside `urn:kernel:`, which the chain answers
  as it answers the name as it was asked. -/
  | named (table : AliasTable) (hop : AliasHop) (held : kernel.aliases = some table)
      (rewritten : table.canonicalize asked = .aliased hop)
      (through : table.throughNamed hop = true) (outside : kernelOp hop.canonical = none)
      (alike : AnsweredAlike
        (fun endpoint => (kernel.describe endpoint).unsatisfiedScopes verb capability ≠ [])
        (scope.resolveIn (Request.new verb hop.canonical) kernel.root kernel.seals)
        (kernel.resolution (Request.new verb asked) scope))

/-- `Meta` is not hidden at the door that answers a name when it is issued. -/
def MetaShown (kernel : Kernel σ) (scope : Scope σ) (capability : Capability) (asked : Iri) : Prop :=
  ∀ hop hit, kernel.canonicalize asked = .ok hop →
    kernelOp (renamed (Request.new .«meta» asked) hop).target = none →
    AnsweredBy issuedReserved
      (kernel.resolution (renamed (Request.new .«meta» asked) hop) scope) hit →
      (Floor.of (kernel.describe hit.endpoint)).conceals .«meta» capability = false

omit [IriSyntax] [Blake3] [RequestHash] [Space σ] in
/-- What a resolution leads to is a refusal, nothing, or a door, as it is told. -/
theorem landed_cases (reserved : Endpoint → Iri → Bool)
    (resolution : Except SealBreach (Resolution σ)) :
    (Refuses reserved resolution ∧ landedEnd reserved resolution = .refused) ∨
      (Unanswered reserved resolution ∧ landedEnd reserved resolution = .unresolved) ∨
      ∃ hit, AnsweredBy reserved resolution hit ∧
        landedEnd reserved resolution = .door hit.endpoint hit.bindings := by
  cases resolution with
  | error breach => exact .inl ⟨.inl ⟨breach, rfl⟩, rfl⟩
  | ok answer =>
    cases answer with
    | miss => exact .inr (.inl ⟨.inl rfl, rfl⟩)
    | hit hit =>
      unfold landedEnd
      dsimp only
      cases inside : hit.canonical.any (reserved hit.endpoint) with
      | true =>
        obtain ⟨canonical, reported, held⟩ := (Option.any_eq_true _ _).mp inside
        exact .inl ⟨.inr ⟨hit, canonical, rfl, reported, held⟩, rfl⟩
      | false =>
        have free : ∀ canonical, hit.canonical = some canonical →
            reserved hit.endpoint canonical = false := by
          intro canonical reported
          simpa [reported] using inside
        cases limits : hit.endpoint.isLimiter with
        | true => exact .inr (.inl ⟨.inr ⟨hit, rfl, limits, free⟩, rfl⟩)
        | false => exact .inr (.inr ⟨hit, ⟨rfl, limits, free⟩, rfl⟩)

omit [IriSyntax] [Blake3] [RequestHash] [Space σ] in
/-- What refuses is landed as a refusal. -/
theorem landed_of_refuses {reserved : Endpoint → Iri → Bool}
    {resolution : Except SealBreach (Resolution σ)} (refuses : Refuses reserved resolution) :
    landedEnd reserved resolution = .refused := by
  rcases refuses with ⟨breach, rfl⟩ | ⟨hit, canonical, rfl, reported, held⟩
  · rfl
  · simp [landedEnd, reported, held]

omit [IriSyntax] [Blake3] [RequestHash] [Space σ] in
/-- What nobody answers is landed as unresolved. -/
theorem landed_of_unanswered {reserved : Endpoint → Iri → Bool}
    {resolution : Except SealBreach (Resolution σ)} (silent : Unanswered reserved resolution) :
    landedEnd reserved resolution = .unresolved := by
  rcases silent with rfl | ⟨hit, rfl, limits, free⟩
  · rfl
  · have open' : hit.canonical.any (reserved hit.endpoint) = false := by
      rw [Option.any_eq_false]
      exact fun canonical reported => by simp [free canonical reported]
    simp [landedEnd, open', limits]

omit [IriSyntax] [Blake3] [RequestHash] [Space σ] in
/-- What a door answers is landed at that door. -/
theorem landed_of_answered {reserved : Endpoint → Iri → Bool}
    {resolution : Except SealBreach (Resolution σ)} {hit : Resolved σ}
    (answers : AnsweredBy reserved resolution hit) :
    landedEnd reserved resolution = .door hit.endpoint hit.bindings := by
  obtain ⟨rfl, real, free⟩ := answers
  have open' : hit.canonical.any (reserved hit.endpoint) = false := by
    rw [Option.any_eq_false]
    exact fun canonical reported => by simp [free canonical reported]
  simp [landedEnd, open', real]

omit [IriSyntax] [Blake3] [RequestHash] [Space σ] in
/-- A refusal that is landed was refused. -/
theorem refuses_of_landed {reserved : Endpoint → Iri → Bool}
    {resolution : Except SealBreach (Resolution σ)}
    (led : landedEnd reserved resolution = .refused) : Refuses reserved resolution := by
  rcases landed_cases reserved resolution with ⟨refuses, _⟩ | ⟨_, other⟩ | ⟨hit, _, other⟩
  · exact refuses
  · rw [led] at other
    cases other
  · rw [led] at other
    cases other

omit [IriSyntax] [Blake3] [RequestHash] [Space σ] in
/-- Where nothing is landed nobody answered. -/
theorem unanswered_of_landed {reserved : Endpoint → Iri → Bool}
    {resolution : Except SealBreach (Resolution σ)}
    (led : landedEnd reserved resolution = .unresolved) : Unanswered reserved resolution := by
  rcases landed_cases reserved resolution with ⟨_, other⟩ | ⟨silent, _⟩ | ⟨hit, _, other⟩
  · rw [led] at other
    cases other
  · exact silent
  · rw [led] at other
    cases other

omit [IriSyntax] [Blake3] [RequestHash] [Space σ] in
/-- A door that is landed at answered. -/
theorem answered_of_landed {reserved : Endpoint → Iri → Bool}
    {resolution : Except SealBreach (Resolution σ)} {endpoint : Endpoint}
    {bindings : List (Text × Text)} (led : landedEnd reserved resolution = .door endpoint bindings) :
    ∃ hit, AnsweredBy reserved resolution hit ∧ hit.endpoint = endpoint ∧
      hit.bindings = bindings := by
  rcases landed_cases reserved resolution with ⟨_, other⟩ | ⟨_, other⟩ | ⟨hit, answers, same⟩
  · rw [led] at other
    cases other
  · rw [led] at other
    cases other
  · rw [led] at same
    cases same
    exact ⟨hit, answers, rfl, rfl⟩

omit [IriSyntax] [Blake3] [RequestHash] [Space σ] in
/-- Two resolutions lead alike exactly where they are answered alike. -/
theorem answered_alike_iff (lacks : Endpoint → Prop)
    (dry issued : Except SealBreach (Resolution σ)) :
    RouteEnd.Alike lacks (landedEnd dryReserved dry) (landedEnd issuedReserved issued) ↔
      AnsweredAlike lacks dry issued := by
  constructor
  · rintro (same | ⟨endpoint, bindings, endpoint', bindings', first, second, lack, lack'⟩)
    · rcases landed_cases dryReserved dry with ⟨refuses, led⟩ | ⟨silent, led⟩ | ⟨hit, answers, led⟩
      · exact .refused refuses (refuses_of_landed (same.symm.trans led))
      · exact .nothing silent (unanswered_of_landed (same.symm.trans led))
      · obtain ⟨hit', answers', endpoint, bindings⟩ := answered_of_landed (same.symm.trans led)
        exact .door hit hit' answers answers' endpoint.symm bindings.symm
    · obtain ⟨hit, answers, rfl, rfl⟩ := answered_of_landed first
      obtain ⟨hit', answers', rfl, rfl⟩ := answered_of_landed second
      exact .lacking hit hit' answers answers' lack lack'
  · intro alike
    cases alike with
    | refused refuses refuses' =>
      exact .inl ((landed_of_refuses refuses).trans (landed_of_refuses refuses').symm)
    | nothing silent silent' =>
      exact .inl ((landed_of_unanswered silent).trans (landed_of_unanswered silent').symm)
    | door hit hit' answers answers' endpoint bindings =>
      left
      rw [landed_of_answered answers, landed_of_answered answers', endpoint, bindings]
    | lacking hit hit' answers answers' lack lack' =>
      exact .inr ⟨_, _, _, _, landed_of_answered answers, landed_of_answered answers', lack, lack'⟩

omit [IriSyntax] [Blake3] [RequestHash] [Space σ] in
/-- The two namespaces the kernel answers itself have no name in common. -/
theorem kernel_op_unstreamed (name : Iri) (reserved : (kernelOp name).isSome = true) :
    isStream name = false := by
  by_contra streamed
  rw [Bool.not_eq_false, isStream, Text.starts_with_iff] at streamed
  obtain ⟨rest, rfl⟩ := streamed
  have opening : (streamPrefix ++ rest).take "urn:kernel:".toList.length = streamPrefix :=
    List.take_left' (by decide)
  have foreign : streamPrefix.map Char.toLower ≠ "urn:kernel:".toList := by decide
  rw [kernelOp, opening, if_neg foreign] at reserved
  cases reserved

omit [IriSyntax] [Blake3] [RequestHash] [Space σ] in
/-- One resolution leads the dry run and the issue path alike, unless it reports a canonical
that only one of them refuses. -/
theorem one_resolution_iff (lacks : Endpoint → Prop)
    (resolution : Except SealBreach (Resolution σ)) :
    RouteEnd.Alike lacks (landedEnd dryReserved resolution)
        (landedEnd issuedReserved resolution) ↔
      ∀ hit canonical, resolution = .ok (.hit hit) → hit.canonical = some canonical →
        isStream canonical = false ∧ (hit.endpoint.isLimiter = true → kernelOp canonical = none) := by
  have reading : ∀ (hit : Resolved σ) (canonical : Iri) (_ : hit.canonical = some canonical),
      RouteEnd.Alike lacks (landedEnd dryReserved (.ok (.hit hit)))
          (landedEnd issuedReserved (.ok (.hit hit))) ↔
        isStream canonical = false ∧
          (hit.endpoint.isLimiter = true → kernelOp canonical = none) := by
    intro hit canonical reported
    simp only [landedEnd, reported, Option.any_some, dryReserved, issuedReserved]
    cases streamed : isStream canonical with
    | true =>
      have plain : kernelOp canonical = none := by
        by_contra op
        rw [kernel_op_unstreamed canonical (Option.isSome_iff_ne_none.mpr op)] at streamed
        cases streamed
      cases hit.endpoint.isLimiter <;> simp [plain, RouteEnd.Alike]
    | false =>
      cases kernelOp canonical <;> cases hit.endpoint.isLimiter <;> simp [RouteEnd.Alike]
  cases resolution with
  | error breach => exact iff_of_true (.inl rfl) nofun
  | ok answer =>
    cases answer with
    | miss => exact iff_of_true (.inl rfl) nofun
    | hit hit =>
      cases reported : hit.canonical with
      | none =>
        refine iff_of_true (.inl ?_) ?_
        · simp [landedEnd, reported]
        · rintro _ canonical same reported'
          cases same
          rw [reported] at reported'
          cases reported'
      | some canonical =>
        rw [reading hit canonical reported]
        constructor
        · rintro free _ _ same reported'
          cases same
          rw [reported] at reported'
          cases reported'
          exact free
        · exact fun free => free hit canonical rfl reported

omit [Blake3] [RequestHash] [Space σ] in
/-- Going to the name the dry run goes on from moves no counter of the kernel's table. -/
theorem explained_counts_nothing (kernel : Kernel σ) (asked name : Iri)
    (led : (kernel.explainedRewrite asked).2 = .ok name) (counts : List RuleCounts) :
    kernel.counted name counts = counts := by
  unfold explainedRewrite at led
  unfold counted
  cases held : kernel.aliases with
  | none => rfl
  | some table =>
    rw [held] at led
    dsimp only at led ⊢
    cases named : table.canonicalize asked with
    | direct =>
      rw [named] at led
      cases led
      rw [named]
      rfl
    | aliased hop =>
      rw [named] at led
      cases led
      obtain ⟨_, _, _, ended, _⟩ := AliasTable.aliased_chain hop named
      rw [AliasTable.direct_of_ended hop.canonical ended]
      rfl
    | refused refusal =>
      rw [named] at led
      cases led

omit [RequestHash] [Blake3] [Space σ] in
/-- Both go on from the name that the table leads to through no named request. -/
theorem renames_led {kernel : Kernel σ} {asked name : Iri} (renames : kernel.Renames asked name)
    (verb : Verb) : (kernel.explainedRewrite asked).2 = .ok name ∧
      ∃ hop, kernel.canonicalize asked = .ok hop ∧
        renamed (Request.new verb asked) hop = Request.new verb name := by
  unfold explainedRewrite canonicalize
  cases renames with
  | untabled bare =>
    rw [bare]
    exact ⟨rfl, none, rfl, rfl⟩
  | direct table held unmatched =>
    rw [held]
    dsimp only
    rw [unmatched]
    exact ⟨rfl, none, rfl, rfl⟩
  | aliased table hop held rewritten unnamed =>
    rw [held]
    dsimp only
    rw [rewritten]
    dsimp only
    rw [unnamed]
    exact ⟨rfl, some hop, rfl, rfl⟩

omit [RequestHash] [Blake3] [Space σ] in
/-- A table refuses the name for both. -/
theorem refused_led {kernel : Kernel σ} {asked : Iri} {table : AliasTable} {refusal : AliasRefusal}
    (held : kernel.aliases = some table) (refuses : table.canonicalize asked = .refused refusal) :
    (∃ message, (kernel.explainedRewrite asked).2 = .error message) ∧
      ∃ error, kernel.canonicalize asked = .error error := by
  unfold explainedRewrite canonicalize
  rw [held]
  dsimp only
  rw [refuses]
  exact ⟨⟨_, rfl⟩, _, rfl⟩

omit [RequestHash] [Blake3] [Space σ] in
/-- Through a named request the dry run goes on from the name the table leads to, and the issue
path from the name as it was asked. -/
theorem named_led {kernel : Kernel σ} {asked : Iri} {table : AliasTable} {hop : AliasHop}
    (held : kernel.aliases = some table) (rewritten : table.canonicalize asked = .aliased hop)
    (through : table.throughNamed hop = true) :
    (kernel.explainedRewrite asked).2 = .ok hop.canonical ∧
      kernel.canonicalize asked = .ok none := by
  unfold explainedRewrite canonicalize
  rw [held]
  dsimp only
  rw [rewritten]
  dsimp only
  rw [through]
  exact ⟨rfl, rfl⟩

omit [Blake3] [RequestHash] in
/-- A table rewrites no name of the kernel's own. -/
theorem unreserved_of_aliased {table : AliasTable} {asked : Iri} {hop : AliasHop}
    (rewritten : table.canonicalize asked = .aliased hop) : kernelOp asked = none := by
  by_contra reserved
  rw [table.canonicalize_reserved reserved] at rewritten
  cases rewritten

omit [IriSyntax] [RequestHash] in
/-- From one name both are led alike where it is an operation, or no space reports a canonical
that only one of them refuses, or the chain answers a stream builtin's name as the builtins do. -/
theorem onward_alike_iff (kernel : Kernel σ) (scope : Scope σ) (verb : Verb) (name : Iri)
    (lacks : Endpoint → Prop) :
    RouteEnd.Alike lacks (kernel.dryEnd scope (Request.new verb name))
        (kernel.onwardEnd scope (Request.new verb name)) ↔
      (∃ op, kernelOp name = some op) ∨
      (kernelOp name = none ∧ isStream name = false ∧ ∀ hit canonical,
        scope.resolveIn (Request.new verb name) kernel.root kernel.seals = .ok (.hit hit) →
        hit.canonical = some canonical → isStream canonical = false ∧
          (hit.endpoint.isLimiter = true → kernelOp canonical = none)) ∨
      (kernelOp name = none ∧ isStream name = true ∧ AnsweredAlike lacks
        (scope.resolveIn (Request.new verb name) kernel.root kernel.seals)
        (.ok (firstBinding name kernel.streams))) := by
  have target : (Request.new verb name).target = name := rfl
  unfold dryEnd onwardEnd resolution
  rw [target]
  cases kernelOp name with
  | some op => exact iff_of_true (.inl rfl) (.inl ⟨op, rfl⟩)
  | none =>
    simp only [reduceCtorEq, exists_false, false_or, true_and]
    cases isStream name with
    | true =>
      simp only [if_true, Bool.true_eq_false, false_and, false_or, true_and]
      exact answered_alike_iff lacks _ _
    | false =>
      simp only [Bool.false_eq_true, if_false, false_and, or_false, true_and]
      exact one_resolution_iff lacks _

omit [IriSyntax] [RequestHash] in
/-- Through a named request both are led alike where the chain answers both names alike. -/
theorem named_alike_iff (kernel : Kernel σ) (scope : Scope σ) (verb : Verb) (asked led : Iri)
    (unreserved : kernelOp asked = none) (lacks : Endpoint → Prop) :
    RouteEnd.Alike lacks (kernel.dryEnd scope (Request.new verb led))
        (kernel.onwardEnd scope (Request.new verb asked)) ↔
      kernelOp led = none ∧ AnsweredAlike lacks
        (scope.resolveIn (Request.new verb led) kernel.root kernel.seals)
        (kernel.resolution (Request.new verb asked) scope) := by
  have target : (Request.new verb led).target = led := rfl
  have target' : (Request.new verb asked).target = asked := rfl
  unfold dryEnd onwardEnd
  rw [target, target', unreserved]
  cases kernelOp led with
  | some op =>
    refine iff_of_false ?_ (fun both => by cases both.1)
    rintro (same | ⟨_, _, _, _, first, _⟩)
    · rcases landed_cases issuedReserved (kernel.resolution (Request.new verb asked) scope) with
        ⟨_, led⟩ | ⟨_, led⟩ | ⟨_, _, led⟩ <;>
        · rw [led] at same
          cases same
    · cases first
  | none =>
    simp only [true_and]
    exact answered_alike_iff lacks _ _

omit [RequestHash] in
/-- The dry run and the issue path lead alike from exactly the names that are led alike. -/
theorem ends_alike_iff (kernel : Kernel σ) (scope : Scope σ) (verb : Verb)
    (capability : Capability) (asked : Iri) :
    RouteEnd.Alike
        (fun endpoint => (kernel.describe endpoint).unsatisfiedScopes verb capability ≠ [])
        (kernel.explainedEnd scope verb asked) (kernel.issuedEnd scope verb asked) ↔
      kernel.LedAlike scope verb capability asked := by
  have renamedTo (name : Iri) (renames : kernel.Renames asked name) :
      kernel.explainedEnd scope verb asked = kernel.dryEnd scope (Request.new verb name) ∧
        kernel.issuedEnd scope verb asked = kernel.onwardEnd scope (Request.new verb name) := by
    obtain ⟨led, hop, hopped, request⟩ := renames_led renames verb
    simp only [explainedEnd, issuedEnd, led, hopped, request, and_self]
  constructor
  · intro alike
    have unnamed (name : Iri) (renames : kernel.Renames asked name) :
        kernel.LedAlike scope verb capability asked := by
      rw [(renamedTo name renames).1, (renamedTo name renames).2, onward_alike_iff] at alike
      rcases alike with ⟨op, reserved⟩ | ⟨outside, unstreamed, reported⟩ | ⟨outside, streamed, alike⟩
      · exact .operation name op renames reserved
      · exact .walked name renames outside unstreamed reported
      · exact .stream name renames outside streamed alike
    cases held : kernel.aliases with
    | none => exact unnamed asked (.untabled held)
    | some table =>
      cases rewritten : table.canonicalize asked with
      | direct => exact unnamed asked (.direct table held rewritten)
      | refused refusal => exact .refused table refusal held rewritten
      | aliased hop =>
        cases through : table.throughNamed hop with
        | false => exact unnamed hop.canonical (.aliased table hop held rewritten through)
        | true =>
          obtain ⟨led, hopped⟩ := named_led held rewritten through
          have unreserved := unreserved_of_aliased rewritten
          simp only [explainedEnd, issuedEnd, led, hopped, renamed] at alike
          obtain ⟨outside, alike⟩ :=
            (kernel.named_alike_iff scope verb asked hop.canonical unreserved _).mp alike
          exact .named table hop held rewritten through outside alike
  · intro led
    cases led with
    | refused table refusal held refuses =>
      obtain ⟨⟨_, led⟩, _, refused⟩ := refused_led held refuses
      left
      simp only [explainedEnd, issuedEnd, led, refused]
    | operation name op renames reserved =>
      rw [(renamedTo name renames).1, (renamedTo name renames).2, onward_alike_iff]
      exact .inl ⟨op, reserved⟩
    | walked name renames outside unstreamed reported =>
      rw [(renamedTo name renames).1, (renamedTo name renames).2, onward_alike_iff]
      exact .inr (.inl ⟨outside, unstreamed, reported⟩)
    | stream name renames outside streamed alike =>
      rw [(renamedTo name renames).1, (renamedTo name renames).2, onward_alike_iff]
      exact .inr (.inr ⟨outside, streamed, alike⟩)
    | named table hop held rewritten through outside alike =>
      obtain ⟨led, hopped⟩ := named_led held rewritten through
      simp only [explainedEnd, issuedEnd, led, hopped, renamed]
      exact (kernel.named_alike_iff scope verb asked hop.canonical
        (unreserved_of_aliased rewritten) _).mpr ⟨outside, alike⟩

omit [RequestHash] in
/-- The door that answers `Meta` is the one the issue path leads to. -/
theorem meta_shown_iff (kernel : Kernel σ) (scope : Scope σ) (capability : Capability)
    (asked : Iri) :
    kernel.MetaShown scope capability asked ↔ ∀ endpoint bindings,
      kernel.issuedEnd scope .«meta» asked = .door endpoint bindings →
        (Floor.of (kernel.describe endpoint)).conceals .«meta» capability = false := by
  unfold issuedEnd
  constructor
  · intro shown endpoint bindings led
    cases hopped : kernel.canonicalize asked with
    | error error =>
      rw [hopped] at led
      cases led
    | ok hop =>
      rw [hopped] at led
      dsimp only [onwardEnd] at led
      cases op : kernelOp (renamed (Request.new .«meta» asked) hop).target with
      | some op =>
        rw [op] at led
        cases led
      | none =>
        rw [op] at led
        obtain ⟨hit, answers, rfl, _⟩ := answered_of_landed led
        exact shown hop hit hopped op answers
  · intro shown hop hit hopped outside answers
    refine shown hit.endpoint hit.bindings ?_
    rw [hopped]
    dsimp only [onwardEnd]
    rw [outside]
    exact landed_of_answered answers

end Telling

end Kernel

namespace StreamExplained

local instance lengthDigest : Blake3 := ⟨fun bytes => bytes.length.toUInt64⟩

local instance everyIri : IriSyntax := ⟨fun _ => true, fun _ => []⟩

local instance noHash : RequestHash := ⟨fun _ => ⟨Vector.replicate 32 0⟩, fun _ => 0⟩

def streamText : Iri := "urn:stream:text".toList

def bound : Iri := "urn:example:bound".toList

/-- A kernel with one stream builtin, and one name bound in its root. -/
def kernel : Kernel (Arrangement Empty) where
  aliases := none
  root := .endpointSpace [(.exact bound, .bound 1 false)] none
  seals := .default
  streams := [(.exact streamText, .bound 0 false)]
  maxDepth := 64
  describe := fun _ => { id := [] }
  address := Endpoint.ownAddress
  apart := Endpoint.own_address_injective
  alive := fun _ => true

def read (target : Iri) : Call (Arrangement Empty) where
  request := .new .source target
  capability := .root
  scope := .empty
  depth := 0
  incoming := none
  buffer := true
  now := none

def run : Runner (Arrangement Empty) Unit Unit where
  enter := fun _ _ state => (.error (.endpoint []), state)
  operate := fun _ _ _ _ _ state => (.error (.endpoint []), state)

def start : IssueState Unit Unit := ⟨[], ∅, ∅, .new (), [], ()⟩

end StreamExplained

end Ikigai
