import Ikigai.IssuePath

/-!
# Limited names

A hit on ⊥ is answered as a name bound nowhere. The answer names what the request was
resolved under, so a name that a space rewrote onto a limited one is limited under the
name the space reported. Two kernels are compared that differ in their arrangements and
in the chain the request is resolved in.
-/

namespace Ikigai

namespace Kernel

variable {σ π υ : Type}

/-- Two kernels that may differ in their arrangements alone. -/
structure Alike (kernel other : Kernel σ) : Prop where
  aliases : other.aliases = kernel.aliases
  maxDepth : other.maxDepth = kernel.maxDepth

/-- What a request that meets a limiter is answered: the name it was limited under, or the
refusal of a canonical inside a namespace the kernel answers itself. -/
def limitedError (asked : Request) (hit : Resolved σ) : Error :=
  match hit.canonical.bind (rewrittenInto asked) with
  | some refusal => refusal
  | none => .unresolved (hit.canonical.getD asked.target)

theorem Alike.canonicalize [IriSyntax] {kernel other : Kernel σ} (alike : kernel.Alike other)
    (target : Iri) : other.canonicalize target = kernel.canonicalize target := by
  simp only [Kernel.canonicalize, alike.aliases]

/-- A request takes the same way up to resolution. -/
theorem Alike.route [IriSyntax] {kernel other : Kernel σ} (alike : kernel.Alike other)
    (request : Request)
    (depth : Nat) : other.route request depth = kernel.route request depth := by
  simp only [Kernel.route, alike.canonicalize, alike.maxDepth]

theorem adopted_target (asked : Request) (hop : Option AliasHop) (canonical : Option Iri) :
    (adopt asked hop canonical).1.target = canonical.getD asked.target := by
  unfold adopt
  cases canonical with
  | none => rfl
  | some canonical =>
    by_cases same : canonical = asked.target
    · simp [same]
    · simp [same]

/-- A refusal of a canonical is no miss. -/
theorem rewritten_into_not_unresolved (asked : Request) (canonical target : Iri)
    (refusal : Error) (refused : rewrittenInto asked canonical = some refusal) :
    refusal ≠ .unresolved target := by
  unfold rewrittenInto at refused
  split at refused
  · rintro rfl
    cases refused
  · split at refused
    · rintro rfl
      cases refused
    · cases refused

/-- Limited under the name asked for is a miss of that name, and nothing else is. -/
theorem limited_error_eq_iff (asked : Request) (hit : Resolved σ)
    (free : kernelOp asked.target = none)
    (plain : hit.canonical.isSome = true → isStream asked.target = false) :
    limitedError asked hit = .unresolved asked.target ↔
      hit.canonical.getD asked.target = asked.target := by
  unfold limitedError
  cases reported : hit.canonical with
  | none => simp
  | some canonical =>
    simp only [Option.bind_some, Option.getD_some]
    cases refused : rewrittenInto asked canonical with
    | some refusal =>
      constructor
      · intro same
        exact absurd same (rewritten_into_not_unresolved asked canonical _ refusal refused)
      · rintro rfl
        have outside := plain (by rw [reported]; rfl)
        simp [rewrittenInto, free, outside] at refused
    | none => simp

/-- A name the kernel resolves is not in its own namespace. -/
theorem route_not_operation [IriSyntax] (kernel : Kernel σ) (request asked : Request)
    (depth : Nat) (hop : Option AliasHop) (arrives : kernel.route request depth = .space asked hop) :
    kernelOp asked.target = none := by
  unfold route at arrives
  split at arrives
  · cases arrives
  · dsimp only at arrives
    split at arrives
    · cases arrives
    · split at arrives
      · cases arrives
      · rename_i free
        cases arrives
        exact free

/-- A leaf space rewrites nothing. -/
theorem first_binding_unrewritten (target : Iri) (bindings : List (Grammar × Endpoint))
    (hit : Resolved σ) (answered : firstBinding target bindings = .hit hit) :
    hit.canonical = none := by
  induction bindings with
  | nil => cases answered
  | cons binding rest ih =>
    unfold firstBinding at answered
    cases matched : binding.1.matchIri target with
    | some captures =>
      rw [matched] at answered
      cases answered
      rfl
    | none =>
      rw [matched] at answered
      exact ih answered

section Resolving

variable [Blake3] [Space σ]

/-- The stream builtins rewrite nothing. -/
theorem rewritten_is_no_stream (kernel : Kernel σ) (asked : Request) (scope : Scope σ)
    (hit : Resolved σ) (answered : kernel.resolution asked scope = .ok (.hit hit))
    (reported : hit.canonical.isSome = true) : isStream asked.target = false := by
  by_contra builtin
  rw [Bool.not_eq_false] at builtin
  simp only [resolution, builtin, ↓reduceIte, Except.ok.injEq] at answered
  rw [first_binding_unrewritten asked.target kernel.streams hit answered] at reported
  cases reported

/-- What the path does with a hit on ⊥. -/
theorem found_limited (kernel : Kernel σ) (asked : Request) (hop : Option AliasHop)
    (scope : Scope σ) (hit : Resolved σ)
    (answered : kernel.resolution asked scope = .ok (.hit hit))
    (bottom : hit.endpoint.isLimiter = true) :
    kernel.found asked hop scope = .refused (limitedError asked hit) ∨
      ∃ adopted, kernel.found asked hop scope = .limited adopted ∧
        limitedError asked hit = .unresolved adopted.target := by
  simp only [found, limitedError, answered]
  cases refused : hit.canonical.bind (rewrittenInto asked) with
  | some refusal => exact .inl rfl
  | none =>
    refine .inr ⟨(adopt asked hop hit.canonical).1, ?_, ?_⟩
    · simp only [bottom, ↓reduceIte]
    · rw [adopted_target]

variable [IriSyntax] [RequestHash]

/-- A request that meets a limiter is refused, and all it leaves behind is that the kernel's
own rewrite was counted. -/
theorem issue_limited (kernel : Kernel σ) (run : Runner σ π υ) (call : Call σ)
    (state : IssueState π υ) (asked : Request) (hop : Option AliasHop) (hit : Resolved σ)
    (arrives : kernel.route call.request call.depth = .space asked hop)
    (answered : kernel.resolution asked call.scope = .ok (.hit hit))
    (bottom : hit.endpoint.isLimiter = true) :
    kernel.issue run call state = (.error (limitedError asked hit),
      { state with counts := kernel.counted call.request.target state.counts }) := by
  rcases kernel.found_limited asked hop call.scope hit answered bottom with
    refused | ⟨adopted, limited, named⟩
  · simp only [issue, arrives, refused]
  · simp only [issue, arrives, limited, named]

/-- A request for a name bound nowhere. -/
theorem issue_missed (kernel : Kernel σ) (run : Runner σ π υ) (call : Call σ)
    (state : IssueState π υ) (asked : Request) (hop : Option AliasHop)
    (arrives : kernel.route call.request call.depth = .space asked hop)
    (missed : kernel.resolution asked call.scope = .ok .miss) :
    kernel.issue run call state = (.error (.unresolved asked.target),
      { state with
        counts := kernel.recordUnresolved hop
          (kernel.counted call.request.target state.counts) }) := by
  have found : kernel.found asked hop call.scope = .missed := by
    simp only [Kernel.found, missed]
  simp only [issue, arrives, found]

/-- A limited name against the same name bound nowhere: the answers are the same exactly
when no space rewrote the name, and neither leaves anything in the cache, the memos, the
constraint window or the log. -/
theorem limited_is_missed_under_its_canonical (kernel other : Kernel σ) (alike : kernel.Alike other)
    (run : Runner σ π υ) (call : Call σ) (chain : Scope σ) (state : IssueState π υ)
    (asked : Request) (hop : Option AliasHop) (hit : Resolved σ)
    (arrives : kernel.route call.request call.depth = .space asked hop)
    (answered : kernel.resolution asked call.scope = .ok (.hit hit))
    (bottom : hit.endpoint.isLimiter = true)
    (missed : other.resolution asked chain = .ok .miss) :
    let limited := kernel.issue run call state
    let unbound := other.issue run { call with scope := chain } state
    limited.1 = .error (limitedError asked hit) ∧
      unbound.1 = .error (.unresolved asked.target) ∧
      (limited.1 = unbound.1 ↔ hit.canonical.getD asked.target = asked.target) ∧
      limited.2 = { state with counts := limited.2.counts } ∧
      unbound.2 = { state with counts := unbound.2.counts } := by
  have here := kernel.issue_limited run call state asked hop hit arrives answered bottom
  have there := other.issue_missed run { call with scope := chain } state asked hop
    ((alike.route call.request call.depth).trans arrives) missed
  have free := kernel.route_not_operation call.request asked call.depth hop arrives
  simp only [here, there, true_and, and_true, Except.error.injEq]
  exact limited_error_eq_iff asked hit free
    (kernel.rewritten_is_no_stream asked call.scope hit answered)

end Resolving

end Kernel

namespace LimitedExample

local instance anyDigest : Blake3 := ⟨fun bytes => bytes.length.toUInt64⟩

local instance anyIri : IriSyntax := ⟨fun _ => true, fun _ => []⟩

local instance oneHash : RequestHash := ⟨fun _ => ⟨Vector.replicate 32 0⟩, fun _ => 0⟩

def asked : Iri := "urn:example:logical".toList

def personal : Iri := "urn:example:personal".toList

/-- An overlay that rewrites one name, over some arrangement. -/
def overlay (inner : Arrangement Empty) : Arrangement Empty :=
  .«alias» (.ofRules [.plain .exact asked personal .child]) inner none

def kernel (root : Arrangement Empty) : Kernel (Arrangement Empty) where
  aliases := none
  root := root
  seals := .default
  streams := []
  maxDepth := 64
  describe := fun _ => { id := [] }
  address := Endpoint.ownAddress
  apart := Endpoint.own_address_injective
  alive := fun _ => true

def limited : Kernel (Arrangement Empty) := kernel (overlay (.limit (.headed personal) none))

def unbound : Kernel (Arrangement Empty) := kernel (overlay (.endpointSpace [] none))

def run : Runner (Arrangement Empty) Unit Unit where
  enter := fun _ _ state => (.error (.endpoint []), state)
  operate := fun _ _ _ _ _ state => (.error (.endpoint []), state)

def read (target : Iri) : Call (Arrangement Empty) where
  request := .new .source target
  capability := .root
  scope := .empty
  depth := 0
  incoming := none
  buffer := true
  now := none

def start : IssueState Unit Unit := ⟨[], ∅, ∅, .new (), [], ()⟩

/-- The limited name shows in the answer to the name asked for; unbound, it does not. -/
theorem rewrite_shows_limited_name :
    (limited.issue run (read asked) start).1 = .error (.unresolved personal) ∧
      (unbound.issue run (read asked) start).1 = .error (.unresolved asked) ∧
      (limited.issue run (read asked) start).1 ≠ (unbound.issue run (read asked) start).1 := by
  have here : (limited.issue run (read asked) start).1 = .error (.unresolved personal) := by
    rfl
  have there : (unbound.issue run (read asked) start).1 = .error (.unresolved asked) := by
    rfl
  refine ⟨here, there, ?_⟩
  rw [here, there]
  intro same
  have names : personal = asked := by simpa using same
  exact absurd names (by decide)

/-- A name limited under itself is answered as the same name unbound. -/
theorem limited_name_is_missed :
    let plain : Kernel (Arrangement Empty) := kernel (.limit (.headed personal) none)
    (plain.issue run (read personal) start).1 = (unbound.issue run (read personal) start).1 := by
  have compared := Kernel.limited_is_missed_under_its_canonical
    (kernel (.limit (.headed personal) none)) unbound ⟨rfl, rfl⟩ run (read personal) .empty start
    (read personal).request none (Resolved.new .bottom []) (by rfl) (by rfl) rfl (by rfl)
  exact compared.2.2.1.mpr rfl

end LimitedExample

end Ikigai
