import Ikigai.Seals

/-!
# The one walk

Resolving a request in a chain asks the host's corridors innermost first, then the
level stack, then the confined corridors, then the root unless it was severed. A
sealed name is asked only of the frames its owner is, and never of a confined
corridor; a hit from a frame or from the root is checked against the seal table.
-/

namespace Ikigai

universe u
variable {σ : Type u}

/-- Check a hit against the seal table; a miss and a hit on ⊥ pass. -/
def admitHit (resolution : Resolution σ) (request : Request) (seals : Seals) :
    Except SealBreach (Resolution σ) :=
  match resolution with
  | .hit hit =>
    if !hit.endpoint.isLimiter &&
        (hit.canonical.isSome || !(seals.trivial && hit.levels.isEmpty)) then
      match seals.admitNames (request.target :: hit.canonical.toList) hit.levels with
      | .ok _ => .ok (.hit hit)
      | .error breach => .error breach
    else .ok (.hit hit)
  | .miss => .ok .miss

namespace Scope

variable [Blake3] [Space σ]

/-- A corridor's hit is answered by the corridor when its space named no answerer. -/
def reportCorridor (identity : CorridorIdentity) (hit : Resolved σ) : Resolved σ :=
  match identity with
  | .named name => hit.withAnsweredBy name
  | .anonymous _ => hit

/-- The first hit among corridors given in the order they are asked. -/
def firstCorridor (scope : Scope σ) (request : Request) :
    List (σ × CorridorIdentity) → Option (Resolved σ)
  | [] => none
  | (space, identity) :: rest =>
    match Space.resolve space request scope with
    | .hit hit => some (reportCorridor identity hit)
    | .miss => scope.firstCorridor request rest

/-- The first hit among corridors given outermost first. -/
def corridorHit (scope : Scope σ) (request : Request) (spaces : List σ)
    (identities : List CorridorIdentity) : Option (Resolved σ) :=
  scope.firstCorridor request (spaces.zip identities).reverse

/-- A frame's hit is answered by the level when its space named no answerer, and
was found in that level and every level outward of it. -/
def reportFrame (level : LevelCore σ) (outward : LevelPath σ) (hit : Resolved σ) : Resolved σ :=
  { hit with
    answeredBy := some (hit.answeredBy.getD level.name)
    levels := hit.levels ++ level :: outward }

/-- The first hit in the level stack; a frame that does not own a sealed name is
passed by. -/
def frameHit (scope : Scope σ) (request : Request) (seals : Seals)
    (isSealed : Option SealOwner) : LevelPath σ → Option (Resolved σ)
  | [] => none
  | level :: outward =>
    if isSealed.any fun owner => !seals.frameAdmits owner level then
      scope.frameHit request seals isSealed outward
    else
      match Space.resolve level.inner request scope with
      | .hit hit => some (reportFrame level outward hit)
      | .miss => scope.frameHit request seals isSealed outward

/-- Whose prefix the target is under, as the walk asks it. -/
def sealedBy (request : Request) (seals : Seals) : Option SealOwner :=
  if seals.trivial then none else seals.ownerOf request.target

/-- Resolve a request in a non-empty chain. -/
def resolveChain (scope : Scope σ) (chain : Chain σ) (request : Request) (root : σ)
    (seals : Seals) : Except SealBreach (Resolution σ) :=
  let isSealed := sealedBy request seals
  match scope.corridorHit request (chain.injected.drop chain.confined)
      (chain.identities.drop chain.confined) with
  | some hit => .ok (.hit hit)
  | none =>
    match scope.frameHit request seals isSealed chain.levels with
    | some hit => admitHit (.hit hit) request seals
    | none =>
      let behind :=
        if isSealed.isNone then
          scope.corridorHit request (chain.injected.take chain.confined)
            (chain.identities.take chain.confined)
        else none
      match behind with
      | some hit => .ok (.hit hit)
      | none =>
        if chain.severed then .ok .miss
        else admitHit (Space.resolve root request scope) request seals

/-- Resolve a request against the chain: the first hit along the walk, else a miss;
the empty chain goes straight to the root. -/
def resolveIn (scope : Scope σ) (request : Request) (root : σ) (seals : Seals) :
    Except SealBreach (Resolution σ) :=
  match scope.chain with
  | none => admitHit (Space.resolve root request scope) request seals
  | some chain => scope.resolveChain chain request root seals

theorem first_corridor_append (scope : Scope σ) (request : Request)
    (first second : List (σ × CorridorIdentity)) :
    scope.firstCorridor request (first ++ second) =
      (scope.firstCorridor request first).or (scope.firstCorridor request second) := by
  induction first with
  | nil => rfl
  | cons corridor rest ih =>
    simp only [List.cons_append, firstCorridor]
    split
    · rfl
    · exact ih

/-- No corridor answers exactly when each of them declines. -/
theorem first_corridor_none (scope : Scope σ) (request : Request)
    (corridors : List (σ × CorridorIdentity)) :
    scope.firstCorridor request corridors = none ↔
      ∀ corridor ∈ corridors, Space.resolve corridor.1 request scope = .miss := by
  induction corridors with
  | nil => simp [firstCorridor]
  | cons corridor rest ih =>
    simp only [firstCorridor, List.forall_mem_cons]
    cases answer : Space.resolve corridor.1 request scope with
    | hit hit => simp
    | miss => simpa using ih

/-- The host's corridors are asked from the innermost to the confined split. -/
theorem host_corridor_hit (scope : Scope σ) (chain : Chain σ) (request : Request) :
    scope.corridorHit request (chain.injected.drop chain.confined)
        (chain.identities.drop chain.confined) =
      scope.firstCorridor request (chain.corridors.drop chain.confined).reverse := by
  simp only [corridorHit, Chain.corridors, List.zip_eq_zipWith, List.drop_zipWith]

/-- The confined corridors are asked from the split outward. -/
theorem confined_corridor_hit (scope : Scope σ) (chain : Chain σ) (request : Request) :
    scope.corridorHit request (chain.injected.take chain.confined)
        (chain.identities.take chain.confined) =
      scope.firstCorridor request (chain.corridors.take chain.confined).reverse := by
  simp only [corridorHit, Chain.corridors, List.zip_eq_zipWith, List.take_zipWith]

/-- The empty chain is the case of the walk with nobody to ask but the root. -/
theorem resolve_in_eq (scope : Scope σ) (request : Request) (root : σ) (seals : Seals) :
    scope.resolveIn request root seals = scope.resolveChain scope.core request root seals := by
  unfold resolveIn core
  cases scope.chain with
  | some chain => rfl
  | none =>
    simp only [Option.getD_none, resolveChain, Chain.blank, corridorHit, List.drop_nil,
      List.take_nil, List.zip_nil_left, List.reverse_nil, firstCorridor, frameHit, ite_self]
    rfl

end Scope

end Ikigai
