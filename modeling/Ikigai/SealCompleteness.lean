import Ikigai.PlainRoots
import Ikigai.ScopeStacking
import Ikigai.SealedNames

/-!
# What the build-time check rules out

A resolution breaches the seals only at a hit that is checked: the first frame to
answer, or the root's answer. Over an accepted plain root, in any chain without
confined corridors, such a hit stands where the owner of its name is, because the door
its name came to was checked with every gate on the route there. Three kinds of hits are
left to the runtime check: one that answers a name core sealed, whose doors the build
never refuses; one that an alias standing with the owner carried down into a level; and
one that an alias rewrote to a name that the gates above it hold out of the door.
-/

namespace Ikigai

section Checking

universe u
variable {σ : Type u}

/-- What a hit is checked for: the target and a reported canonical. -/
def namesAnswered (request : Request) (hit : Resolved σ) : List Iri :=
  request.target :: hit.canonical.toList

/-- A hit on a real endpoint that the seals look at: under core's claims alone, one that
was rewritten or was found in a level. -/
def Enforced (seals : Seals) (hit : Resolved σ) : Prop :=
  hit.endpoint.isLimiter = false ∧
    (hit.canonical.isSome = true ∨ seals.trivial = false ∨ hit.levels ≠ [])

/-- A checked hit is refused for a level nobody registered, or for a name whose owner
does not accept where it was found. -/
theorem admit_hit_refused (seals : Seals) (request : Request) (hit : Resolved σ) :
    (∃ breach, admitHit (.hit hit) request seals = .error breach) ↔
      Enforced seals hit ∧ (seals.unregisteredSealing hit.levels ≠ none ∨
        ∃ name ∈ namesAnswered request hit, ∃ owner, seals.ownerOf name = some owner ∧
          seals.accepts owner hit.levels.head? = false) := by
  have looked : (!hit.endpoint.isLimiter &&
      (hit.canonical.isSome || !(seals.trivial && hit.levels.isEmpty))) = true ↔
        Enforced seals hit := by
    simp only [Enforced, Bool.and_eq_true, Bool.or_eq_true, Bool.not_eq_true',
      Bool.and_eq_false_iff, List.isEmpty_eq_false_iff]
  have refusals : seals.firstRefused hit.levels (namesAnswered request hit) ≠ none ↔
      ∃ name ∈ namesAnswered request hit, ∃ owner, seals.ownerOf name = some owner ∧
        seals.accepts owner hit.levels.head? = false := by
    rw [Ne, Seals.first_refused_none]
    simp only [not_forall, Bool.not_eq_true, exists_prop]
  rw [← refusals]
  by_cases enforced : Enforced seals hit
  · simp only [admitHit, if_pos (looked.mpr enforced), Seals.admitNames, enforced, true_and]
    cases seals.unregisteredSealing hit.levels with
    | some hidden => simp
    | none =>
      cases refused : seals.firstRefused hit.levels (request.target :: hit.canonical.toList) with
      | some breach => simp [namesAnswered, refused]
      | none => simp [namesAnswered, refused]
  · have unlooked := mt looked.mp enforced
    simp only [admitHit, if_neg unlooked, enforced]
    simp

namespace Scope

variable [Blake3] [Space σ]

/-- The hit that is checked against the seal table, if the walk comes to one. -/
def checkedHit (scope : Scope σ) (request : Request) (root : σ) (seals : Seals) :
    Option (Resolved σ) :=
  match scope.answeringMember request seals with
  | .host | .confined => none
  | .frame => scope.frameHit request seals (sealedBy request seals) scope.core.levels
  | .root =>
    if scope.core.severed then none
    else match Space.resolve root request scope with
      | .hit hit => some hit
      | .miss => none

/-- The walk, member by member. -/
theorem resolve_in_walk (scope : Scope σ) (request : Request) (root : σ) (seals : Seals) :
    scope.resolveIn request root seals =
      match scope.firstCorridor request scope.hostCorridors with
      | some hit => .ok (.hit hit)
      | none =>
        match scope.frameHit request seals (sealedBy request seals) scope.core.levels with
        | some hit => admitHit (.hit hit) request seals
        | none =>
          match (if (sealedBy request seals).isNone then
              scope.firstCorridor request scope.confinedCorridors else none) with
          | some hit => .ok (.hit hit)
          | none =>
            if scope.core.severed then .ok .miss
            else admitHit (Space.resolve root request scope) request seals := by
  rw [resolve_in_eq]
  simp only [resolveChain, host_corridor_hit, confined_corridor_hit]
  rfl

/-- The checked hit is a frame's or the root's. -/
theorem checked_hit_found (scope : Scope σ) (request : Request) (root : σ) (seals : Seals)
    (hit : Resolved σ) (checked : scope.checkedHit request root seals = some hit) :
    scope.frameHit request seals (sealedBy request seals) scope.core.levels = some hit ∨
      Space.resolve root request scope = .hit hit := by
  rw [checkedHit] at checked
  cases member : scope.answeringMember request seals with
  | host => simp [member] at checked
  | confined => simp [member] at checked
  | frame => exact Or.inl (by simpa [member] using checked)
  | root =>
    right
    cases answered : Space.resolve root request scope with
    | miss => simp [member, answered] at checked
    | hit other =>
      simp only [member, answered, Option.ite_none_left_eq_some, Option.some.injEq] at checked
      rw [checked.2]

/-- A walk breaches exactly at its checked hit. -/
theorem resolve_in_breach (scope : Scope σ) (request : Request) (root : σ) (seals : Seals)
    (breach : SealBreach) : scope.resolveIn request root seals = .error breach ↔
      ∃ hit, scope.checkedHit request root seals = some hit ∧
        admitHit (.hit hit) request seals = .error breach := by
  rw [resolve_in_walk]
  simp only [checkedHit, answeringMember]
  cases host : scope.firstCorridor request scope.hostCorridors with
  | some found => simp
  | none =>
    cases frames : scope.frameHit request seals (sealedBy request seals) scope.core.levels with
    | some found => simp
    | none =>
      have atRoot (severed : Bool) :
          (if severed then Except.ok Resolution.miss
            else admitHit (Space.resolve root request scope) request seals) = .error breach ↔
          ∃ hit, (if severed then none
            else match Space.resolve root request scope with
              | .hit hit => some hit
              | .miss => none) = some hit ∧ admitHit (.hit hit) request seals = .error breach := by
        cases severed with
        | true => simp
        | false => cases Space.resolve root request scope <;> simp [admitHit]
      cases unsealed : sealedBy request seals with
      | some owner => simpa using atRoot scope.core.severed
      | none =>
        cases behind : scope.firstCorridor request scope.confinedCorridors with
        | some found => simp
        | none => simpa using atRoot scope.core.severed

/-- A frame's hit came from a level of the stack that the seals let the name be asked of. -/
theorem frame_hit_some (scope : Scope σ) (request : Request) (seals : Seals)
    (isSealed : Option SealOwner) (path : LevelPath σ) (hit : Resolved σ)
    (found : scope.frameHit request seals isSealed path = some hit) :
    ∃ skipped level outward inner, path = skipped ++ level :: outward ∧
      (∀ owner, isSealed = some owner → seals.frameAdmits owner level = true) ∧
      Space.resolve level.inner request scope = .hit inner ∧
      hit = reportFrame level outward inner := by
  induction path with
  | nil => cases found
  | cons level outward ih =>
    simp only [frameHit] at found
    have further (behind : scope.frameHit request seals isSealed outward = some hit) :
        ∃ skipped other rest inner, level :: outward = skipped ++ other :: rest ∧
          (∀ owner, isSealed = some owner → seals.frameAdmits owner other = true) ∧
          Space.resolve other.inner request scope = .hit inner ∧
          hit = reportFrame other rest inner := by
      obtain ⟨skipped, other, rest, inner, rfl, admits, answered, reported⟩ := ih behind
      exact ⟨level :: skipped, other, rest, inner, rfl, admits, answered, reported⟩
    split at found
    · exact further found
    · rename_i asked
      cases answered : Space.resolve level.inner request scope with
      | miss => exact further (by simpa [answered] using found)
      | hit inner =>
        refine ⟨[], level, outward, inner, rfl, ?_, answered, ?_⟩
        · intro owner isOwned
          simpa [isOwned] using asked
        · simpa [answered] using found.symm

end Scope

end Checking

namespace Seals

/-- A name's route comes to a door past every gate its owner's claim is checked at: from
the root, or from the owner's own frame. -/
def Reached (door : FoundDoor) (name : Text) : SealOwner → Prop
  | .core => False
  | .host => Passes door.rootGate name
  | .level owner => Passes door.rootGate name ∨
      ∃ entry ∈ door.levels, entry.1 = owner ∧ Passes entry.2 name

/-- A door that no claim refuses and that a claimed name reaches is the owner's. -/
theorem reached_placed (door : FoundDoor) (claim : Claim) (quiet : door.breach claim = none)
    (name : Text) (under : claim.1 <+: name) (matched : door.mayMatch claim.1 = true)
    (reached : Reached door name claim.2) : door.placed claim.2 = true := by
  by_contra astray
  have unrefused : door.refused claim.1 claim.2 = false := by
    simpa [FoundDoor.breach, astray] using quiet
  simp only [FoundDoor.refused] at unrefused
  split at unrefused
  · cases unrefused
  · cases owned : claim.2 with
    | core =>
      rw [owned] at reached
      exact reached
    | host =>
      simp only [owned] at reached unrefused
      rw [passes_reaches door.rootGate name claim.1 reached under] at unrefused
      cases unrefused
    | level owner =>
      simp only [owned, Bool.or_eq_false_iff] at reached unrefused
      rcases reached with fromRoot | ⟨entry, inside, rfl, fromFrame⟩
      · rw [passes_reaches door.rootGate name claim.1 fromRoot under] at unrefused
        cases unrefused.1
      · have passing := passes_reaches entry.2 name claim.1 fromFrame under
        have shut := List.any_eq_false.mp unrefused.2 entry inside
        simp [passing] at shut

/-- In levels all registered, a hit is accepted by an owner but core exactly where a door that
stands in them is the owner's. -/
theorem accepts_iff_placed {σ : Type} (seals : Seals) (path : LevelPath σ)
    (registered : ∀ level ∈ path, seals.registered level.serial = true) (door : FoundDoor)
    (named : door.levels.map Prod.fst = path.map LevelCore.name) (owner : SealOwner)
    (foreign : owner ≠ .core) :
    seals.accepts owner path.head? = true ↔ door.placed owner = true := by
  have innermost : door.innermost = path.head?.map LevelCore.name := by
    rw [FoundDoor.innermost, ← List.head?_map, named, List.head?_map]
  cases owner with
  | core => exact absurd rfl foreign
  | host => simp [accepts, FoundDoor.placed, innermost]
  | level name =>
    cases first : path.head? with
    | none => simp [accepts, FoundDoor.placed, innermost, first]
    | some level =>
      have shown := registered level (List.mem_of_head? first)
      simp [accepts, FoundDoor.placed, innermost, first, isOwner, shown]

/-- Every gate a claim's names are checked at shuts them out of a door: from the root, and from
the owner's own frames. -/
def ShutOut (door : FoundDoor) (claim : Claim) : Prop :=
  FoundDoor.reaches door.rootGate claim.1 = false ∧
    ∀ entry ∈ door.levels, claim.2 = .level entry.1 → FoundDoor.reaches entry.2 claim.1 = false

/-- A door elsewhere than the owner, which may answer a claim's names and is not refused, has
them shut out, and its literal head is shorter than the sealed prefix. -/
theorem unrefused_shut_out (door : FoundDoor) (claim : Claim) (quiet : door.breach claim = none)
    (foreign : claim.2 ≠ .core) (matched : door.mayMatch claim.1 = true)
    (astray : door.placed claim.2 = false) :
    door.inside claim.1 = false ∧ ShutOut door claim := by
  have unrefused : door.refused claim.1 claim.2 = false := by
    simpa [FoundDoor.breach, astray] using quiet
  simp only [FoundDoor.refused, matched, if_true] at unrefused
  cases headed : door.inside claim.1 with
  | true => simp [headed] at unrefused
  | false =>
    refine ⟨rfl, ?_⟩
    simp only [headed, Bool.false_eq_true, if_false] at unrefused
    cases owned : claim.2 with
    | core => exact absurd owned foreign
    | host => exact ⟨by simpa [owned] using unrefused, fun entry _ same => by cases same ▸ owned⟩
    | level owner =>
      simp only [owned, Bool.or_eq_false_iff] at unrefused
      refine ⟨unrefused.1, fun entry inside same => ?_⟩
      have shut := List.any_eq_false.mp unrefused.2 entry inside
      cases same.symm.trans owned
      simpa using shut

end Seals

section Plainness

variable {κ : Type} [Blake3] [IriSyntax] [Foreign κ]

namespace Arrangement

omit [IriSyntax] in
/-- Every level of a stack reached by descending is registered. -/
theorem stack_registered (root : Arrangement κ) (host : List Text) (seals : Seals)
    (accepted : seals.Accepted (topology root) host) (path : LevelPath (Arrangement κ))
    (stack : StackOf root path) : ∀ level ∈ path, seals.registered level.serial = true := by
  induction stack with
  | nil => exact fun _ inside => nomatch inside
  | cons level outward inside below ih =>
    refine List.forall_mem_cons.mpr ⟨?_, ih⟩
    obtain ⟨levels, rootGate, _, among⟩ := within_walk root _ outward inside
    simp only [topology, Seals.Found.walk] at among
    exact (accepted.registered level.serial).mpr
      ⟨_, among.levels (List.mem_append_left _ (List.mem_singleton_self _)), rfl⟩

end Arrangement

namespace Scope

open Arrangement

/-- A chain over a root: nothing is confined, and the level stack is the root's. -/
structure OverRoot (root : Arrangement κ) (scope : Scope (Arrangement κ)) : Prop where
  unconfined : scope.core.confined = 0
  stack : StackOf root scope.core.levels

/-- The chains a kernel derives over a root without confinement: a host's, its corridors
injected, severed and stacked as it likes, and a chain descended to where a hit was
found. A host's corridor holds levels of its own, which are not the root's. -/
inductive Derives (root : Arrangement κ) (seals : Seals) : Scope (Arrangement κ) → Prop where
  | empty : Derives root seals empty
  | inject (scope : Scope (Arrangement κ)) (identity : CorridorIdentity) (space : Arrangement κ)
      (clock : Option Clock) (before : Derives root seals scope) :
      Derives root seals (scope.inject identity space clock)
  | sever (scope : Scope (Arrangement κ)) (before : Derives root seals scope) :
      Derives root seals scope.sever
  | stack (scope inner : Scope (Arrangement κ)) (before : Derives root seals scope)
      (other : Derives root seals inner) : Derives root seals (scope.stack inner)
  | descend (scope : Scope (Arrangement κ)) (request : Request) (hit : Resolved (Arrangement κ))
      (before : Derives root seals scope)
      (answered : scope.resolveIn request root seals = .ok (.hit hit))
      (outside : scope.answeringMember request seals = .host → hit.levels = []) :
      Derives root seals (scope.descend hit.levels)

/-- A frame's hit extends the stack by the levels it was found in. -/
theorem frame_hit_stack (root : Arrangement κ) (plain : Plain root)
    (scope : Scope (Arrangement κ)) (request : Request) (seals : Seals)
    (isSealed : Option SealOwner) (path : LevelPath (Arrangement κ)) (stack : StackOf root path)
    (hit : Resolved (Arrangement κ))
    (found : scope.frameHit request seals isSealed path = some hit) :
    StackOf root hit.levels := by
  obtain ⟨skipped, level, outward, inner, rfl, _, answered, rfl⟩ :=
    frame_hit_some scope request seals isSealed path hit found
  have here := stack_suffix root skipped (level :: outward) stack
  cases here with
  | cons _ _ inside below =>
    have within := Within.level outward level inside
    exact hit_stack root level.inner (within_plain root _ _ plain within) (level :: outward) within
      (.cons level outward inside below) scope request inner answered

/-- The root's hit is found in levels of the root. -/
theorem root_hit_stack (root : Arrangement κ) (plain : Plain root)
    (scope : Scope (Arrangement κ)) (request : Request) (hit : Resolved (Arrangement κ))
    (answered : Space.resolve root request scope = .hit hit) : StackOf root hit.levels := by
  have stack := hit_stack root root plain [] .root .nil scope request hit answered
  rwa [List.append_nil] at stack

omit [IriSyntax] [Foreign κ] in
theorem descend_over (root : Arrangement κ) (scope : Scope (Arrangement κ))
    (above : scope.OverRoot root) (path : LevelPath (Arrangement κ)) (stack : StackOf root path) :
    (scope.descend path).OverRoot root := by
  have edited (keeps : ∀ chain : Chain (Arrangement κ), chain.Sound →
      ({ chain with levels := path }).Sound) :
      (scope.edit (fun chain => { chain with levels := path }) keeps).OverRoot root := by
    constructor
    · simpa [core_edit, Chain.refingerprint] using above.unconfined
    · simpa [core_edit, Chain.refingerprint] using stack
  rw [descend]
  split <;> split
  · exact above
  · exact edited _
  · exact above
  · exact edited _

/-- Every derived chain is over the root. -/
theorem derives_over (root : Arrangement κ) (plain : Plain root) (seals : Seals)
    (scope : Scope (Arrangement κ)) (derived : Derives root seals scope) : scope.OverRoot root := by
  induction derived with
  | empty => exact ⟨rfl, .nil⟩
  | inject scope identity space clock _ ih =>
    constructor
    · simpa [inject, core_edit, Chain.refingerprint] using ih.unconfined
    · simpa [inject, core_edit, Chain.refingerprint] using ih.stack
  | sever scope _ ih =>
    constructor
    · simpa [sever, core_edit, Chain.refingerprint] using ih.unconfined
    · simpa [sever, core_edit, Chain.refingerprint] using ih.stack
  | stack scope inner _ _ ih ih' =>
    constructor
    · simp [core_stack, Chain.refingerprint, Chain.stacked, ih.unconfined, ih'.unconfined]
    · rw [core_stack]
      simp only [Chain.refingerprint, Chain.stacked, ih'.unconfined, List.take_zero]
      cases levels : inner.core.levels with
      | nil => exact ih.stack
      | cons level rest =>
        rw [Chain.levelsAfter, ← levels]
        exact ih'.stack
  | descend scope request hit _ answered outside ih =>
    apply descend_over root scope ih
    have walked := answering_member_hit scope request root seals hit answered
    cases member : scope.answeringMember request seals with
    | host =>
      rw [outside member]
      exact .nil
    | frame =>
      rw [member] at walked
      exact frame_hit_stack root plain scope request seals _ _ ih.stack hit walked.2.1
    | confined =>
      rw [member] at walked
      obtain ⟨_, _, _, behind⟩ := walked
      simp [confinedCorridors, ih.unconfined, firstCorridor] at behind
    | root =>
      rw [member] at walked
      exact root_hit_stack root plain scope request hit walked.1

omit [IriSyntax] in
/-- A name of an owner but core is looked up as sealed. -/
theorem sealed_by_owner (root : Arrangement κ) (host : List Text) (seals : Seals)
    (accepted : seals.Accepted (Arrangement.topology root) host) (request : Request)
    (owner : SealOwner)
    (owned : seals.ownerOf request.target = some owner) (foreign : owner ≠ .core) :
    sealedBy request seals = some owner := by
  have enforced : seals.trivial = false := by
    cases bare : seals.trivial with
    | false => rfl
    | true =>
      obtain ⟨claim, claimed, same, _⟩ := Seals.claim_of_owner seals request.target owner owned
      rw [accepted.trivial bare] at claimed
      obtain ⟨head, _, rfl⟩ := List.mem_map.mp claimed
      exact absurd same.symm foreign
  rw [sealedBy, enforced, owned]
  rfl

/-- The doors that an arrangement's topology shows. -/
def doorsShown (root : Arrangement κ) : List Seals.FoundDoor :=
  (Seals.Found.walk [] (some []) (Arrangement.topology root)).doors

/-- How a checked hit was found over an accepted root. Its target came to a door that may answer
it, past every gate that its owner's claim is checked at; around that door stand the outer levels
of the hit, and all of them unless an alias rewrote the name. The name reported was found at a
door inside all the levels. -/
structure FoundBy (root : Arrangement κ) (seals : Seals) (request : Request)
    (hit : Resolved (Arrangement κ)) : Prop where
  entered : ∃ door ∈ doorsShown root, ∃ deeper outward, hit.levels = deeper ++ outward ∧
    (hit.canonical = none → deeper = []) ∧
    door.levels.map Prod.fst = outward.map LevelCore.name ∧
    (∀ sealedHead, sealedHead <+: request.target → door.mayMatch sealedHead = true) ∧
    ∀ owner, seals.ownerOf request.target = some owner → owner ≠ .core →
      Seals.Reached door request.target owner
  landed : ∃ door ∈ doorsShown root,
    (∀ sealedHead, sealedHead <+: hit.canonical.getD request.target →
      door.mayMatch sealedHead = true) ∧
    door.levels.map Prod.fst = hit.levels.map LevelCore.name

/-- The root is asked past every gate from the root. -/
theorem root_hit_found (root : Arrangement κ) (plain : Plain root) (seals : Seals)
    (scope : Scope (Arrangement κ)) (request : Request) (hit : Resolved (Arrangement κ))
    (answered : Space.resolve root request scope = .hit hit)
    (real : hit.endpoint.isLimiter = false) : FoundBy root seals request hit := by
  obtain ⟨⟨door, shown, deeper, outward, parts, bare, serves⟩, door', shown', answers, named⟩ :=
    hit_traced root plain scope request hit answered real [] (some [])
  have fromRoot := serves.root (Seals.open_passes request.target)
  have around := Seals.narrowed_names _ _ _ serves.route
  rw [List.append_nil, Seals.TracedBy.open_route_names] at around
  rw [List.map_nil, List.append_nil] at named
  refine ⟨⟨door, shown, deeper, outward, parts, bare, around, serves.matched, ?_⟩, door', shown',
    answers, named⟩
  intro owner _ foreign
  cases owner with
  | core => exact absurd rfl foreign
  | host => exact fromRoot
  | level name => exact .inl fromRoot

/-- A frame is asked for a sealed target only if it is the owner's, and past every gate from that
frame. -/
theorem frame_hit_found (root : Arrangement κ) (plain : Plain root) (host : List Text)
    (seals : Seals) (accepted : seals.Accepted (Arrangement.topology root) host)
    (scope : Scope (Arrangement κ)) (request : Request) (path : LevelPath (Arrangement κ))
    (stack : StackOf root path) (hit : Resolved (Arrangement κ))
    (found : scope.frameHit request seals (sealedBy request seals) path = some hit)
    (real : hit.endpoint.isLimiter = false) : FoundBy root seals request hit := by
  obtain ⟨skipped, level, outside, inner, rfl, admits, answered, rfl⟩ :=
    frame_hit_some scope request seals _ path hit found
  have here := stack_suffix root skipped (level :: outside) stack
  cases here with
  | cons _ _ inside below =>
    obtain ⟨levels, rootGate, outer, among⟩ := within_walk root _ outside inside
    simp only [Arrangement.topology, Seals.Found.walk, Seals.Found.walk_all_one] at among
    obtain ⟨⟨door, shown, deeper, outward, parts, bare, serves⟩, door', shown', answers, named⟩ :=
      hit_traced level.inner (within_plain root _ _ plain (.level outside level inside)) scope
        request inner answered real ((level.name, some []) :: levels) rootGate
    have collected := fun door shown =>
      among.doors ((Seals.Found.among_right _ _).doors (a := door) shown)
    have around := Seals.narrowed_names _ _ _ serves.route
    refine ⟨⟨door, collected door shown, deeper, outward ++ level :: outside, ?_, bare, ?_,
      serves.matched, ?_⟩, door', collected door' shown', answers, ?_⟩
    · rw [reportFrame, parts, List.append_assoc]
    · rw [around, List.map_append, Seals.TracedBy.open_route_names, List.map_cons, outer,
        List.map_append, List.map_cons]
    · intro owner owned foreign
      have owns := admits owner
        (sealed_by_owner root host seals accepted request owner owned foreign)
      cases owner with
      | core => exact absurd rfl foreign
      | host => simp [Seals.frameAdmits] at owns
      | level name =>
        have isName : level.name = name := by
          simp only [Seals.frameAdmits, Seals.isOwner, Bool.and_eq_true, beq_iff_eq] at owns
          exact owns.1
        obtain ⟨entry, listed, narrowed⟩ := Seals.narrowed_entry _ _ _ serves.route
          (level.name, some []) (List.mem_append_right _ (List.mem_cons_self ..))
        exact Or.inr ⟨entry, listed, narrowed.level.trans isName,
          narrowed.gate (Seals.open_passes request.target)⟩
    · rw [named, reportFrame, List.map_cons, outer, List.map_append, List.map_cons]

/-- A hit that answers a name core sealed. -/
def AnswersCore (seals : Seals) (request : Request) (hit : Resolved (Arrangement κ)) : Prop :=
  Enforced seals hit ∧
    ∃ name ∈ namesAnswered request hit, seals.ownerOf name = some .core

/-- The target is sealed by the host or a level and comes to a rule of an alias that stands with
the owner, and the hit is in a level below that alias, which is not the owner. -/
def CarriedDown (root : Arrangement κ) (seals : Seals) (request : Request)
    (hit : Resolved (Arrangement κ)) : Prop :=
  hit.endpoint.isLimiter = false ∧ hit.canonical.isSome = true ∧
    ∃ owner, seals.ownerOf request.target = some owner ∧ owner ≠ .core ∧
      ∃ door ∈ doorsShown root,
        (∀ sealedHead, sealedHead <+: request.target → door.mayMatch sealedHead = true) ∧
        door.placed owner = true ∧
        ∃ level deeper outward, hit.levels = level :: deeper ++ outward ∧
          door.levels.map Prod.fst = outward.map LevelCore.name ∧ owner ≠ .level level.name

/-- The target was rewritten to a name that the host or a level sealed, and the hit stands at a
door elsewhere: one whose literal head is shorter than the sealed prefix, and which the gates
of the route that the build followed, from the root and from the owner's frames, shut out of
that prefix. -/
def RewrittenPast (root : Arrangement κ) (seals : Seals) (hit : Resolved (Arrangement κ)) : Prop :=
  hit.endpoint.isLimiter = false ∧
    ∃ name, hit.canonical = some name ∧
      ∃ claim ∈ seals.claims, seals.ownerOf name = some claim.2 ∧ claim.1 <+: name ∧
        claim.2 ≠ .core ∧
        ∃ door ∈ doorsShown root, door.levels.map Prod.fst = hit.levels.map LevelCore.name ∧
          door.mayMatch claim.1 = true ∧ door.placed claim.2 = false ∧
          door.inside claim.1 = false ∧ Seals.ShutOut door claim

omit [IriSyntax] in
/-- The owner of the target accepts a hit, unless an alias carried the target down. -/
theorem target_accepted (root : Arrangement κ) (host : List Text) (seals : Seals)
    (accepted : seals.Accepted (Arrangement.topology root) host) (request : Request)
    (hit : Resolved (Arrangement κ)) (real : hit.endpoint.isLimiter = false)
    (registered : ∀ level ∈ hit.levels, seals.registered level.serial = true)
    (found : FoundBy root seals request hit) (owner : SealOwner)
    (owned : seals.ownerOf request.target = some owner) (foreign : owner ≠ .core) :
    seals.accepts owner hit.levels.head? = true ∨ CarriedDown root seals request hit := by
  obtain ⟨door, shown, deeper, outward, parts, bare, around, matched, reached⟩ := found.entered
  have placed : door.placed owner = true := by
    obtain ⟨claim, claimed, same, under⟩ := Seals.claim_of_owner seals request.target owner owned
    subst same
    exact Seals.reached_placed door claim (accepted.unrefused door shown claim claimed)
      request.target under (matched claim.1 under) (reached claim.2 owned foreign)
  cases deeper with
  | nil =>
    left
    rw [List.nil_append] at parts
    rw [Seals.accepts_iff_placed seals hit.levels registered door (parts ▸ around) owner foreign]
    exact placed
  | cons level deeper =>
    by_cases same : owner = .level level.name
    · left
      have shown := registered level (by simp [parts])
      simp [same, parts, Seals.accepts, Seals.isOwner, shown]
    · right
      have moved : hit.canonical.isSome = true := by
        by_contra unmoved
        cases bare (by simpa using unmoved)
      exact ⟨real, moved, owner, owned, foreign, door, shown, matched, placed, level, deeper,
        outward, parts, around, same⟩

omit [IriSyntax] in
/-- The owner of a name reported accepts the hit, unless the gates shut the name out of where it
was found. -/
theorem canonical_accepted (root : Arrangement κ) (host : List Text) (seals : Seals)
    (accepted : seals.Accepted (Arrangement.topology root) host) (request : Request)
    (hit : Resolved (Arrangement κ)) (real : hit.endpoint.isLimiter = false)
    (registered : ∀ level ∈ hit.levels, seals.registered level.serial = true)
    (found : FoundBy root seals request hit) (name : Iri) (reported : hit.canonical = some name)
    (owner : SealOwner) (owned : seals.ownerOf name = some owner) (foreign : owner ≠ .core) :
    seals.accepts owner hit.levels.head? = true ∨ RewrittenPast root seals hit := by
  obtain ⟨door, shown, answers, named⟩ := found.landed
  obtain ⟨claim, claimed, rfl, under⟩ := Seals.claim_of_owner seals name owner owned
  rw [reported, Option.getD_some] at answers
  rw [Seals.accepts_iff_placed seals hit.levels registered door named claim.2 foreign]
  cases placed : door.placed claim.2 with
  | true => exact .inl rfl
  | false =>
    right
    obtain ⟨headed, shut⟩ := Seals.unrefused_shut_out door claim
      (accepted.unrefused door shown claim claimed) foreign (answers claim.1 under) placed
    exact ⟨real, name, reported, claim, claimed, owned, under, foreign, door, shown, named,
      answers claim.1 under, placed, headed, shut⟩

/-- A checked hit that an alias carried down, or rewrote past the gates, does breach: nothing
else of the rewritten hits is left to the runtime check. -/
theorem moved_astray_breaches (root : Arrangement κ) (plain : Plain root) (host : List Text)
    (seals : Seals) (built : Seals.fromTopology (Space.topology root) host = .ok seals)
    (scope : Scope (Arrangement κ)) (derived : Derives root seals scope) (request : Request)
    (hit : Resolved (Arrangement κ)) (checked : scope.checkedHit request root seals = some hit)
    (astray : CarriedDown root seals request hit ∨ RewrittenPast root seals hit) :
    ∃ breach, scope.resolveIn request root seals = .error breach := by
  have accepted := Seals.from_topology_accepted (Space.topology root) host seals built
  have above := derives_over root plain seals scope derived
  have stack : StackOf root hit.levels := (checked_hit_found scope request root seals hit checked).elim
    (frame_hit_stack root plain scope request seals _ _ above.stack hit)
    (root_hit_stack root plain scope request hit)
  have registered := stack_registered root host seals accepted hit.levels stack
  have refused : ∃ breach, admitHit (.hit hit) request seals = .error breach := by
    refine (admit_hit_refused seals request hit).mpr ?_
    rcases astray with ⟨real, moved, owner, owned, foreign, _, _, _, _, level, _, _, parts, _, other⟩
      | ⟨real, name, reported, claim, _, owned, _, foreign, door, _, named, _, placed, _⟩
    · refine ⟨⟨real, .inl moved⟩, .inr ⟨request.target, List.mem_cons_self .., owner, owned, ?_⟩⟩
      rw [parts, List.cons_append, List.head?_cons]
      cases owner with
      | core => rfl
      | host => rfl
      | level name =>
        have unnamed : level.name ≠ name := fun same => other (same ▸ rfl)
        simp [Seals.accepts, Seals.isOwner, unnamed]
    · refine ⟨⟨real, .inl (by simp [reported])⟩, .inr ⟨name, ?_, claim.2, owned, ?_⟩⟩
      · simp [namesAnswered, reported]
      · rw [Bool.eq_false_iff, Ne,
          Seals.accepts_iff_placed seals hit.levels registered door named claim.2 foreign, placed]
        exact Bool.false_ne_true
  obtain ⟨breach, refused⟩ := refused
  exact ⟨breach, (resolve_in_breach scope request root seals breach).mpr ⟨hit, checked, refused⟩⟩

end Scope

end Plainness

/-!
A module rewrites a public name into the kernel's namespace: no door of core's is refused
at build, and the rewrite is refused when it is asked for. And a level mounted where no
signing name passes rewrites a name of its own into one, which a template of the level
expands to: the build held the template out of reach.
-/

namespace RewrittenExample

open Arrangement

local instance anyDigest : Blake3 := ⟨fun bytes => bytes.length.toUInt64⟩

local instance anyIri : IriSyntax := ⟨fun _ => true, fun _ => []⟩

def rewrite (source target : Text) : AliasTable :=
  .ofRules [.plain .exact source target .child]

def actions : Iri := "urn:kernel:actions".toList

def intoKernel : Arrangement Empty :=
  .mount "urn:mod:".toList
    (.«alias» (rewrite "urn:mod:x".toList actions)
      (.endpointSpace [(.exact actions, .bound 1 false)] none) none) none

def anyName : UriTemplate :=
  ⟨[.lit "urn:".toList, .var "ns".toList, .lit ":".toList, .var "id".toList],
    "urn:{ns}:{id}".toList, by decide, by
      intro part inside
      simp only [List.mem_cons, List.not_mem_nil, or_false] at inside
      rcases inside with rfl | rfl | rfl | rfl
      · exact ⟨by decide, by decide⟩
      · exact True.intro
      · exact ⟨by decide, by decide⟩
      · exact True.intro⟩

def intoSigning : Arrangement Empty :=
  .mount "urn:mod:".toList
    (.level "urn:level:mod".toList 7
      (.«alias» (rewrite "urn:mod:x".toList "urn:sign:y".toList)
        (.endpointSpace [(.template anyName, .bound 1 false)] none) none) [] none) none

def signing : Seals :=
  ⟨Seals.coreClaims ++ [("urn:sign:".toList, .host)], [("urn:level:mod".toList, 7)], false⟩

def asked : Request := Request.new .source "urn:mod:x".toList

theorem kernel_plain : intoKernel.Plain :=
  .mount _ _ _ (.«alias» _ _ _ (List.forall_mem_singleton.mpr rfl) (.endpointSpace _ _))

theorem signing_plain : intoSigning.Plain :=
  .mount _ _ _ (.level _ _ _ _ _
    (.«alias» _ _ _ (List.forall_mem_singleton.mpr rfl) (.endpointSpace _ _)))

theorem kernel_built :
    Seals.fromTopology (Space.topology intoKernel) [] = .ok Seals.default := rfl

theorem signing_built :
    Seals.fromTopology (Space.topology intoSigning) ["urn:sign:".toList] = .ok signing := rfl

end RewrittenExample

end Ikigai
