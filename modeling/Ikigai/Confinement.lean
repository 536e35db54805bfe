import Ikigai.ChainMembers
import Ikigai.ScopeStacking
import Ikigai.SealedNames

/-!
# Confining again and again

A confinement puts a space where the root was, behind every corridor already there, and cuts the
levels and the root off. However often a chain was confined, its host's corridors are asked first,
then what it was confined to, in the order it was confined, and nothing else.
-/

namespace Ikigai

universe u

section Narrowing

variable {σ : Type u} [Blake3] [Space σ]

/-- A hit, or a miss. -/
def Resolution.ofHit : Option (Resolved σ) → Resolution σ
  | some found => .hit found
  | none => .miss

namespace Scope

/-- Confine to one space after another, each under its name. -/
def confinedAll (scope : Scope σ) : List (Iri × σ) → Option (Scope σ)
  | [] => some scope
  | (name, space) :: rest => (scope.confined name space).bind fun chain => chain.confinedAll rest

/-- The corridor a confinement makes. -/
def asCorridor (confinement : Iri × σ) : σ × CorridorIdentity :=
  (confinement.2, .named confinement.1)

omit [Space σ] in
/-- One confinement leaves the host's corridors, is asked after those already confined, and leaves
no level and no root. -/
theorem confine_core (scope : Scope σ) (name : Iri) (space : σ) :
    (scope.confine name space).hostCorridors = scope.hostCorridors ∧
      (scope.confine name space).confinedCorridors =
        scope.confinedCorridors ++ [(space, .named name)] ∧
      (scope.confine name space).core.levels = [] ∧
      (scope.confine name space).core.severed = true := by
  have corridors : (scope.confine name space).core.corridors =
      (space, .named name) :: scope.core.corridors := by
    rw [confine, core_edit]
    rfl
  have confined : (scope.confine name space).core.confined = scope.core.confined + 1 := by
    rw [confine, core_edit]
    rfl
  refine ⟨?_, ?_, ?_, ?_⟩
  · rw [hostCorridors, corridors, confined, List.drop_succ_cons]
    rfl
  · rw [confinedCorridors, corridors, confined, List.take_succ_cons, List.reverse_cons]
    rfl
  · rw [confine, core_edit]
    rfl
  · rw [confine, core_edit]
    rfl

/-- So do any number of them, in their order. -/
theorem confined_all_core (scope : Scope σ) (confinements : List (Iri × σ)) (chain : Scope σ)
    (some_ : confinements ≠ []) (made : scope.confinedAll confinements = some chain) :
    chain.hostCorridors = scope.hostCorridors ∧
      chain.confinedCorridors = scope.confinedCorridors ++ confinements.map asCorridor ∧
      chain.core.levels = [] ∧ chain.core.severed = true := by
  induction confinements generalizing scope with
  | nil => exact absurd rfl some_
  | cons first rest ih =>
    obtain ⟨name, space⟩ := first
    obtain ⟨next, once, made⟩ := Option.bind_eq_some_iff.mp made
    rw [confined] at once
    split at once
    · cases once
      obtain ⟨host, behind, levels, severed⟩ := scope.confine_core name space
      cases rest with
      | nil =>
        cases made
        exact ⟨host, behind, levels, severed⟩
      | cons second rest =>
        obtain ⟨hosts, behinds, further⟩ := ih _ (List.cons_ne_nil _ _) made
        refine ⟨hosts.trans host, ?_, further⟩
        rw [behinds, behind, List.append_assoc]
        rfl
    · cases once

/-- The walk of a chain with no level and no root. -/
theorem resolve_bare (chain : Scope σ) (levels : chain.core.levels = [])
    (severed : chain.core.severed = true) (request : Request) (root : σ) (seals : Seals) :
    chain.resolveIn request root seals =
      .ok (.ofHit ((chain.firstCorridor request chain.hostCorridors).or
        (if (sealedBy request seals).isNone then
          chain.firstCorridor request chain.confinedCorridors
        else none))) := by
  rw [resolve_in_eq, resolveChain, host_corridor_hit, confined_corridor_hit, levels, severed]
  rw [hostCorridors, confinedCorridors]
  dsimp only [frameHit]
  cases chain.firstCorridor request (chain.core.corridors.drop chain.core.confined).reverse with
  | some hit => rfl
  | none =>
    dsimp only
    rw [Option.none_or]
    generalize (if (sealedBy request seals).isNone = true then _ else none) = behind
    cases behind <;> rfl

/-- Corridors that answer in one chain as they do in another have the same first hit in both. -/
theorem first_corridor_of_answers (chain scope : Scope σ) (request : Request)
    (corridors : List (σ × CorridorIdentity))
    (alike : ∀ held ∈ corridors, Space.resolve held.1 request chain =
      Space.resolve held.1 request scope) :
    chain.firstCorridor request corridors = scope.firstCorridor request corridors := by
  induction corridors with
  | nil => rfl
  | cons corridor rest ih =>
    obtain ⟨space, identity⟩ := corridor
    rw [List.forall_mem_cons] at alike
    rw [firstCorridor, firstCorridor, alike.1, ih alike.2]

/-- The host's hit is the chain's. -/
theorem resolve_host (scope : Scope σ) (request : Request) (root : σ) (seals : Seals)
    (hit : Resolved σ) (first : scope.firstCorridor request scope.hostCorridors = some hit) :
    scope.resolveIn request root seals = .ok (.hit hit) := by
  rw [hostCorridors] at first
  rw [resolve_in_eq, resolveChain, host_corridor_hit, first]

/-- Confined any number of times, a chain asks its host's corridors, then those it was confined to
before, then these in their order, the last two not for a name that is sealed, and nobody else; so
the host's hit is what it was wherever its corridors answer as they did. And the walk, the list
and the tree of any chain go over the same members at the same positions. -/
theorem confinement_narrows (scope : Scope σ) (confinements : List (Iri × σ)) (chain : Scope σ)
    (some_ : confinements ≠ []) (made : scope.confinedAll confinements = some chain)
    (request : Request) (root : σ) (seals : Seals) (other : Scope σ) :
    chain.resolveIn request root seals =
        .ok (.ofHit ((chain.firstCorridor request scope.hostCorridors).or
          (if (sealedBy request seals).isNone then
            (chain.firstCorridor request scope.confinedCorridors).or
              (chain.firstCorridor request (confinements.map asCorridor))
          else none))) ∧
      ((∀ held ∈ scope.hostCorridors, Space.resolve held.1 request chain =
          Space.resolve held.1 request scope) →
        ∀ hit, scope.firstCorridor request scope.hostCorridors = some hit →
          scope.resolveIn request root seals = .ok (.hit hit) ∧
            chain.resolveIn request root seals = .ok (.hit hit)) ∧
      chain.layers root =
        scope.hostCorridors.map (fun held => .host held.1 held.2) ++
          (scope.confinedCorridors ++ confinements.map asCorridor).map
            (fun held => .confined held.1 held.2) ∧
      other.consulted root = (other.layers root).map ChainLayer.space ∧
      other.members root = (other.layers root).map ChainLayer.member ∧
      other.topologyLayers root = (other.layers root).map ChainLayer.topology ∧
      other.resolveObserved request root seals =
        (other.resolveIn request root seals, numberedFrom 0 (untilHit
          ((other.layers root).map (ChainLayer.verdict other request seals)))) := by
  obtain ⟨host, behind, levels, severed⟩ :=
    scope.confined_all_core confinements chain some_ made
  have resolved := chain.resolve_bare levels severed request root seals
  rw [host, behind, first_corridor_append] at resolved
  refine ⟨resolved, fun alike hit first => ⟨scope.resolve_host request root seals hit first, ?_⟩,
    ?_, other.consulted_layers root, other.members_layers root, other.topology_layers root,
    other.observed_walk request root seals⟩
  · rw [resolved, first_corridor_of_answers chain scope request _ alike, first]
    rfl
  · rw [hostCorridors] at host
    rw [confinedCorridors] at behind
    rw [layers, host, behind, levels, severed, if_pos rfl, List.append_nil, List.map_nil,
      List.append_nil]

end Scope

end Narrowing

namespace ConfinementExample

local instance anyDigest : Blake3 := ⟨fun bytes => bytes.length.toUInt64⟩

/-- A space that answers every name, and one that answers where the root is there. -/
inductive Peer where
  | everywhere
  | rooted

def answer : Resolved Peer := ⟨.bound 1 false, [], none, none, []⟩

local instance peerSpace : Space Peer where
  resolve
    | .everywhere, _, _ => .hit answer
    | .rooted, _, scope => if scope.isSevered then .miss else .hit answer
  id := fun _ => none
  topology := fun _ => .node none .other [] none

def asked : Request := Request.new .source "urn:kernel:page".toList

theorem twice_confined : ∃ chain,
    (Scope.empty.inject (.anonymous 1) Peer.everywhere none).confinedAll
        [("urn:ctx:own".toList, .rooted), ("urn:ctx:then".toList, .everywhere)] = some chain ∧
      chain.resolveIn asked .rooted .default = .ok (.hit answer) :=
  ⟨_, rfl, (Scope.confinement_narrows (Scope.empty.inject (.anonymous 1) Peer.everywhere none)
    [("urn:ctx:own".toList, .rooted), ("urn:ctx:then".toList, .everywhere)] _
    (List.cons_ne_nil _ _) rfl asked .rooted .default .empty).1⟩

/-- Only core's names are sealed, and what is under them reaches what a chain was confined to; and a
corridor that looks at its chain no longer answers. -/
theorem sealed_name_reaches_confined :
    (¬ ∀ (scope : Scope Peer) (name : Iri) (space root : Peer) (request : Request) (seals : Seals),
      (seals.ownerOf request.target).isSome = true →
        (scope.confine name space).firstCorridor request scope.hostCorridors = none →
        (scope.confine name space).firstCorridor request scope.confinedCorridors = none →
          (scope.confine name space).resolveIn request root seals = .ok .miss) ∧
    ¬ ∀ (scope : Scope Peer) (name : Iri) (space root : Peer) (request : Request) (seals : Seals)
      (hit : Resolved Peer), scope.firstCorridor request scope.hostCorridors = some hit →
        (scope.confine name space).resolveIn request root seals = .ok (.hit hit) := by
  constructor
  · intro never
    cases never .empty "urn:ctx:own".toList .everywhere .rooted asked .default rfl rfl rfl
  · intro always
    cases always (Scope.empty.inject (.anonymous 1) .rooted none) "urn:ctx:own".toList .rooted
      .rooted asked .default answer rfl

end ConfinementExample

end Ikigai
