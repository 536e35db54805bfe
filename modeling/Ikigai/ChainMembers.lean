import Ikigai.Contract
import Ikigai.Resolution

/-!
# The members of a chain

Four readers of a chain go over its members: the walk, the dry run's observed walk, the list of
members by name, and the arrangement as a tree. They number the members alike: every one of
them is a map of one list, the host's corridors innermost first, the levels innermost first, the
confined corridors, and the root unless it was cut off.
-/

namespace Ikigai

universe u
variable {σ : Type u}

/-- What the walk did with one member. -/
inductive Consulted where
  | hit
  | miss
  | skipped
deriving DecidableEq, Repr

def Consulted.of : Resolution σ → Consulted
  | .hit _ => .hit
  | .miss => .miss

/-- One member as it is listed: its space, the name a reader knows it by, and the identity it
claims. -/
structure ChainMember (σ : Type u) where
  space : σ
  label : Text
  id : Option Iri

def Topology.id : Topology → Option Iri
  | .node id _ _ _ => id

/-- A node under a name, where it has none. -/
def Topology.claimed (layer : Topology) (identity : CorridorIdentity) : Topology :=
  match layer, identity with
  | .node none kind children level, .named name => .node (some name) kind children level
  | layer, _ => layer

/-- `{:016x}`. -/
def fingerprintText (fingerprint : UInt64) : Text :=
  (Hashing.toLeBytes fingerprint.toNat).reverse.flatMap lowerHex

/-- What is observed of some members, up to the first that hits. -/
def untilHit : List Consulted → List Consulted
  | [] => []
  | .hit :: _ => [.hit]
  | .miss :: rest => .miss :: untilHit rest
  | .skipped :: rest => .skipped :: untilHit rest

/-- Observations at the positions from one on. -/
def numberedFrom : Nat → List Consulted → List (Nat × Consulted)
  | _, [] => []
  | position, verdict :: rest => (position, verdict) :: numberedFrom (position + 1) rest

/-- After a hit nothing more is observed. -/
theorem until_hit_of_hit {first : List Consulted} (hits : Consulted.hit ∈ first)
    (second : List Consulted) : untilHit (first ++ second) = untilHit first := by
  induction first with
  | nil => cases hits
  | cons verdict rest ih =>
    cases verdict with
    | hit => rfl
    | miss => exact congrArg (Consulted.miss :: ·) (ih (by simpa using hits))
    | skipped => exact congrArg (Consulted.skipped :: ·) (ih (by simpa using hits))

/-- With no hit, everything is. -/
theorem until_hit_of_none {first : List Consulted} (none : Consulted.hit ∉ first)
    (second : List Consulted) : untilHit (first ++ second) = first ++ untilHit second := by
  induction first with
  | nil => rfl
  | cons verdict rest ih =>
    have later := ih fun hits => none (List.mem_cons_of_mem _ hits)
    cases verdict with
    | hit => exact absurd List.mem_cons_self none
    | miss => exact congrArg (Consulted.miss :: ·) later
    | skipped => exact congrArg (Consulted.skipped :: ·) later

/-- Where nothing hits, all that was consulted is listed. -/
theorem until_hit_self {verdicts : List Consulted} (none : Consulted.hit ∉ verdicts) :
    untilHit verdicts = verdicts := by
  have whole := until_hit_of_none none []
  rw [List.append_nil, untilHit, List.append_nil] at whole
  exact whole

/-- Two lists are numbered one on from the other. -/
theorem numbered_append (position : Nat) (first second : List Consulted) :
    numberedFrom position (first ++ second) =
      numberedFrom position first ++ numberedFrom (position + first.length) second := by
  induction first generalizing position with
  | nil => rfl
  | cons verdict rest ih =>
    rw [List.cons_append, numberedFrom, ih, numberedFrom, List.length_cons, List.cons_append,
      Nat.add_assoc, Nat.add_comm 1]

/-- What is skipped is numbered as it stands. -/
theorem numbered_skipped (position count : Nat) :
    (List.range count).map (fun place => (position + place, Consulted.skipped)) =
      numberedFrom position (List.replicate count .skipped) := by
  induction count generalizing position with
  | zero => rfl
  | succ count ih =>
    rw [List.range_succ_eq_map, List.map_cons, List.map_map, List.replicate_succ, numberedFrom,
      ← ih (position + 1)]
    congr 1
    exact List.map_congr_left fun place _ => by simp [Nat.add_assoc, Nat.add_comm 1]

variable [Blake3] [Space σ]

/-- The node a level renders as. -/
def LevelCore.topology (level : LevelCore σ) : Topology :=
  .node (some level.name) (.level level.seals level.home) [Space.topology level.inner]
    (some level.serial)

namespace Scope

def isSevered (scope : Scope σ) : Bool :=
  match scope.chain with
  | none => false
  | some chain => chain.severed

/-- Every space the chain consults, in the order it consults them. -/
def consulted (scope : Scope σ) (root : σ) : List σ :=
  match scope.chain with
  | none => [root]
  | some chain =>
    (chain.injected.drop chain.confined).reverse ++ chain.levels.map LevelCore.inner ++
      (chain.injected.take chain.confined).reverse ++ if chain.severed then [] else [root]

/-- The first hit among corridors in the order they are asked, and what is observed of each, from
a position on. -/
def observeCorridors (scope : Scope σ) (request : Request) :
    Nat → List (σ × CorridorIdentity) → Option (Resolved σ) × List (Nat × Consulted)
  | _, [] => (none, [])
  | position, (space, identity) :: rest =>
    match Space.resolve space request scope with
    | .hit hit => (some (reportCorridor identity hit), [(position, .hit)])
    | .miss =>
      let later := scope.observeCorridors request (position + 1) rest
      (later.1, (position, .miss) :: later.2)

/-- The first hit in the level stack, and what is observed of each frame. -/
def observeFrames (scope : Scope σ) (request : Request) (seals : Seals)
    (isSealed : Option SealOwner) :
    Nat → LevelPath σ → Option (Resolved σ) × List (Nat × Consulted)
  | _, [] => (none, [])
  | position, level :: outward =>
    if isSealed.any fun owner => !seals.frameAdmits owner level then
      let later := scope.observeFrames request seals isSealed (position + 1) outward
      (later.1, (position, .skipped) :: later.2)
    else
      match Space.resolve level.inner request scope with
      | .hit hit => (some (reportFrame level outward hit), [(position, .hit)])
      | .miss =>
        let later := scope.observeFrames request seals isSealed (position + 1) outward
        (later.1, (position, .miss) :: later.2)

/-- Resolve a request, and tell what the walk did with each member it reached. -/
def resolveObserved (scope : Scope σ) (request : Request) (root : σ) (seals : Seals) :
    Except SealBreach (Resolution σ) × List (Nat × Consulted) :=
  match scope.chain with
  | none =>
    let resolution := Space.resolve root request scope
    (admitHit resolution request seals, [(0, .of resolution)])
  | some chain =>
    let isSealed := sealedBy request seals
    let host := chain.injected.drop chain.confined
    let hostIds := chain.identities.drop chain.confined
    let behind := chain.injected.take chain.confined
    let behindIds := chain.identities.take chain.confined
    let hosts := scope.observeCorridors request 0 (host.zip hostIds).reverse
    match hosts.1 with
    | some hit => (.ok (.hit hit), hosts.2)
    | none =>
      let afterHost := host.length
      let frames := scope.observeFrames request seals isSealed afterHost chain.levels
      match frames.1 with
      | some hit => (admitHit (.hit hit) request seals, hosts.2 ++ frames.2)
      | none =>
        let afterLevels := afterHost + chain.levels.length
        let confined :=
          if isSealed.isNone then
            scope.observeCorridors request afterLevels (behind.zip behindIds).reverse
          else (none, (List.range behind.length).map fun place => (afterLevels + place, .skipped))
        match confined.1 with
        | some hit => (.ok (.hit hit), hosts.2 ++ frames.2 ++ confined.2)
        | none =>
          if chain.severed then (.ok .miss, hosts.2 ++ frames.2 ++ confined.2)
          else
            let resolution := Space.resolve root request scope
            (admitHit resolution request seals,
              hosts.2 ++ frames.2 ++ confined.2 ++
                [(afterLevels + behind.length, .of resolution)])

/-- A corridor as it is listed. -/
def corridorMember (space : σ) (identity : CorridorIdentity) : ChainMember σ :=
  match identity with
  | .named name => ⟨space, name, Space.id space <|> some name⟩
  | .anonymous number => ⟨space, "_:".toList ++ Nat.toDigits 10 number, Space.id space⟩

def levelMember (level : LevelCore σ) : ChainMember σ :=
  ⟨level.inner, '@' :: level.name, some level.name⟩

def rootMember (root : σ) : ChainMember σ := ⟨root, "root".toList, Space.id root⟩

/-- Every member of the chain, in the order it is consulted. -/
def members (scope : Scope σ) (root : σ) : List (ChainMember σ) :=
  let corridor := fun held : σ × CorridorIdentity => corridorMember held.1 held.2
  (match scope.chain with
    | none => []
    | some chain =>
      let host := chain.injected.drop chain.confined
      let hostIds := chain.identities.drop chain.confined
      let behind := chain.injected.take chain.confined
      let behindIds := chain.identities.take chain.confined
      (host.zip hostIds).reverse.map corridor ++ chain.levels.map levelMember ++
        (behind.zip behindIds).reverse.map corridor) ++
    if scope.isSevered then [] else [rootMember root]

/-- The chain's own name as a node. -/
def chainName (scope : Scope σ) : Text :=
  if scope.fingerprint = 0 then "urn:ikigai:chain:root".toList
  else "urn:ikigai:chain:".toList ++ fingerprintText scope.fingerprint

/-- A corridor as a layer. -/
def corridorLayer (space : σ) (identity : CorridorIdentity) : Topology :=
  (Space.topology space).claimed identity

/-- The layers of the chain, in the order it is consulted. -/
def topologyLayers (scope : Scope σ) (root : σ) : List Topology :=
  let corridor := fun held : σ × CorridorIdentity => corridorLayer held.1 held.2
  (match scope.chain with
    | none => []
    | some chain =>
      let host := chain.injected.drop chain.confined
      let hostIds := chain.identities.drop chain.confined
      let behind := chain.injected.take chain.confined
      let behindIds := chain.identities.take chain.confined
      (host.zip hostIds).reverse.map corridor ++ chain.levels.map LevelCore.topology ++
        (behind.zip behindIds).reverse.map corridor) ++
    if scope.isSevered then [] else [Space.topology root]

/-- The arrangement a chain sees, as a tree. -/
def topology [IriSyntax] (scope : Scope σ) (root : σ) : Topology :=
  .node (Iri.parse scope.chainName) .other (scope.topologyLayers root) none

end Scope

/-- A member of a chain, and what it is there as. -/
inductive ChainLayer (σ : Type u) where
  | host (space : σ) (identity : CorridorIdentity)
  | level (core : LevelCore σ)
  | confined (space : σ) (identity : CorridorIdentity)
  | root (space : σ)

namespace ChainLayer

def space : ChainLayer σ → σ
  | .host space _ | .confined space _ | .root space => space
  | .level core => core.inner

def member : ChainLayer σ → ChainMember σ
  | .host space identity | .confined space identity => Scope.corridorMember space identity
  | .level core => Scope.levelMember core
  | .root space => Scope.rootMember space

def topology : ChainLayer σ → Topology
  | .host space identity | .confined space identity => Scope.corridorLayer space identity
  | .level core => core.topology
  | .root space => Space.topology space

/-- What the walk does with a member it reaches. -/
def verdict (scope : Scope σ) (request : Request) (seals : Seals) : ChainLayer σ → Consulted
  | .host space _ | .root space => .of (Space.resolve space request scope)
  | .level core =>
    if (Scope.sealedBy request seals).any fun owner => !seals.frameAdmits owner core then .skipped
    else .of (Space.resolve core.inner request scope)
  | .confined space _ =>
    if (Scope.sealedBy request seals).isNone then .of (Space.resolve space request scope)
    else .skipped

end ChainLayer

namespace Scope

/-- The members of a chain, each once. -/
def layers (scope : Scope σ) (root : σ) : List (ChainLayer σ) :=
  (scope.core.corridors.drop scope.core.confined).reverse.map
      (fun held => .host held.1 held.2) ++
    scope.core.levels.map .level ++
    (scope.core.corridors.take scope.core.confined).reverse.map
      (fun held => .confined held.1 held.2) ++
    if scope.core.severed then [] else [.root root]

end Scope

namespace Scope

omit [Blake3] [Space σ] in
/-- The confined corridors and the host's make up all there are. -/
theorem split_corridors (chain : Chain σ) (sound : chain.Sound) :
    (chain.injected.drop chain.confined).zip (chain.identities.drop chain.confined) =
        chain.corridors.drop chain.confined ∧
      (chain.injected.take chain.confined).zip (chain.identities.take chain.confined) =
        chain.corridors.take chain.confined ∧
      (chain.corridors.drop chain.confined).map Prod.fst = chain.injected.drop chain.confined ∧
      (chain.corridors.take chain.confined).map Prod.fst = chain.injected.take chain.confined := by
  have whole : chain.corridors.map Prod.fst = chain.injected := by
    rw [Chain.corridors, List.map_fst_zip]
    exact sound.parallel.ge
  refine ⟨?_, ?_, ?_, ?_⟩
  · simp only [Chain.corridors, List.zip_eq_zipWith, List.drop_zipWith]
  · simp only [Chain.corridors, List.zip_eq_zipWith, List.take_zipWith]
  · rw [List.map_drop, whole]
  · rw [List.map_take, whole]

omit [Space σ] in
/-- Whether a scope is severed is told by its chain. -/
theorem severed_eq (scope : Scope σ) : scope.isSevered = scope.core.severed := by
  rw [isSevered, core]
  cases scope.chain <;> rfl

omit [Space σ] in
/-- The walk goes over the layers. -/
theorem consulted_layers (scope : Scope σ) (root : σ) :
    scope.consulted root = (scope.layers root).map ChainLayer.space := by
  have split := split_corridors scope.core scope.core_sound
  have written : scope.consulted root =
      (scope.core.injected.drop scope.core.confined).reverse ++
        scope.core.levels.map LevelCore.inner ++
        (scope.core.injected.take scope.core.confined).reverse ++
        if scope.core.severed then [] else [root] := by
    rw [consulted, core]
    cases scope.chain <;> rfl
  rw [written, layers, List.map_append, List.map_append, List.map_append, List.map_map,
    List.map_map, List.map_map, ← split.2.2.1, ← split.2.2.2, ← List.map_reverse,
    ← List.map_reverse]
  congr 1
  split <;> rfl

/-- The list of members is that of the layers. -/
theorem members_layers (scope : Scope σ) (root : σ) :
    scope.members root = (scope.layers root).map ChainLayer.member := by
  have split := split_corridors scope.core scope.core_sound
  have written : scope.members root =
      (((scope.core.injected.drop scope.core.confined).zip
          (scope.core.identities.drop scope.core.confined)).reverse.map fun held =>
            corridorMember held.1 held.2) ++
        scope.core.levels.map levelMember ++
        (((scope.core.injected.take scope.core.confined).zip
          (scope.core.identities.take scope.core.confined)).reverse.map fun held =>
            corridorMember held.1 held.2) ++
        if scope.core.severed then [] else [rootMember root] := by
    rw [members, severed_eq, core]
    cases scope.chain <;> rfl
  rw [written, split.1, split.2.1, layers, List.map_append, List.map_append, List.map_append,
    List.map_map, List.map_map, List.map_map]
  congr 1
  split <;> rfl

/-- The layers of the tree are these layers. -/
theorem topology_layers (scope : Scope σ) (root : σ) :
    scope.topologyLayers root = (scope.layers root).map ChainLayer.topology := by
  have split := split_corridors scope.core scope.core_sound
  have written : scope.topologyLayers root =
      (((scope.core.injected.drop scope.core.confined).zip
          (scope.core.identities.drop scope.core.confined)).reverse.map fun held =>
            corridorLayer held.1 held.2) ++
        scope.core.levels.map LevelCore.topology ++
        (((scope.core.injected.take scope.core.confined).zip
          (scope.core.identities.take scope.core.confined)).reverse.map fun held =>
            corridorLayer held.1 held.2) ++
        if scope.core.severed then [] else [Space.topology root] := by
    rw [topologyLayers, severed_eq, core]
    cases scope.chain <;> rfl
  rw [written, split.1, split.2.1, layers, List.map_append, List.map_append, List.map_append,
    List.map_map, List.map_map, List.map_map]
  congr 1
  split <;> rfl

/-- Corridors observed from a position on: the first hit among them, and what was observed. -/
theorem observe_corridors (scope : Scope σ) (request : Request) (position : Nat)
    (corridors : List (σ × CorridorIdentity)) :
    scope.observeCorridors request position corridors =
      (scope.firstCorridor request corridors, numberedFrom position (untilHit
        (corridors.map fun held => .of (Space.resolve held.1 request scope)))) := by
  induction corridors generalizing position with
  | nil => rfl
  | cons corridor rest ih =>
    obtain ⟨space, identity⟩ := corridor
    rw [observeCorridors, firstCorridor, List.map_cons]
    cases Space.resolve space request scope with
    | hit hit => rfl
    | miss =>
      dsimp only
      rw [ih]
      rfl

/-- Some corridor is consulted with a hit exactly when there is a first corridor that answers. -/
theorem hit_mem_corridors (scope : Scope σ) (request : Request)
    (corridors : List (σ × CorridorIdentity)) :
    Consulted.hit ∈ corridors.map (fun held => .of (Space.resolve held.1 request scope)) ↔
      (scope.firstCorridor request corridors).isSome = true := by
  induction corridors with
  | nil => simp [firstCorridor]
  | cons corridor rest ih =>
    obtain ⟨space, identity⟩ := corridor
    rw [List.map_cons, List.mem_cons, ih, firstCorridor]
    cases Space.resolve space request scope with
    | hit hit => simp [Consulted.of]
    | miss => simp [Consulted.of]

/-- What the walk does with a frame. -/
def frameVerdict (scope : Scope σ) (request : Request) (seals : Seals)
    (isSealed : Option SealOwner) (level : LevelCore σ) : Consulted :=
  if isSealed.any fun owner => !seals.frameAdmits owner level then .skipped
  else .of (Space.resolve level.inner request scope)

/-- Frames are observed one by one, each with its verdict. -/
theorem observe_frames (scope : Scope σ) (request : Request) (seals : Seals)
    (isSealed : Option SealOwner) (position : Nat) (levels : LevelPath σ) :
    scope.observeFrames request seals isSealed position levels =
      (scope.frameHit request seals isSealed levels, numberedFrom position (untilHit
        (levels.map (scope.frameVerdict request seals isSealed)))) := by
  induction levels generalizing position with
  | nil => rfl
  | cons level outward ih =>
    rw [observeFrames, frameHit, List.map_cons, frameVerdict]
    split
    · dsimp only
      rw [ih]
      rfl
    · cases Space.resolve level.inner request scope with
      | hit hit => rfl
      | miss =>
        dsimp only
        rw [ih]
        rfl

/-- Some frame is consulted with a hit exactly when one is found to hit. -/
theorem hit_mem_frames (scope : Scope σ) (request : Request) (seals : Seals)
    (isSealed : Option SealOwner) (levels : LevelPath σ) :
    Consulted.hit ∈ levels.map (scope.frameVerdict request seals isSealed) ↔
      (scope.frameHit request seals isSealed levels).isSome = true := by
  induction levels with
  | nil => simp [frameHit]
  | cons level outward ih =>
    rw [List.map_cons, List.mem_cons, ih, frameHit, frameVerdict]
    split
    · simp
    · cases Space.resolve level.inner request scope with
      | hit hit => simp [Consulted.of]
      | miss => simp [Consulted.of]

/-- The walk that is observed is the walk, and what is observed of the layer at each position is
what the walk does with it, up to the first that hits. -/
theorem observed_walk (scope : Scope σ) (request : Request) (root : σ) (seals : Seals) :
    scope.resolveObserved request root seals =
      (scope.resolveIn request root seals, numberedFrom 0 (untilHit
        ((scope.layers root).map (ChainLayer.verdict scope request seals)))) := by
  have verdicts : (scope.layers root).map (ChainLayer.verdict scope request seals) =
      ((scope.core.corridors.drop scope.core.confined).reverse.map fun held =>
          .of (Space.resolve held.1 request scope)) ++
        (scope.core.levels.map (scope.frameVerdict request seals (sealedBy request seals)) ++
        (((scope.core.corridors.take scope.core.confined).reverse.map fun held =>
          if (sealedBy request seals).isNone then .of (Space.resolve held.1 request scope)
          else .skipped) ++
        if scope.core.severed then []
        else [.of (Space.resolve root request scope)])) := by
    rw [layers, List.map_append, List.map_append, List.map_append, List.map_map, List.map_map,
      List.map_map, List.append_assoc, List.append_assoc]
    congr 3
    split <;> rfl
  cases held : scope.chain with
  | none =>
    have blank : scope.core = Chain.blank := by rw [core, held]; rfl
    rw [resolveObserved, resolveIn, held, verdicts, blank]
    cases Space.resolve root request scope <;> rfl
  | some chain =>
    have same : scope.core = chain := by rw [core, held]; rfl
    have sound := scope.core_sound
    rw [same] at verdicts sound
    have split := split_corridors chain sound
    have hosts := scope.hit_mem_corridors request (chain.corridors.drop chain.confined).reverse
    have frames := scope.hit_mem_frames request seals (sealedBy request seals) chain.levels
    have width : (chain.corridors.drop chain.confined).length =
        (chain.injected.drop chain.confined).length := by
      rw [← split.2.2.1, List.length_map]
    have depth : (chain.corridors.take chain.confined).length =
        (chain.injected.take chain.confined).length := by
      rw [← split.2.2.2, List.length_map]
    have last (position : Nat) : numberedFrom position (untilHit
        (if chain.severed then [] else [.of (Space.resolve root request scope)])) =
        if chain.severed then [] else [(position, .of (Space.resolve root request scope))] := by
      cases chain.severed with
      | true => rfl
      | false => cases Space.resolve root request scope <;> rfl
    rw [resolveObserved, resolveIn, held, verdicts]
    dsimp only
    rw [resolveChain, host_corridor_hit, confined_corridor_hit]
    dsimp only
    rw [split.1, split.2.1, observe_corridors]
    cases host : scope.firstCorridor request (chain.corridors.drop chain.confined).reverse with
    | some hit =>
      rw [until_hit_of_hit (hosts.mpr (by rw [host]; rfl))]
    | none =>
      have noHost := mt hosts.mp (by rw [host]; exact Bool.false_ne_true)
      rw [until_hit_of_none noHost, until_hit_self noHost, numbered_append, List.length_map,
        List.length_reverse, width, Nat.zero_add]
      dsimp only
      rw [observe_frames]
      cases frame : scope.frameHit request seals (sealedBy request seals) chain.levels with
      | some hit =>
        rw [until_hit_of_hit (frames.mpr (by rw [frame]; rfl))]
      | none =>
        have noFrame := mt frames.mp (by rw [frame]; exact Bool.false_ne_true)
        rw [until_hit_of_none noFrame, until_hit_self noFrame, numbered_append, List.length_map]
        dsimp only
        by_cases unsealed : (sealedBy request seals).isNone = true
        · have behinds := scope.hit_mem_corridors request
            (chain.corridors.take chain.confined).reverse
          simp only [if_pos unsealed]
          rw [observe_corridors]
          cases confined : scope.firstCorridor request
              (chain.corridors.take chain.confined).reverse with
          | some hit =>
            rw [until_hit_of_hit (behinds.mpr (by rw [confined]; rfl)), List.append_assoc]
          | none =>
            have noBehind := mt behinds.mp (by rw [confined]; exact Bool.false_ne_true)
            rw [until_hit_of_none noBehind, until_hit_self noBehind, numbered_append,
              List.length_map, List.length_reverse, depth]
            dsimp only
            rw [last]
            cases chain.severed <;> simp
        · simp only [if_neg unsealed]
          have skips : ((chain.corridors.take chain.confined).reverse.map fun _ =>
              Consulted.skipped) =
              List.replicate (chain.injected.take chain.confined).length .skipped := by
            rw [List.map_const', List.length_reverse, depth]
          have noBehind : Consulted.hit ∉
              List.replicate (chain.injected.take chain.confined).length Consulted.skipped := by
            intro hits
            cases List.eq_of_mem_replicate hits
          rw [skips, numbered_skipped, until_hit_of_none noBehind, numbered_append,
            List.length_replicate]
          rw [last]
          cases chain.severed <;> simp

end Scope

end Ikigai
