import Ikigai.Scope

/-!
# Sealed names

A seal table holds prefixes, each with one owner: core, the host, or a level by
name. It is built from what an arrangement's topology shows (levels, doors, and
the routes a request can take to each) and refused where a door or a claim breaks
the rule. What the topology cannot show is checked on every resolution.

The walk over the topology carries the enclosing levels innermost first; the
source carries them innermost last and reverses them at each door. The texts that
print a refusal are left out, its fields are not.
-/

namespace Ikigai

universe u

/-- Who owns a sealed prefix. -/
inductive SealOwner where
  | core
  | host
  | level (name : Iri)
deriving DecidableEq, Repr

/-- A sealed prefix and its owner. -/
abbrev Claim := Text × SealOwner

/-- Why a kernel's seals were refused at build. -/
inductive SealError where
  | binds (level : Option Iri) (door : Text) (sealedHead : Text) (owner : SealOwner)
  | outsideNamespace (level : Iri) (sealedHead : Text) (home : Option Text)
  | overlaps (sealedHead : Text) (owner : SealOwner) (other : Text) (otherOwner : SealOwner)
deriving DecidableEq, Repr

def SealOwner.text : SealOwner → Text
  | .core => "core".toList
  | .host => "the host".toList
  | .level name => "level `".toList ++ name ++ "`".toList

def SealError.text : SealError → Text
  | .binds (some level) door sealedHead owner =>
    "level `".toList ++ level ++ "` binds `".toList ++ door ++
      "`, which can answer names under `".toList ++ sealedHead ++ "`, sealed by ".toList ++
      owner.text ++
      (": refused — a sealed name is answered only by its owner; bind it outside the " ++
        "level").toList
  | .binds none door sealedHead owner =>
    "the root binds `".toList ++ door ++
      "` outside every level, and it can answer names under `".toList ++ sealedHead ++
      "`, sealed by ".toList ++ owner.text ++
      ": refused — a sealed name is answered only by its owner".toList
  | .outsideNamespace level sealedHead (some home) =>
    "level `".toList ++ level ++ "` seals `".toList ++ sealedHead ++
      "`, outside its namespace `".toList ++ home ++
      "`: refused — a module seals only its own names".toList
  | .outsideNamespace level sealedHead none =>
    "level `".toList ++ level ++ "` seals `".toList ++ sealedHead ++
      ("` but is mounted under no prefix and was accepted into no namespace: refused — a " ++
        "module seals only its own names").toList
  | .overlaps sealedHead owner other otherOwner =>
    "`".toList ++ other ++ "` (sealed by ".toList ++ otherOwner.text ++ ") overlaps `".toList ++
      sealedHead ++ "` (sealed by ".toList ++ owner.text ++
      "): refused — every sealed prefix has exactly one owner".toList

/-- A resolution the seals refuse at runtime. -/
structure SealBreach where
  name : Iri
  owner : SealOwner
  level : Option Iri
  unregistered : Bool
deriving DecidableEq, Repr

/-- Every sealed prefix with its owner, the levels the topology showed by name and
serial, and whether core's claims are the only ones. -/
structure Seals where
  claims : List Claim
  levels : List (Iri × Nat)
  trivial : Bool
deriving DecidableEq, Repr

namespace Seals

def coreSeals : List Text := ["urn:kernel:".toList, "urn:stream:".toList]

def coreClaims : List Claim := coreSeals.map fun head => (head, .core)

/-- The table that holds core's claims alone. -/
def default : Seals := ⟨coreClaims, [], true⟩

/-- Two prefixes share names: one extends the other. -/
def touches (left right : Text) : Bool :=
  left.startsWith right || right.startsWith left

/-- Narrow a route's gate by a mount's prefix: nothing once no name gets through. -/
def narrow (gate : Option Text) (head : Text) : Option Text :=
  match gate with
  | none => none
  | some gate =>
    if head.startsWith gate then some head
    else if gate.startsWith head then some gate
    else none

/-- A level as the topology states it. -/
structure FoundLevel where
  name : Iri
  serial : Option Nat
  seals : List Text
  home : Option Text
deriving DecidableEq, Repr

/-- A door as the topology states it, with every route a request can reach it by:
the gate from each enclosing level, innermost first, and the gate from the root. -/
structure FoundDoor where
  text : Text
  kind : MatchKind
  levels : List (Iri × Option Text)
  rootGate : Option Text
deriving DecidableEq, Repr

namespace FoundDoor

/-- The literal head of the pattern. -/
def head (door : FoundDoor) : Text :=
  match door.kind with
  | .template | .custom => door.text.takeWhile (· ≠ '{')
  | .exact | .headed => door.text

/-- Whether the door can answer a name under a prefix, by its literal head. -/
def mayMatch (door : FoundDoor) (sealedHead : Text) : Bool :=
  let expands := decide (door.head.length < door.text.length)
  match door.kind with
  | .headed => touches door.text sealedHead
  | _ => if expands then touches door.head sealedHead else door.text.startsWith sealedHead

def reaches (gate : Option Text) (sealedHead : Text) : Bool :=
  gate.any fun gate => touches gate sealedHead

/-- Whether the literal head lies inside a prefix. -/
def inside (door : FoundDoor) (sealedHead : Text) : Bool :=
  door.head.startsWith sealedHead

/-- The name of the innermost level around the door. -/
def innermost (door : FoundDoor) : Option Iri := door.levels.head?.map Prod.fst

/-- Whether the door sits where the owner of a claim is. -/
def placed (door : FoundDoor) : SealOwner → Bool
  | .core => true
  | .host => door.innermost.isNone
  | .level owner => door.innermost == some owner

/-- Whether a door that sits elsewhere is refused. -/
def refused (door : FoundDoor) (sealedHead : Text) (owner : SealOwner) : Bool :=
  if door.inside sealedHead then true
  else if door.mayMatch sealedHead then
    match owner with
    | .core => false
    | .host => reaches door.rootGate sealedHead
    | .level owner =>
      reaches door.rootGate sealedHead ||
        door.levels.any fun (name, gate) => name == owner && reaches gate sealedHead
  else false

/-- The refusal this door earns against one claim, if any. -/
def breach (door : FoundDoor) (claim : Claim) : Option SealError :=
  if door.placed claim.2 then none
  else if door.refused claim.1 claim.2 then
    some (.binds door.innermost door.text claim.1 claim.2)
  else none

end FoundDoor

/-- The levels and doors a walk has collected. -/
structure Found where
  levels : List FoundLevel
  doors : List FoundDoor
deriving DecidableEq, Repr

namespace Found

def nothing : Found := ⟨[], []⟩

def append (found other : Found) : Found :=
  ⟨found.levels ++ other.levels, found.doors ++ other.doors⟩

def door (text : Text) (kind : MatchKind) (levels : List (Iri × Option Text))
    (rootGate : Option Text) : FoundDoor :=
  ⟨text, kind, levels, rootGate⟩

/-- The door an alias rule's logical name is. -/
def ruleDoor (levels : List (Iri × Option Text)) (rootGate : Option Text)
    (rule : TopologyRule) : FoundDoor :=
  match rule.kind with
  | .exact => door rule.source .exact levels rootGate
  | .headed => door rule.source .headed levels rootGate

mutual

/-- Walk a topology tree, collecting levels and doors. -/
def walk (levels : List (Iri × Option Text)) (rootGate : Option Text) : Topology → Found
  | .node id kind children serial =>
    match kind with
    | .level seals home =>
      match id with
      | none => nothing
      | some name =>
        let gate := match levels with
          | [] => rootGate
          | (_, gate) :: _ => gate
        append ⟨[⟨name, serial, seals, home <|> gate⟩], []⟩
          (walkAll ((name, some []) :: levels) rootGate children)
    | .mount head =>
      walkAll (levels.map fun (name, gate) => (name, narrow gate head)) (narrow rootGate head)
        children
    | .endpointSpace doors =>
      ⟨[], doors.map fun found => door found.pattern found.kind levels rootGate⟩
    | .limit => nothing
    | .«alias» rules =>
      append ⟨[], rules.map (ruleDoor levels rootGate)⟩ (walkAll levels rootGate children)
    | .other => walkAll levels rootGate children

/-- Walk the children of one node in order. -/
def walkAll (levels : List (Iri × Option Text)) (rootGate : Option Text) :
    List Topology → Found
  | [] => nothing
  | child :: rest => append (walk levels rootGate child) (walkAll levels rootGate rest)

end

end Found

/-- Record one seal a level declares, unless it is outside the level's namespace.
One level reached twice is one owner, and its claims are recorded once. -/
def claimSeal (level : FoundLevel) (claims : List Claim) (sealedHead : Text) :
    Except SealError (List Claim) :=
  let claim := (sealedHead, SealOwner.level level.name)
  match level.home with
  | some home =>
    if !home.isEmpty && sealedHead.startsWith home then
      .ok (if claim ∈ claims then claims else claims ++ [claim])
    else
      .error (.outsideNamespace level.name sealedHead (if home.isEmpty then none else some home))
  | none => .error (.outsideNamespace level.name sealedHead none)

/-- Record everything the found levels declare. -/
def claimAll (levels : List FoundLevel) (claims : List Claim) : Except SealError (List Claim) :=
  levels.foldlM (fun claims level => level.seals.foldlM (claimSeal level) claims) claims

/-- The first claim that shares names with an earlier claim of another owner. -/
def firstOverlap : List Claim → List Claim → Option SealError
  | _, [] => none
  | earlier, claim :: rest =>
    match earlier.find? fun other => other.2 ≠ claim.2 ∧ touches claim.1 other.1 with
    | some other => some (.overlaps other.1 other.2 claim.1 claim.2)
    | none => firstOverlap (earlier ++ [claim]) rest

/-- The first refusal any door earns. -/
def firstBreach (doors : List FoundDoor) (claims : List Claim) : Option SealError :=
  doors.findSome? fun door => claims.findSome? door.breach

/-- Register one found level, unless its serial is registered already. -/
def registerLevel (levels : List (Iri × Nat)) (level : FoundLevel) : List (Iri × Nat) :=
  match level.serial with
  | some serial =>
    if levels.any fun entry => entry.2 == serial then levels
    else levels ++ [(level.name, serial)]
  | none => levels

/-- Every level object the topology showed, each serial once. -/
def register (found : List FoundLevel) : List (Iri × Nat) := found.foldl registerLevel []

/-- The table for an arrangement's topology, with `host` sealed besides core. -/
def fromTopology (tree : Topology) (host : List Text) : Except SealError Seals := do
  let found := Found.walk [] (some []) tree
  let claims ← claimAll found.levels (coreClaims ++ host.map fun head => (head, .host))
  match firstOverlap [] claims with
  | some refusal => throw refusal
  | none =>
    match firstBreach found.doors claims with
    | some refusal => throw refusal
    | none =>
      return ⟨claims, register found.levels, decide (claims.length = coreSeals.length)⟩

/-- The owner of the sealed prefix a name falls under, if any. -/
def ownerOf (seals : Seals) (name : Text) : Option SealOwner :=
  (seals.claims.find? fun claim => name.startsWith claim.1).map Prod.snd

/-- Whether the level object with this serial is one the topology showed. -/
def registered (seals : Seals) (serial : Nat) : Bool :=
  seals.levels.any fun entry => entry.2 == serial

variable {σ : Type u}

/-- Whether a level is one this kernel registered under a name. -/
def isOwner (seals : Seals) (name : Iri) (level : LevelCore σ) : Bool :=
  level.name == name && seals.registered level.serial

/-- Whether a sealed name may be looked up in a level-stack frame. -/
def frameAdmits (seals : Seals) (owner : SealOwner) (level : LevelCore σ) : Bool :=
  match owner with
  | .level name => seals.isOwner name level
  | .core | .host => false

/-- The first level on a path that declares seals and is not registered. -/
def unregisteredSealing (seals : Seals) (path : LevelPath σ) : Option Iri :=
  (path.find? fun level => !level.seals.isEmpty && !seals.registered level.serial).map
    LevelCore.name

/-- Whether an owner accepts a hit whose innermost level is the given one. -/
def accepts (seals : Seals) (owner : SealOwner) (innermost : Option (LevelCore σ)) : Bool :=
  match owner with
  | .core => false
  | .host => innermost.isNone
  | .level name => innermost.any (seals.isOwner name)

/-- The first of the names that the place of a hit may not answer. -/
def firstRefused (seals : Seals) (path : LevelPath σ) : List Iri → Option SealBreach
  | [] => none
  | name :: rest =>
    match seals.ownerOf name with
    | none => firstRefused seals path rest
    | some owner =>
      if seals.accepts owner path.head? then firstRefused seals path rest
      else some ⟨name, owner, path.head?.map LevelCore.name, false⟩

/-- Check a hit found at `path` for the target and a reported canonical. -/
def admitNames (seals : Seals) (names : List Iri) (path : LevelPath σ) :
    Except SealBreach Unit :=
  match seals.unregisteredSealing path with
  | some hidden => .error ⟨names.headD hidden, .level hidden, some hidden, true⟩
  | none =>
    match seals.firstRefused path names with
    | some breach => .error breach
    | none => .ok ()

end Seals

end Ikigai
