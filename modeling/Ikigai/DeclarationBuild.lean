import Ikigai.CodedSpaces
import Ikigai.DeclarationClaims
import Ikigai.IssuePath
import Ikigai.RuleSummaries

/-!
# Building a declaration

A host registers endpoints under their own names; a declaration is built over them. The tree is
measured and its names are checked before anything is built. Each node is then refused for what
it earns by itself, what it encloses is built, and it is put together; a name met again is the
space that was built under it. The whole is held to the seals. Level objects are numbered from
the process's counter, and two names for one object are told apart by a parameter.
-/

namespace Ikigai

/-- Whether two handles are one object, which then has one value. -/
class Shared (α : Type) where
  same : α → α → Bool
  eq_of_same : ∀ first second, same first second = true → first = second

/-- The endpoints a declaration may bind, each under its own name, and what the host seals. -/
structure Registry (ε : Type) [Registrable ε] where
  endpoints : KeyedMap Text (CodedEndpoint ε) := ∅
  sealed : List Text := []
  named : ∀ name endpoint, endpoints.lookup name = some endpoint → endpoint.name = name := by
    exact fun _ _ held => nomatch held

namespace Registry

variable {ε : Type} [Registrable ε]

/-- The endpoint registered under a name. -/
def get (registry : Registry ε) (id : Text) : Option (CodedEndpoint ε) :=
  registry.endpoints.lookup id

/-- Register an endpoint under its own name, unless another holds it. -/
def register [Shared (CodedEndpoint ε)] (registry : Registry ε) (endpoint : CodedEndpoint ε) :
    Except DeclarationError (Registry ε) :=
  match registry.get endpoint.name with
  | some held =>
    if Shared.same held endpoint then .ok registry else .error (.duplicateEndpoint endpoint.name)
  | none =>
    .ok {
      endpoints := registry.endpoints.insert endpoint.name endpoint
      sealed := registry.sealed
      named := by
        intro name other held
        by_cases own : name = endpoint.name
        · subst own
          rw [AList.lookup_insert] at held
          exact Option.some.inj held ▸ rfl
        · rw [AList.lookup_insert_ne own] at held
          exact registry.named name other held }

/-- Seal prefixes for the host. -/
def sealing (registry : Registry ε) (heads : List Text) : Registry ε :=
  { registry with sealed := registry.sealed ++ heads }

end Registry

namespace DeclarationError

/-- A refusal, naming a node as where it was found. -/
def atNode (node : Text) : DeclarationError → DeclarationError
  | .malformed _ reason => .malformed (some node) reason
  | .pattern _ shape reason => .pattern node shape reason
  | other => other

end DeclarationError

namespace Declared

/-- A template pattern, or why it is not one. -/
def template (node shape : Text) : Except DeclarationError UriTemplate :=
  (UriTemplate.parse shape).mapError fun error =>
    .pattern node shape ("is not a URI template: ".toList ++ error.text shape)

/-- The refusal for a grammar that is code. -/
def custom (node shape : Text) : DeclarationError :=
  .pattern node shape
    ("is a custom grammar's description, not its definition: the grammar is code, and a " ++
      "declaration cannot rebuild it from the text").toList

/-- The refusal for what no declaration builds. -/
def notBuilt (me : Text) : DeclarationError :=
  malformed me "not a node a declaration builds".toList

/-- Refuse a node that does not enclose a number of spaces. -/
def encloses {τ : Type} (me : Text) (layer : DeclaredLayer τ) (count : Nat) :
    Except DeclarationError Unit :=
  if layer.children.length = count then .ok ()
  else
    .error (malformed me ("encloses ".toList ++ Nat.toDigits 10 layer.children.length ++
      " spaces, and this kind encloses ".toList ++ Nat.toDigits 10 count))

variable {ε : Type} [Registrable ε]

/-- The refusals one door earns: its endpoint by name, its corridor's name, its grammar. -/
def checkDoor (registry : Registry ε) (place : Text) (door : DeclaredDoor DeclaredSpace) :
    Except DeclarationError Unit :=
  if (registry.get door.endpoint).isNone then .error (.unknownEndpoint place door.endpoint)
  else if door.confined.any fun corridor => corridor.layer.id.isNone then
    .error (malformed place "a confined corridor is named by its confinement".toList)
  else
    match door.kind with
    | .exact => .ok ()
    | .template => (template place door.pattern).map fun _ => ()
    | .headed =>
      .error (.pattern place door.pattern
        ("is a prefix: a door is an exact name or a template, and a prefix is a Mount's or a " ++
          "limiter's").toList)
    | .custom => .error (custom place door.pattern)

/-- The doors in order, from a number on. -/
def checkDoors (registry : Registry ε) (me : Text) :
    Nat → List (DeclaredDoor DeclaredSpace) → Except DeclarationError Unit
  | _, [] => .ok ()
  | number, door :: rest => do
    checkDoor registry (me ++ ":door:".toList ++ Nat.toDigits 10 number) door
    checkDoors registry me (number + 1) rest

variable [IriSyntax]

/-- One name a rule matches, to walk its table from: each variable a placeholder. -/
def sampleName (rule : DeclaredRule) : Option Iri :=
  if rule.template then
    (UriTemplate.parse rule.source).toOption.bind fun template =>
      (template.expand (template.variableNames.map fun var => (var, "probe".toList))).bind Iri.parse
  else Iri.parse rule.source

/-- The rules in order, from a number on. -/
def checkRules (me : Text) : Nat → List DeclaredRule → Except DeclarationError Unit
  | _, [] => .ok ()
  | number, rule :: rest => do
    (rule.requestPart.map fun _ => ()).mapError
      (DeclarationError.atNode (me ++ ":rule:".toList ++ Nat.toDigits 10 number))
    checkRules me (number + 1) rest

/-- A view whose own table does not terminate is refused, in order, from a number on. -/
def checkViews (table : AliasTable) (me : Text) :
    Nat → List DeclaredRule → Except DeclarationError Unit
  | _, [] => .ok ()
  | number, rule :: rest =>
    if rule.resolveAt = .root then
      match (sampleName rule).map table.canonicalize with
      | some (.refused refusal) =>
        .error (malformed (me ++ ":rule:".toList ++ Nat.toDigits 10 number)
          ("a view (ik:resolveAt \"root\") must terminate: ".toList ++ refusal.text))
      | _ => checkViews table me (number + 1) rest
    else checkViews table me (number + 1) rest

/-- What an overlay earns by its rules. -/
def checkTable (me : Text) (rules : List DeclaredRule) (maxHops : Nat) :
    Except DeclarationError Unit :=
  if maxHops = 0 then
    .error (malformed me "an alias table follows at least one hop (ik:maxHops ≥ 1)".toList)
  else do
    checkRules me 1 rules
    let table ← AliasTable.ofDeclared rules maxHops
    checkViews table me 1 rules

/-- Every refusal a node earns by itself, before anything it encloses is built. -/
def check (registry : Registry ε) (layer : DeclaredLayer DeclaredSpace) (me : Text)
    (mountedAt : Option Text) : Except DeclarationError Unit :=
  match layer.kind with
  | .hidden => .error (.hidden me mountedAt)
  | .rewrite => .error (.rewrite me)
  | .chain _ => .error (.chain me)
  | .confine => .error (.confine me)
  | .dynamic _ => .error (.dynamic me)
  | .endpointSpace doors => do
    encloses me layer 0
    checkDoors registry me 1 doors
  | .fallback => .ok ()
  | .mount _ => encloses me layer 1
  | .«alias» rules maxHops => do
    encloses me layer 1
    checkTable me rules maxHops
  | .limit family kind => do
    encloses me layer 0
    match kind with
    | .template => (template me family).map fun _ => ()
    | .custom => .error (custom me family)
    | .exact | .headed => .ok ()
  | .level _ _ => do
    encloses me layer 1
    if layer.id.isNone then .error (malformed me "a level is always named".toList) else .ok ()

end Declared

namespace Declared

variable {ε : Type} [Registrable ε]

/-- The endpoint a door binds, confined when its corridor is named. -/
def boundEndpoint (registry : Registry ε) (place : Text)
    (door : DeclaredDoor (DeclaredSpace × CodedSpace ε)) :
    Except DeclarationError (CodedEndpoint ε) :=
  match registry.get door.endpoint with
  | none => .error (.unknownEndpoint place door.endpoint)
  | some endpoint =>
    match door.confined with
    | none => .ok endpoint
    | some (declared, corridor) =>
      match declared.layer.id with
      | some name => .ok (.confine name corridor endpoint)
      | none => .ok endpoint

/-- The grammar a door is bound by. -/
def boundGrammar {τ : Type} (place : Text) (door : DeclaredDoor τ) :
    Except DeclarationError Grammar :=
  match door.kind with
  | .template => (template place door.pattern).map .template
  | .exact | .headed | .custom => .ok (.exact door.pattern)

/-- Bind the doors in order, from a number on. -/
def bindDoors (registry : Registry ε) (me : Text) :
    Nat → List (DeclaredDoor (DeclaredSpace × CodedSpace ε)) →
      Except DeclarationError (List (Grammar × CodedEndpoint ε))
  | _, [] => .ok []
  | number, door :: rest => do
    let place := me ++ ":door:".toList ++ Nat.toDigits 10 number
    let endpoint ← boundEndpoint registry place door
    let grammar ← boundGrammar place door
    let bindings ← bindDoors registry me (number + 1) rest
    return (grammar, endpoint) :: bindings

/-- The family a limiter carves out. -/
def boundFamily (me family : Text) : MatchKind → Except DeclarationError Family
  | .template => (template me family).map fun parsed => .grammar (.template parsed)
  | .exact => .ok (.grammar (.exact family))
  | .headed | .custom => .ok (.headed family)

variable [IriSyntax]

/-- Put a node together from what it encloses, already built, each with what it is built from. -/
def assemble (registry : Registry ε) (me : Text)
    (layer : DeclaredLayer (DeclaredSpace × CodedSpace ε)) (serial : Nat) :
    Except DeclarationError (CodedSpace ε) :=
  match layer.kind, layer.children with
  | .endpointSpace doors, _ => do
    let bindings ← bindDoors registry me 1 doors
    return .endpointSpace bindings layer.id
  | .fallback, children => .ok (.fallback (children.map Prod.snd) layer.id)
  | .mount head, (_, inner) :: _ => .ok (.mount head inner layer.id)
  | .«alias» rules maxHops, (_, inner) :: _ => do
    let table ← AliasTable.ofDeclared rules maxHops
    return .«alias» table inner layer.id
  | .limit family kind, _ => do
    let carved ← boundFamily me family kind
    return .limit carved layer.id
  | .level seals home, (_, inner) :: _ =>
    match layer.id with
    | some name => .ok (.level name serial inner seals home)
    | none => .error (notBuilt me)
  | _, _ => .error (notBuilt me)

end Declared

/-- What the walk carries: the last number given to an anonymous node, the next level's serial,
and every named node built so far with what it was built from. -/
structure Builder (ε : Type) where
  skolem : Nat := 0
  serial : Nat
  named : List (Text × DeclaredSpace × CodedSpace ε) := []

/-- What building a node does, given the prefix of the mount whose space it is. -/
abbrev Builds (ε : Type) :=
  Option Text → Builder ε → Except DeclarationError (CodedSpace ε × Builder ε)

namespace Builder

variable {ε : Type}

/-- The name a node is rendered under: its own, or the next number's. -/
def iri (builder : Builder ε) (id : Option Iri) : Text × Builder ε :=
  match id with
  | some id => (id, builder)
  | none => (skolemName (builder.skolem + 1), { builder with skolem := builder.skolem + 1 })

/-- The space already built under a node's name, refused when it was built from another. -/
def metAgain (builder : Builder ε) (node : DeclaredSpace) :
    Except DeclarationError (Option (CodedSpace ε)) :=
  match node.layer.id with
  | none => .ok none
  | some me =>
    match builder.named.lookup me with
    | none => .ok none
    | some (first, space) => if first = node then .ok (some space) else .error (claimedTwice me)

/-- Enter what was built of a node, and count a level. -/
def enter (builder : Builder ε) (node : DeclaredSpace) (space : CodedSpace ε) : Builder ε :=
  { builder with
    serial := match space with
      | .level .. => builder.serial + 1
      | _ => builder.serial
    named := match node.layer.id with
      | some me => (me, node, space) :: builder.named
      | none => builder.named }

/-- Build one after another. -/
def inOrder : List (Builder ε → Except DeclarationError (CodedSpace ε × Builder ε)) → Builder ε →
    Except DeclarationError (List (CodedSpace ε) × Builder ε)
  | [], builder => .ok ([], builder)
  | build :: rest, builder => do
    let (space, builder) ← build builder
    let (spaces, builder) ← inOrder rest builder
    return (space :: spaces, builder)

variable [Registrable ε] [IriSyntax]

/-- The prefix a node mounts its child at. -/
def mountOf {τ : Type} (layer : DeclaredLayer τ) : Option Text :=
  match layer.kind with
  | .mount head => some head
  | _ => none

/-- Build a node by how what it encloses is built: its children, then its corridors. -/
def visit (registry : Registry ε) (layer : DeclaredLayer DeclaredSpace) (below : List (Builds ε)) :
    Builds ε := fun mountedAt builder => do
  let (me, builder) := builder.iri layer.id
  match ← builder.metAgain (.node layer) with
  | some shared => return (shared, builder)
  | none =>
    Declared.check registry layer me mountedAt
    let children := below.take layer.children.length
    let corridors := below.drop layer.children.length
    let (inner, builder) ← inOrder
      ((children.map fun build => build (mountOf layer)) ++
        corridors.map fun build => build none) builder
    let space ← Declared.assemble registry me (layer.fill (layer.enclosed.zip inner))
      builder.serial
    return (space, builder.enter (.node layer) space)

/-- Build a tree. -/
def space (registry : Registry ε) : DeclaredSpace → Builds ε := DeclaredSpace.fold (visit registry)

end Builder

namespace DeclaredKind

/-- A kind, as far as a walk over the seals looks at it. -/
def reduced {τ : Type} : DeclaredKind τ → SpaceKind
  | .endpointSpace doors => .endpointSpace (doors.map DeclaredDoor.toDoor)
  | .mount head => .mount head
  | .«alias» rules _ => .«alias» (rules.map DeclaredRule.toTopologyRule)
  | .limit _ _ => .limit
  | .level seals home => .level seals home
  | .hidden | .fallback | .rewrite | .confine | .dynamic _ | .chain _ => .other

end DeclaredKind

namespace DeclaredSpace

/-- An arrangement, as far as a walk over the seals looks at it: no door's corridor. -/
def reduced : DeclaredSpace → Topology :=
  fold fun layer below =>
    .node layer.id layer.kind.reduced (below.take layer.children.length) none

end DeclaredSpace

variable {ε : Type} [Registrable ε] [IriSyntax]

/-- Build a declaration over registered endpoints, the next level numbered from a serial. -/
def build (registry : Registry ε) (serial : Nat) (declaration : DeclaredSpace) :
    Except DeclarationError (CodedSpace ε) := do
  measure declaration
  claims declaration
  let (space, _) ← Builder.space registry declaration none { serial := serial }
  match Seals.fromTopology space.topology.reduced registry.sealed with
  | .error error => throw (.sealing error)
  | .ok _ => return space

end Ikigai
