import Ikigai.AliasViews
import Ikigai.Arrangement
import Ikigai.DeclaredSpaces

/-!
# Spaces written in code

The spaces a host composes: leaves whose doors bind endpoints, possibly confined to a
corridor, under mounts, fallbacks, overlays, limiters and levels. An endpoint is known by its
name and its description. What a space answers, and what it shows of itself, are read off the
constructors as the crate's own methods read them.
-/

namespace Ikigai

/-- What a door and a registry read of an endpoint. -/
class Registrable (ε : Type) where
  name : ε → Text
  describe : ε → Description

/-- Who a request is handed to: what a door binds, ⊥, the endpoint that fails with a refusal,
a view, or the endpoint that fails where a chain did not replay. -/
inductive Handed (δ : Type) where
  | door (bound : δ)
  | bottom
  | refusal (refusal : AliasRefusal)
  | view (view : ViewEndpoint)
  | notReplayed (logical : Iri)

/-- A hit, over what stands for a door's endpoint and for a level. -/
structure Reached (δ ν : Type) where
  endpoint : Handed δ
  bindings : List (Text × Text) := []
  canonical : Option Iri := none
  answeredBy : Option Iri := none
  levels : List ν := []

def Handed.map {δ δ' : Type} (read : δ → δ') : Handed δ → Handed δ'
  | .door bound => .door (read bound)
  | .bottom => .bottom
  | .refusal reason => .refusal reason
  | .view through => .view through
  | .notReplayed logical => .notReplayed logical

namespace Reached

variable {δ ν δ' ν' : Type}

/-- Fill an absent answerer with an identity, if there is one. -/
def answeredAs (id : Option Iri) (hit : Reached δ ν) : Reached δ ν :=
  { hit with answeredBy := hit.answeredBy <|> id }

/-- Report a rewrite, unless one was reported deeper. -/
def withCanonical (canonical : Iri) (hit : Reached δ ν) : Reached δ ν :=
  { hit with canonical := hit.canonical <|> some canonical }

/-- Found inside one more level. -/
def within (level : ν) (hit : Reached δ ν) : Reached δ ν :=
  { hit with levels := hit.levels ++ [level] }

def map (read : δ → δ') (shown : ν → ν') (hit : Reached δ ν) : Reached δ' ν' :=
  ⟨hit.endpoint.map read, hit.bindings, hit.canonical, hit.answeredBy, hit.levels.map shown⟩

@[simp] theorem map_answered_as (read : δ → δ') (shown : ν → ν') (id : Option Iri)
    (hit : Reached δ ν) : (hit.answeredAs id).map read shown = (hit.map read shown).answeredAs id :=
  rfl

@[simp] theorem map_with_canonical (read : δ → δ') (shown : ν → ν') (canonical : Iri)
    (hit : Reached δ ν) :
    (hit.withCanonical canonical).map read shown = (hit.map read shown).withCanonical canonical :=
  rfl

@[simp] theorem map_within (read : δ → δ') (shown : ν → ν') (level : ν) (hit : Reached δ ν) :
    (hit.within level).map read shown = (hit.map read shown).within (shown level) := by
  simp [map, within]

/-- An answerer that is filled stays. -/
theorem answered_as_twice (first second : Option Iri) (hit : Reached δ ν) :
    (hit.answeredAs first).answeredAs second = hit.answeredAs (first <|> second) := by
  obtain ⟨endpoint, bindings, canonical, answeredBy, levels⟩ := hit
  cases answeredBy <;> cases first <;> rfl

end Reached

section Overlays

variable [IriSyntax] [IriPath] {δ ν δ' ν' : Type}

/-- Whether a chain passes a rule that resolves at the root. -/
def AliasTable.isRooted (table : AliasTable) (hop : AliasHop) : Bool :=
  hop.rules.any fun index => (table.rules[index]?.map AliasRule.resolveAt) == some .root

/-- What an overlay answers, over what the space behind it answers. -/
def AliasTable.through (table : AliasTable) (behind : Request → Option (Reached δ ν))
    (request : Request) : Option (Reached δ ν) :=
  match table.canonicalize request.target with
  | .direct => behind request
  | .aliased hop =>
    if table.isRooted hop then
      match table.view request.target hop with
      | some view => some { endpoint := .view view }
      | none => some { endpoint := .notReplayed request.target }
    else
      (behind { request with target := hop.canonical }).map (Reached.withCanonical hop.canonical)
  | .refused refusal => some { endpoint := .refusal refusal }

/-- An overlay answers alike over spaces that answer alike. -/
theorem AliasTable.map_through (table : AliasTable) (behind : Request → Option (Reached δ ν))
    (other : Request → Option (Reached δ' ν')) (read : δ → δ') (shown : ν → ν')
    (alike : ∀ request, (behind request).map (Reached.map read shown) = other request)
    (request : Request) :
    (table.through behind request).map (Reached.map read shown) = table.through other request := by
  unfold through
  cases table.canonicalize request.target with
  | direct => exact alike request
  | aliased hop =>
    cases rooted : table.isRooted hop with
    | true =>
      simp only [rooted, if_true]
      cases table.view request.target hop <;> rfl
    | false =>
      simp only [rooted, Bool.false_eq_true, if_false, ← alike, Option.map_map]
      rfl
  | refused refusal => rfl

end Overlays

namespace Family

/-- The text a family is stated as. -/
def pattern : Family → Text
  | .headed head => head
  | .grammar matched => matched.pattern

def matchKind : Family → MatchKind
  | .headed _ => .headed
  | .grammar matched => matched.matchKind

end Family

mutual

/-- The spaces of this crate that a declaration can state. -/
inductive CodedSpace (ε : Type) where
  | endpointSpace (bindings : List (Grammar × CodedEndpoint ε)) (id : Option Iri)
  | mount (head : Text) (inner : CodedSpace ε) (id : Option Iri)
  | fallback (spaces : List (CodedSpace ε)) (id : Option Iri)
  | limit (family : Family) (id : Option Iri)
  | level (name : Iri) (serial : Nat) (inner : CodedSpace ε) (seals : List Text)
      (home : Option Text)
  | «alias» (table : AliasTable) (inner : CodedSpace ε) (id : Option Iri)

/-- An endpoint as a door binds it: by itself, or confined to a corridor. -/
inductive CodedEndpoint (ε : Type) where
  | endpoint (object : ε)
  | confine (name : Iri) (corridor : CodedSpace ε) (inner : CodedEndpoint ε)

end

namespace DeclaredSpace

/-- The same arrangement under an identity. -/
def withId (space : DeclaredSpace) (id : Option Iri) : DeclaredSpace :=
  .node { space.layer with id := id }

end DeclaredSpace

namespace CodedEndpoint

variable {ε : Type} [Registrable ε]

/-- A confined endpoint has its inner endpoint's name. -/
def name : CodedEndpoint ε → Text
  | .endpoint object => Registrable.name object
  | .confine _ _ inner => inner.name

/-- A confined endpoint has its inner endpoint's description. -/
def describe : CodedEndpoint ε → Description
  | .endpoint object => Registrable.describe object
  | .confine _ _ inner => inner.describe

end CodedEndpoint

namespace CodedSpace

variable {ε : Type}

/-- The identity a space claims. -/
def id : CodedSpace ε → Option Iri
  | .endpointSpace _ id | .mount _ _ id | .fallback _ id | .limit _ id | .«alias» _ _ id => id
  | .level name _ _ _ _ => some name

section Topology

variable [Registrable ε]

mutual

/-- What a space shows of itself. -/
def topology : CodedSpace ε → DeclaredSpace
  | .endpointSpace bindings id => .node ⟨id, .endpointSpace (shownDoors bindings), []⟩
  | .mount head inner id => .node ⟨id, .mount head, [topology inner]⟩
  | .fallback spaces id => .node ⟨id, .fallback, topologies spaces⟩
  | .limit family id => .node ⟨id, .limit family.pattern family.matchKind, []⟩
  | .level name _ inner seals home => .node ⟨some name, .level seals home, [topology inner]⟩
  | .«alias» table inner id =>
    .node ⟨id, .«alias» (table.rules.map AliasRule.summary) table.maxHops, [topology inner]⟩

def topologies : List (CodedSpace ε) → List DeclaredSpace
  | [] => []
  | space :: rest => topology space :: topologies rest

/-- The corridor an endpoint runs in, named by its confinement. -/
def confinement : CodedEndpoint ε → Option DeclaredSpace
  | .endpoint _ => none
  | .confine name corridor _ => some ((topology corridor).withId (some name))

/-- A binding as a door: its pattern, how it matches, the endpoint's name, the corridor it is
confined to, and whether the endpoint hides its existence. -/
def shownDoors : List (Grammar × CodedEndpoint ε) → List (DeclaredDoor DeclaredSpace)
  | [] => []
  | (grammar, endpoint) :: rest =>
    ⟨⟨grammar.pattern, grammar.matchKind⟩, endpoint.name, confinement endpoint,
      endpoint.describe.hidesExistence⟩ :: shownDoors rest

end

end Topology

/-- The first binding of a leaf that matches. -/
def firstBound {ν : Type} (target : Iri) :
    List (Grammar × CodedEndpoint ε) → Option (Reached (CodedEndpoint ε) ν)
  | [] => none
  | (grammar, endpoint) :: rest =>
    match grammar.matchIri target with
    | some bindings => some { endpoint := .door endpoint, bindings := bindings }
    | none => firstBound target rest

variable [Blake3] [IriSyntax] [IriPath]

mutual

/-- Resolve a request in a space, which no space of this crate asks its chain for. -/
def resolve (chain : Scope (CodedSpace ε)) :
    CodedSpace ε → Request → Option (Reached (CodedEndpoint ε) (LevelCore (CodedSpace ε)))
  | .endpointSpace bindings id, request =>
    (firstBound request.target bindings).map (Reached.answeredAs id)
  | .mount head inner id, request =>
    if request.target.startsWith head then
      (resolve chain inner request).map (Reached.answeredAs id)
    else none
  | .fallback spaces id, request =>
    (resolveFirst chain spaces request).map (Reached.answeredAs id)
  | .limit family id, request =>
    if family.admits request.target then
      some (Reached.answeredAs id { endpoint := .bottom })
    else none
  | .level name serial inner seals home, request =>
    (resolve chain inner request).map fun hit =>
      (hit.answeredAs (some name)).within ⟨name, serial, inner, seals, home⟩
  | .«alias» table inner id, request =>
    (table.through (resolve chain inner) request).map (Reached.answeredAs id)

/-- The first hit among spaces tried in order. -/
def resolveFirst (chain : Scope (CodedSpace ε)) :
    List (CodedSpace ε) → Request →
      Option (Reached (CodedEndpoint ε) (LevelCore (CodedSpace ε)))
  | [], _ => none
  | space :: rest, request => (resolve chain space request).or (resolveFirst chain rest request)

end

end CodedSpace

end Ikigai
