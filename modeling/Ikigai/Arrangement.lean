import Ikigai.AliasTable
import Ikigai.Resolution
import Ikigai.UriTemplate

/-!
# Arrangements

The spaces this crate composes a root from: leaf spaces of bound endpoints, mounts,
fallbacks, limiters, levels and alias overlays. Any other space is `foreign`, an
object that answers as it likes. Resolution, identity and topology are read off the
constructors, and none of them looks at the chain a request is resolved in.
-/

namespace Ikigai

/-- What a binding matches: one name, or a template's names. -/
inductive Grammar where
  | exact (name : Text)
  | template (pattern : UriTemplate)

namespace Grammar

def matchIri : Grammar → Iri → Option (List (Text × Text))
  | .exact bound, name => if name = bound then some [] else none
  | .template pattern, name => pattern.matchIri name

def pattern : Grammar → Text
  | .exact name => name
  | .template pattern => pattern.source

def matchKind : Grammar → MatchKind
  | .exact _ => .exact
  | .template _ => .template

end Grammar

/-- The family a limiter carves out. -/
inductive Family where
  | headed (head : Text)
  | grammar (grammar : Grammar)

def Family.admits : Family → Iri → Bool
  | .headed head, name => name.startsWith head
  | .grammar matched, name => (matched.matchIri name).isSome

/-- The spaces of this crate over foreign space objects `κ`. -/
inductive Arrangement (κ : Type) where
  | endpointSpace (bindings : List (Grammar × Endpoint)) (id : Option Iri)
  | mount (head : Text) (inner : Arrangement κ) (id : Option Iri)
  | fallback (spaces : List (Arrangement κ)) (id : Option Iri)
  | limit (family : Family) (id : Option Iri)
  | level (name : Iri) (serial : Nat) (inner : Arrangement κ) (seals : List Text)
      (home : Option Text)
  | «alias» (table : AliasTable) (inner : Arrangement κ) (id : Option Iri)
  | foreign (object : κ)

/-- What a foreign space answers, claims and shows. -/
class Foreign (κ : Type) [Blake3] where
  resolve : κ → Request → Scope (Arrangement κ) → Resolution (Arrangement κ)
  id : κ → Option Iri
  topology : κ → Topology

/-- Fill a hit's answerer with a combinator's own identity. -/
def answered {σ : Type} (resolution : Resolution σ) (id : Option Iri) : Resolution σ :=
  match resolution, id with
  | .hit hit, some id => .hit (hit.withAnsweredBy id)
  | other, _ => other

/-- A resolution that rewrote nothing and was found in no level. -/
def Resolved.new {σ : Type} (endpoint : Endpoint) (bindings : List (Text × Text)) :
    Resolved σ :=
  ⟨endpoint, bindings, none, none, []⟩

/-- A hit found inside one more level, whose name answers if no other did. -/
def Resolved.within {σ : Type} (hit : Resolved σ) (level : LevelCore σ) : Resolved σ :=
  { hit with
    answeredBy := some (hit.answeredBy.getD level.name)
    levels := hit.levels ++ [level] }

/-- The first binding of a leaf space that matches. -/
def firstBinding {σ : Type} (target : Iri) : List (Grammar × Endpoint) → Resolution σ
  | [] => .miss
  | (grammar, endpoint) :: rest =>
    match grammar.matchIri target with
    | some bindings => .hit (Resolved.new endpoint bindings)
    | none => firstBinding target rest

/-- An alias overlay's rewrite, reported on a hit unless one was reported deeper. -/
def rewritten {σ : Type} (resolution : Resolution σ) (canonical : Iri) : Resolution σ :=
  match resolution with
  | .hit hit => .hit (hit.withCanonical canonical)
  | .miss => .miss

namespace Arrangement

variable {κ : Type} [Blake3] [IriSyntax] [Foreign κ]

mutual

/-- Resolve a request in an arrangement. -/
def resolve (scope : Scope (Arrangement κ)) :
    Arrangement κ → Request → Resolution (Arrangement κ)
  | .endpointSpace bindings id, request => answered (firstBinding request.target bindings) id
  | .mount head inner id, request =>
    if request.target.startsWith head then answered (resolve scope inner request) id else .miss
  | .fallback spaces id, request => answered (resolveFirst scope spaces request) id
  | .limit family id, request =>
    if family.admits request.target then answered (.hit (Resolved.new .bottom [])) id else .miss
  | .level name serial inner seals home, request =>
    match resolve scope inner request with
    | .hit hit => .hit (hit.within ⟨name, serial, inner, seals, home⟩)
    | .miss => .miss
  | .«alias» table inner id, request =>
    answered
      (match table.canonicalize request.target with
        | .direct => resolve scope inner request
        | .aliased hop =>
          if hop.rules.any fun index => (table.rules[index]?.map AliasRule.resolveAt) == some .root then
            .hit (Resolved.new (.view hop.logical hop.canonical) [])
          else rewritten (resolve scope inner { request with target := hop.canonical }) hop.canonical
        | .refused refusal => .hit (Resolved.new (.refusal refusal.logical) []))
      id
  | .foreign object, request => Foreign.resolve object request scope

/-- The first hit among spaces tried in order. -/
def resolveFirst (scope : Scope (Arrangement κ)) :
    List (Arrangement κ) → Request → Resolution (Arrangement κ)
  | [], _ => .miss
  | space :: rest, request =>
    match resolve scope space request with
    | .hit hit => .hit hit
    | .miss => resolveFirst scope rest request

end

/-- The identity an arrangement claims. -/
def id : Arrangement κ → Option Iri
  | .endpointSpace _ id | .mount _ _ id | .fallback _ id | .limit _ id | .«alias» _ _ id => id
  | .level name _ _ _ _ => some name
  | .foreign object => Foreign.id object

/-- An alias rule as the topology states it. -/
def summary (rule : AliasRule) : TopologyRule :=
  match rule.kind with
  | .exact => ⟨.exact, rule.source⟩
  | .headed => ⟨.headed, rule.source⟩

/-- A binding as the topology states it. -/
def shownDoor (binding : Grammar × Endpoint) : Door :=
  ⟨binding.1.pattern, binding.1.matchKind⟩

mutual

/-- What an arrangement shows of itself. -/
def topology : Arrangement κ → Topology
  | .endpointSpace bindings id => .node id (.endpointSpace (bindings.map shownDoor)) [] none
  | .mount head inner id => .node id (.mount head) [topology inner] none
  | .fallback spaces id => .node id .other (topologies spaces) none
  | .limit _ id => .node id .limit [] none
  | .level name serial inner seals home =>
    .node (some name) (.level seals home) [topology inner] (some serial)
  | .«alias» table inner id => .node id (.«alias» (table.rules.map summary)) [topology inner] none
  | .foreign object => Foreign.topology object

def topologies : List (Arrangement κ) → List Topology
  | [] => []
  | space :: rest => topology space :: topologies rest

end

instance : Space (Arrangement κ) where
  resolve space request scope := resolve scope space request
  id := id
  topology := topology

/-- Foreign spaces that read nothing of the chain they are resolved in. -/
def ForeignBlind (κ : Type) [Foreign κ] : Prop :=
  ∀ (object : κ) (request : Request) (asked asked' : Scope (Arrangement κ)),
    Foreign.resolve object request asked = Foreign.resolve object request asked'

mutual

/-- No space of this crate reads the chain it is resolved in: each passes it on, and
over foreign spaces that do not read it either, answers do not depend on it. -/
theorem resolve_blind (blind : ForeignBlind κ) (asked asked' : Scope (Arrangement κ))
    (space : Arrangement κ) (request : Request) :
    resolve asked space request = resolve asked' space request := by
  cases space with
  | endpointSpace bindings id => simp only [resolve]
  | mount head inner id => simp only [resolve, resolve_blind blind asked asked' inner]
  | fallback spaces id => simp only [resolve, resolve_first_blind blind asked asked' spaces]
  | limit family id => simp only [resolve]
  | level name serial inner seals home =>
    simp only [resolve, resolve_blind blind asked asked' inner]
  | «alias» table inner id => simp only [resolve, resolve_blind blind asked asked' inner]
  | foreign object => simp only [resolve, blind object request asked asked']

theorem resolve_first_blind (blind : ForeignBlind κ) (asked asked' : Scope (Arrangement κ))
    (spaces : List (Arrangement κ)) (request : Request) :
    resolveFirst asked spaces request = resolveFirst asked' spaces request := by
  cases spaces with
  | nil => simp only [resolveFirst]
  | cons space rest =>
    simp only [resolveFirst, resolve_blind blind asked asked' space,
      resolve_first_blind blind asked asked' rest]

end

/-- An arrangement with no foreign space in it. -/
instance : Foreign Empty where
  resolve := nofun
  id := nofun
  topology := nofun

end Arrangement

end Ikigai
