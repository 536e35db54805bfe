import Ikigai.CodedSpaces
import Ikigai.RuleSummaries
import Ikigai.TemplatePieces

/-!
# What a declaration means

A declaration answers requests by itself: each kind of node by its own rule, over what the nodes
it encloses answer. A door answers with the name of an endpoint and with the corridor it is
confined to. The spaces of the crate are a refinement of it: each answers what its own topology
does, so whatever two spaces that show one topology are built of, they answer alike.
-/

namespace Ikigai

namespace Grammar

/-- The grammar a pattern is, by how it matches. -/
def ofPattern (kind : MatchKind) (pattern : Text) : Option Grammar :=
  match kind with
  | .exact => some (.exact pattern)
  | .template => (UriTemplate.parse pattern).toOption.map .template
  | .headed | .custom => none

/-- A grammar that this crate makes. -/
inductive Made : Grammar → Prop where
  | exact (name : Text) : Made (.exact name)
  | template (source : Text) (parsed : UriTemplate)
      (read : UriTemplate.parse source = .ok parsed) : Made (.template parsed)

/-- A grammar that was made is made again of its pattern and its kind. -/
theorem Made.of_pattern {grammar : Grammar} (made : grammar.Made) :
    ofPattern grammar.matchKind grammar.pattern = some grammar := by
  cases made with
  | exact name => rfl
  | template source parsed read =>
    have written : parsed.source = source := ((UriTemplate.parse_eq_ok_iff _ _).mp read).2.2
    simp only [ofPattern, matchKind, pattern, written, read, Except.toOption, Option.map_some]

/-- A grammar found for a pattern is one that was made of it. -/
theorem made_of_pattern {kind : MatchKind} {text : Text} {grammar : Grammar}
    (found : ofPattern kind text = some grammar) :
    grammar.Made ∧ grammar.matchKind = kind ∧ grammar.pattern = text := by
  cases kind with
  | exact =>
    cases found
    exact ⟨.exact text, rfl, rfl⟩
  | template =>
    obtain ⟨parsed, read, rfl⟩ := Option.map_eq_some_iff.mp found
    cases outcome : UriTemplate.parse text with
    | error refusal =>
      rw [outcome] at read
      cases read
    | ok template =>
      rw [outcome] at read
      obtain rfl := Option.some.inj read
      exact ⟨.template text template outcome, rfl,
        ((UriTemplate.parse_eq_ok_iff _ _).mp outcome).2.2⟩
  | headed => cases found
  | custom => cases found

end Grammar

namespace Family

/-- The family a limiter's node states. -/
def ofDeclared (family : Text) (kind : MatchKind) : Option Family :=
  match kind with
  | .headed => some (.headed family)
  | .exact | .template | .custom => (Grammar.ofPattern kind family).map .grammar

/-- A family that this crate makes. -/
inductive Made : Family → Prop where
  | headed (head : Text) : Made (.headed head)
  | grammar (grammar : Grammar) (made : grammar.Made) : Made (.grammar grammar)

/-- A family that was made is declared by its pattern and its kind. -/
theorem Made.of_declared {family : Family} (made : family.Made) :
    ofDeclared family.pattern family.matchKind = some family := by
  cases made with
  | headed head => rfl
  | grammar grammar made =>
    have found := made.of_pattern
    cases made with
    | exact name => rfl
    | template source parsed read =>
      exact congrArg (Option.map Family.grammar) found

/-- A family found for a declared pattern is one that was made of it. -/
theorem made_of_declared {kind : MatchKind} {text : Text} {family : Family}
    (found : ofDeclared text kind = some family) :
    family.Made ∧ family.matchKind = kind ∧ family.pattern = text := by
  have carved : ∀ kind, (Grammar.ofPattern kind text).map Family.grammar = some family →
      family.Made ∧ family.matchKind = kind ∧ family.pattern = text := by
    intro kind found
    obtain ⟨grammar, read, rfl⟩ := Option.map_eq_some_iff.mp found
    obtain ⟨made, shown⟩ := Grammar.made_of_pattern read
    exact ⟨.grammar grammar made, shown⟩
  cases kind with
  | headed =>
    cases found
    exact ⟨.headed text, rfl, rfl⟩
  | exact => exact carved .exact found
  | template => exact carved .template found
  | custom => exact carved .custom found

end Family

/-- A hit of a declaration: an endpoint's name with its corridor, and the levels as nodes. -/
abbrev DeclaredReached := Reached (Text × Option DeclaredSpace) DeclaredSpace

/-- The first door that matches. -/
def firstDoor (target : Iri) : List (DeclaredDoor DeclaredSpace) → Option DeclaredReached
  | [] => none
  | door :: rest =>
    match (Grammar.ofPattern door.kind door.pattern).bind (Grammar.matchIri · target) with
    | some bindings => some { endpoint := .door (door.endpoint, door.confined), bindings := bindings }
    | none => firstDoor target rest

/-- What the only enclosed node answers. -/
def onlyAnswer (below : List (Request → Option DeclaredReached)) (request : Request) :
    Option DeclaredReached :=
  below.head?.bind fun answer => answer request

section Meaning

variable [IriSyntax] [IriPath]

/-- What a node answers, over what the nodes it encloses answer. -/
def DeclaredLayer.answer (layer : DeclaredLayer DeclaredSpace)
    (below : List (Request → Option DeclaredReached)) (request : Request) :
    Option DeclaredReached :=
  match layer.kind with
  | .endpointSpace doors => (firstDoor request.target doors).map (Reached.answeredAs layer.id)
  | .mount head =>
    if request.target.startsWith head then
      (onlyAnswer below request).map (Reached.answeredAs layer.id)
    else none
  | .fallback =>
    (below.findSome? fun answer => answer request).map (Reached.answeredAs layer.id)
  | .limit family kind =>
    if (Family.ofDeclared family kind).any fun carved => carved.admits request.target then
      some (Reached.answeredAs layer.id { endpoint := .bottom })
    else none
  | .level _ _ =>
    (onlyAnswer below request).map fun hit => (hit.answeredAs layer.id).within (.node layer)
  | .«alias» rules maxHops =>
    match AliasTable.ofDeclared rules maxHops with
    | .ok table => (table.through (onlyAnswer below) request).map (Reached.answeredAs layer.id)
    | .error _ => none
  | .hidden | .rewrite | .confine | .dynamic _ | .chain _ => none

/-- What a declaration answers. -/
def DeclaredSpace.answer : DeclaredSpace → Request → Option DeclaredReached :=
  fold DeclaredLayer.answer

/-- A declared space answers as its layer does over what is inside it. -/
theorem DeclaredSpace.answer_node (space : DeclaredSpace) :
    space.answer = space.layer.answer (space.enclosed.map answer) :=
  fold_node _ space

/-- A space with a single one inside is answered by that one alone. -/
theorem DeclaredSpace.only_answer (id : Option Iri) (kind : DeclaredKind DeclaredSpace)
    (inner : DeclaredSpace) :
    onlyAnswer ((node ⟨id, kind, [inner]⟩).enclosed.map answer) = inner.answer := rfl

end Meaning

namespace CodedEndpoint

variable {ε : Type} [Registrable ε]

/-- An endpoint as a door states it: its name, with the corridor it is confined to. -/
def shown (endpoint : CodedEndpoint ε) : Text × Option DeclaredSpace :=
  (endpoint.name, CodedSpace.confinement endpoint)

/-- An endpoint that is registered under its name, or is one confined to a corridor. -/
inductive Bound (registered : Text → Option (CodedEndpoint ε)) : CodedEndpoint ε → Prop where
  | itself (endpoint : CodedEndpoint ε) (held : registered endpoint.name = some endpoint) :
      Bound registered endpoint
  | confined (name : Iri) (corridor : CodedSpace ε) (inner : CodedEndpoint ε)
      (held : registered inner.name = some inner) : Bound registered (.confine name corridor inner)

end CodedEndpoint

namespace CodedSpace

variable {ε : Type} [Registrable ε]

/-- A space composed of what the crate makes, over registered endpoints: its patterns and its
tables are read, its corridors are composed as well and bear the confinement's name or none. -/
inductive Composed [IriSyntax] (registered : Text → Option (CodedEndpoint ε)) :
    CodedSpace ε → Prop where
  | endpointSpace (bindings : List (Grammar × CodedEndpoint ε)) (id : Option Iri)
      (grammars : ∀ binding ∈ bindings, binding.1.Made)
      (bound : ∀ binding ∈ bindings, binding.2.Bound registered)
      (corridors : ∀ binding ∈ bindings, ∀ name corridor inner,
        binding.2 = .confine name corridor inner → Composed registered corridor)
      (claims : ∀ binding ∈ bindings, ∀ name corridor inner,
        binding.2 = .confine name corridor inner → corridor.id = none ∨ corridor.id = some name) :
      Composed registered (.endpointSpace bindings id)
  | mount (head : Text) (inner : CodedSpace ε) (id : Option Iri)
      (composed : Composed registered inner) : Composed registered (.mount head inner id)
  | fallback (spaces : List (CodedSpace ε)) (id : Option Iri)
      (composed : ∀ space ∈ spaces, Composed registered space) :
      Composed registered (.fallback spaces id)
  | limit (family : Family) (id : Option Iri) (made : family.Made) :
      Composed registered (.limit family id)
  | level (name : Iri) (serial : Nat) (inner : CodedSpace ε) (seals : List Text)
      (home : Option Text) (composed : Composed registered inner) :
      Composed registered (.level name serial inner seals home)
  | «alias» (table : AliasTable) (inner : CodedSpace ε) (id : Option Iri) (made : table.Made)
      (composed : Composed registered inner) : Composed registered (.«alias» table inner id)

/-- The topologies of some spaces are each one's. -/
theorem topologies_eq (spaces : List (CodedSpace ε)) : topologies spaces = spaces.map topology := by
  induction spaces with
  | nil => rw [topologies, List.map_nil]
  | cons space rest ih => rw [topologies, ih, List.map_cons]

/-- A binding as a door. -/
def shownDoor (binding : Grammar × CodedEndpoint ε) : DeclaredDoor DeclaredSpace :=
  ⟨⟨binding.1.pattern, binding.1.matchKind⟩, binding.2.name, confinement binding.2,
    binding.2.describe.hidesExistence⟩

/-- The doors shown of some bindings are each one's. -/
theorem shown_doors_eq (bindings : List (Grammar × CodedEndpoint ε)) :
    shownDoors bindings = bindings.map shownDoor := by
  induction bindings with
  | nil => rw [shownDoors, List.map_nil]
  | cons binding rest ih => rw [shownDoors, ih, List.map_cons]; rfl

/-- A space's topology has the space's id. -/
theorem topology_id (space : CodedSpace ε) : space.topology.layer.id = space.id := by
  cases space <;> rw [topology] <;> rfl

/-- A level as its node. -/
def shownLevel (level : LevelCore (CodedSpace ε)) : DeclaredSpace :=
  .node ⟨some level.name, .level level.seals level.home, [level.inner.topology]⟩

/-- A hit as a declaration's. -/
def shown (hit : Reached (CodedEndpoint ε) (LevelCore (CodedSpace ε))) : DeclaredReached :=
  hit.map CodedEndpoint.shown shownLevel

/-- The first binding that matches a name is shown as the first door that does. -/
theorem first_bound_shown (target : Iri) (bindings : List (Grammar × CodedEndpoint ε))
    (grammars : ∀ binding ∈ bindings, binding.1.Made) :
    (firstBound target bindings).map shown = firstDoor target (bindings.map shownDoor) := by
  induction bindings with
  | nil => rfl
  | cons binding rest ih =>
    obtain ⟨grammar, endpoint⟩ := binding
    have own := (grammars _ List.mem_cons_self).of_pattern
    have later := ih fun other inside => grammars other (List.mem_cons_of_mem _ inside)
    simp only [firstBound, List.map_cons, firstDoor, shownDoor, own, Option.bind_some]
    cases grammar.matchIri target with
    | some bindings => rfl
    | none => exact later

section Resolution

variable [Blake3] [IriSyntax] [IriPath]

/-- The first space that answers is shown as the first topology that does. -/
theorem resolve_first_shown (chain : Scope (CodedSpace ε)) (spaces : List (CodedSpace ε))
    (request : Request)
    (each : ∀ space ∈ spaces,
      (space.resolve chain request).map shown = space.topology.answer request) :
    (resolveFirst chain spaces request).map shown =
      ((spaces.map topology).map DeclaredSpace.answer).findSome? fun answer => answer request := by
  induction spaces with
  | nil => rfl
  | cons space rest ih =>
    have here := each space List.mem_cons_self
    have later := ih fun other inside => each other (List.mem_cons_of_mem _ inside)
    rw [resolveFirst, List.map_cons, List.map_cons, List.findSome?_cons, ← here, ← later]
    cases space.resolve chain request <;> rfl

/-- A composed space answers what its topology does, in whatever chain it is asked. -/
theorem resolve_shown {registered : Text → Option (CodedEndpoint ε)} {space : CodedSpace ε}
    (composed : space.Composed registered) (chain : Scope (CodedSpace ε)) (request : Request) :
    (space.resolve chain request).map shown = space.topology.answer request := by
  induction composed generalizing request with
  | endpointSpace bindings id grammars bound corridors claims _ =>
    rw [resolve, topology, DeclaredSpace.answer_node, shown_doors_eq]
    simp only [DeclaredSpace.layer_node, DeclaredLayer.answer]
    rw [← first_bound_shown request.target bindings grammars, Option.map_map, Option.map_map]
    rfl
  | mount head inner id composed ih =>
    rw [resolve, topology, DeclaredSpace.answer_node]
    simp only [DeclaredSpace.layer_node, DeclaredLayer.answer, DeclaredSpace.only_answer, ← ih]
    split
    · rw [Option.map_map, Option.map_map]
      rfl
    · rfl
  | fallback spaces id composed ih =>
    rw [resolve, topology, DeclaredSpace.answer_node, topologies_eq]
    have corridors : (DeclaredKind.fallback : DeclaredKind DeclaredSpace).corridors = [] := rfl
    simp only [DeclaredSpace.layer_node, DeclaredLayer.answer, DeclaredSpace.enclosed_node,
      DeclaredLayer.enclosed, corridors, List.append_nil]
    rw [← resolve_first_shown chain spaces request fun space inside => ih space inside request,
      Option.map_map, Option.map_map]
    rfl
  | limit family id made =>
    rw [resolve, topology, DeclaredSpace.answer_node]
    simp only [DeclaredSpace.layer_node, DeclaredLayer.answer, made.of_declared, Option.any_some]
    cases family.admits request.target <;> rfl
  | level name serial inner seals home composed ih =>
    rw [resolve, topology, DeclaredSpace.answer_node]
    simp only [DeclaredSpace.layer_node, DeclaredLayer.answer, DeclaredSpace.only_answer, ← ih,
      Option.map_map]
    congr 1
    funext hit
    simp [shown, shownLevel]
  | «alias» table inner id made composed ih =>
    rw [resolve, topology, DeclaredSpace.answer_node]
    simp only [DeclaredSpace.layer_node, DeclaredLayer.answer, DeclaredSpace.only_answer,
      AliasTable.of_declared_summaries table made]
    rw [← table.map_through (resolve chain inner) _ CodedEndpoint.shown shownLevel ih,
      Option.map_map, Option.map_map]
    rfl

end Resolution

end CodedSpace

end Ikigai
