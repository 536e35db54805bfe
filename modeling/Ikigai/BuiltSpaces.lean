import Ikigai.DeclarationBuild
import Ikigai.DeclarationSizes
import Ikigai.DeclaredMeaning
import Ikigai.NamedRequests

/-!
# What is built

A space that is built shows the declaration it was built from, settled: a door says of its
endpoint's existence what the registered endpoint does, and an overlay's rules stand in the order
of its table. It is composed of registered endpoints, so it answers what the declaration does.
What a composed space shows is settled already. A space and what is built from its topology show
one topology and answer alike.
-/

namespace Ikigai

section Settled

variable {ε : Type} [Registrable ε] {τ υ : Type}

/-- A door that hides its existence exactly when the registered endpoint does. -/
def DeclaredDoor.settled (registry : Registry ε) (door : DeclaredDoor τ) : DeclaredDoor τ :=
  { door with
    existenceSensitive :=
      (registry.get door.endpoint).any fun endpoint => endpoint.describe.hidesExistence }

variable [IriSyntax]

/-- An overlay's rules in the order of their table. -/
def DeclaredKind.settled (registry : Registry ε) (kind : DeclaredKind τ) : DeclaredKind τ :=
  match kind with
  | .endpointSpace doors => .endpointSpace (doors.map (DeclaredDoor.settled registry))
  | .«alias» rules maxHops =>
    match AliasTable.ofDeclared rules maxHops with
    | .ok table => .«alias» (table.rules.map AliasRule.summary) table.maxHops
    | .error _ => .«alias» rules maxHops
  | other => other

def DeclaredLayer.settled (registry : Registry ε) (layer : DeclaredLayer τ) : DeclaredLayer τ :=
  { layer with kind := layer.kind.settled registry }

/-- A declaration as what is built from it shows it. -/
def DeclaredSpace.settled (registry : Registry ε) : DeclaredSpace → DeclaredSpace :=
  fold fun layer below => .node ((layer.fill below).settled registry)

omit [IriSyntax] in
/-- A layer filled with what it encloses, changed, is the layer changed. -/
theorem DeclaredLayer.fill_map (change : τ → υ) (layer : DeclaredLayer τ) :
    layer.fill (layer.enclosed.map change) = layer.map change := by
  have enough : (layer.enclosed.map change).length = layer.enclosed.length := List.length_map ..
  refine eq_of_shape _ _ ?_ ?_
  · rw [layer.fill_shape _ enough, shape_map]
  · rw [layer.fill_enclosed _ enough, enclosed_map]

/-- A space settles to the layer settled, over the spaces inside it settled. -/
theorem DeclaredSpace.settled_node (registry : Registry ε) (space : DeclaredSpace) :
    space.settled registry = .node ((space.layer.map (settled registry)).settled registry) := by
  rw [settled, fold_node, ← space.layer.fill_map]
  rfl

/-- An identity is nothing to what settles. -/
theorem DeclaredSpace.settled_with_id (registry : Registry ε) (space : DeclaredSpace)
    (id : Option Iri) :
    (space.withId id).settled registry = (space.settled registry).withId id := by
  rw [settled_node, settled_node]
  rfl

/-- Settling keeps every id. -/
theorem DeclaredSpace.settled_id (registry : Registry ε) (space : DeclaredSpace) :
    (space.settled registry).layer.id = space.layer.id := by
  rw [settled_node]
  rfl

end Settled

/-- No door without a corridor binds an endpoint that is a confinement already: what is bound
there would show a corridor that was not declared. -/
def DeclaredSpace.Unwrapped {ε : Type} [Registrable ε] (registry : Registry ε)
    (tree : DeclaredSpace) : Prop :=
  ∀ node : DeclaredSpace, node.Occurs tree → ∀ door ∈ node.layer.kind.doors,
    door.confined = none → ∀ endpoint, registry.get door.endpoint = some endpoint →
      CodedSpace.confinement endpoint = none

namespace DeclaredSpace

variable {ε : Type} [Registrable ε] {registry : Registry ε}

/-- A tree whose own doors are not wrapped, nor those inside, is unwrapped. -/
theorem unwrapped_of (tree : DeclaredSpace)
    (own : ∀ door ∈ tree.layer.kind.doors, door.confined = none → ∀ endpoint,
      registry.get door.endpoint = some endpoint → CodedSpace.confinement endpoint = none)
    (inside : ∀ inner ∈ tree.enclosed, inner.Unwrapped registry) : tree.Unwrapped registry := by
  intro node occurs
  rcases (occurs_iff node tree).mp occurs with rfl | ⟨next, enclosed, within⟩
  · exact own
  · exact inside next enclosed node within

/-- What is inside an unwrapped tree is unwrapped. -/
theorem Unwrapped.enclosed {tree : DeclaredSpace} (plain : tree.Unwrapped registry) :
    ∀ inner ∈ tree.enclosed, inner.Unwrapped registry :=
  fun inner inside node occurs => plain node (.deeper tree inner inside occurs)

/-- An id given to a tree wraps nothing. -/
theorem Unwrapped.with_id {tree : DeclaredSpace} (plain : tree.Unwrapped registry)
    (id : Option Iri) : (tree.withId id).Unwrapped registry :=
  unwrapped_of (tree.withId id) (plain tree .here) plain.enclosed

end DeclaredSpace

section Assembling

variable {ε : Type} [Registrable ε] [IriSyntax]

/-- What was built of a node: it is composed, and shows the node, settled. -/
structure BuiltFrom (registry : Registry ε) (node : DeclaredSpace) (space : CodedSpace ε) : Prop where
  composed : space.Composed registry.get
  topology : space.topology = node.settled registry

/-- What is built has the id its declaration states. -/
theorem BuiltFrom.id {registry : Registry ε} {node : DeclaredSpace} {space : CodedSpace ε}
    (built : BuiltFrom registry node space) : space.id = node.layer.id := by
  rw [← space.topology_id, built.topology, DeclaredSpace.settled_id]

/-- What was bound of a door: its grammar is made, its endpoint is registered, the corridor is
composed and bears the confinement's name, and the binding shows the door, settled. -/
structure BoundFrom (registry : Registry ε) (door : DeclaredDoor DeclaredSpace)
    (binding : Grammar × CodedEndpoint ε) : Prop where
  grammar : binding.1.Made
  bound : binding.2.Bound registry.get
  corridor : ∀ name corridor inner, binding.2 = .confine name corridor inner →
    corridor.Composed registry.get
  claim : ∀ name corridor inner, binding.2 = .confine name corridor inner →
    corridor.id = none ∨ corridor.id = some name
  shown : CodedSpace.shownDoor binding =
    (door.map (DeclaredSpace.settled registry)).settled registry

end Assembling

namespace Declared

variable {ε : Type} [Registrable ε]

/-- What a door that passes its check is. -/
theorem check_door_ok {registry : Registry ε} {place : Text} {door : DeclaredDoor DeclaredSpace}
    (passed : checkDoor registry place door = .ok ()) :
    (∃ endpoint, registry.get door.endpoint = some endpoint) ∧
      (∀ corridor, door.confined = some corridor → ∃ name, corridor.layer.id = some name) ∧
      (door.kind = .exact ∨ door.kind = .template ∧
        ∃ parsed, UriTemplate.parse door.pattern = .ok parsed) := by
  unfold checkDoor at passed
  split at passed
  · cases passed
  · rename_i held
    split at passed
    · cases passed
    · rename_i named
      refine ⟨?_, ?_, ?_⟩
      · rwa [Option.isNone_iff_eq_none, ← ne_eq, Option.ne_none_iff_exists'] at held
      · intro corridor confined
        rw [confined, Option.any_some, Option.isNone_iff_eq_none, ← ne_eq,
          Option.ne_none_iff_exists'] at named
        exact named
      · cases kind : door.kind with
        | exact => exact .inl rfl
        | template =>
          rw [kind] at passed
          cases read : UriTemplate.parse door.pattern with
          | ok parsed => exact .inr ⟨rfl, parsed, rfl⟩
          | error refusal =>
            rw [template, read] at passed
            cases passed
        | headed =>
          rw [kind] at passed
          cases passed
        | custom =>
          rw [kind] at passed
          cases passed

/-- The grammar of a door that passed is the door's. -/
theorem bound_grammar_ok {τ : Type} {place : Text} {door : DeclaredDoor τ} {grammar : Grammar}
    (kinds : door.kind = .exact ∨ door.kind = .template)
    (read : boundGrammar place door = .ok grammar) :
    grammar.Made ∧ grammar.pattern = door.pattern ∧ grammar.matchKind = door.kind := by
  unfold boundGrammar at read
  rcases kinds with kind | kind
  · rw [kind] at read ⊢
    cases read
    exact ⟨.exact door.pattern, rfl, rfl⟩
  · rw [kind] at read ⊢
    cases parsed : UriTemplate.parse door.pattern with
    | error refusal =>
      rw [template, parsed] at read
      cases read
    | ok pattern =>
      rw [template, parsed] at read
      cases read
      exact ⟨.template _ pattern parsed, ((UriTemplate.parse_eq_ok_iff _ _).mp parsed).2.2, rfl⟩

variable [IriSyntax]

/-- A door that passed its check is bound as it says. -/
theorem bind_door_ok {registry : Registry ε} {place other : Text}
    {door : DeclaredDoor (DeclaredSpace × CodedSpace ε)} {endpoint : CodedEndpoint ε}
    {grammar : Grammar}
    (corridors : ∀ pair, door.confined = some pair → BuiltFrom registry pair.1 pair.2)
    (plain : door.confined = none → ∀ endpoint, registry.get door.endpoint = some endpoint →
      CodedSpace.confinement endpoint = none)
    (passed : checkDoor registry other (door.map Prod.fst) = .ok ())
    (bound : boundEndpoint registry place door = .ok endpoint)
    (read : boundGrammar place door = .ok grammar) :
    BoundFrom registry (door.map Prod.fst) (grammar, endpoint) := by
  obtain ⟨⟨held, found⟩, named, kinds⟩ := check_door_ok passed
  obtain ⟨made, pattern, kind⟩ := bound_grammar_ok (kinds.imp_right And.left) read
  obtain ⟨⟨shown, shownKind⟩, id, confined, sensitive⟩ := door
  obtain rfl : grammar.pattern = shown := pattern
  obtain rfl : grammar.matchKind = shownKind := kind
  obtain rfl : held.name = id := registry.named _ _ found
  have stands : registry.get held.name = some held := found
  simp only [boundEndpoint, stands] at bound
  cases confined with
  | none =>
    obtain rfl : held = endpoint := Except.ok.inj bound
    have unconfined := plain rfl held stands
    refine ⟨made, .itself held stands, ?_, ?_, ?_⟩
    · rintro name corridor inner rfl
      cases unconfined
    · rintro name corridor inner rfl
      cases unconfined
    · simp only [CodedSpace.shownDoor, unconfined, DeclaredDoor.settled, DeclaredDoor.map,
        Option.map_none]
      rw [stands, Option.any_some]
  | some pair =>
    obtain ⟨declared, corridor⟩ := pair
    obtain ⟨name, claimed⟩ := named declared rfl
    have built := corridors _ rfl
    simp only [claimed] at bound
    obtain rfl : CodedEndpoint.confine name corridor held = endpoint := Except.ok.inj bound
    refine ⟨made, .confined name corridor held stands, ?_, ?_, ?_⟩
    · rintro _ _ _ ⟨⟩
      exact built.composed
    · rintro _ _ _ ⟨⟩
      exact .inr (built.id.trans claimed)
    · have shown : (corridor.topology).withId (some name) = declared.settled registry := by
        rw [built.topology, ← claimed, ← DeclaredSpace.settled_id registry declared]
        exact DeclaredSpace.node_layer _
      simp only [CodedSpace.shownDoor, CodedSpace.confinement, shown, CodedEndpoint.name,
        CodedEndpoint.describe, DeclaredDoor.settled, DeclaredDoor.map, Option.map_some]
      rw [stands, Option.any_some]

/-- The doors, one by one. -/
theorem bind_doors_ok {registry : Registry ε} {me other : Text} {number count : Nat}
    {doors : List (DeclaredDoor (DeclaredSpace × CodedSpace ε))}
    {bindings : List (Grammar × CodedEndpoint ε)}
    (corridors : ∀ door ∈ doors, ∀ pair, door.confined = some pair →
      BuiltFrom registry pair.1 pair.2)
    (plain : ∀ door ∈ doors, door.confined = none → ∀ endpoint,
      registry.get door.endpoint = some endpoint → CodedSpace.confinement endpoint = none)
    (passed : checkDoors registry other count (doors.map (DeclaredDoor.map Prod.fst)) = .ok ())
    (bound : bindDoors registry me number doors = .ok bindings) :
    (∀ binding ∈ bindings, ∃ door, BoundFrom registry door binding) ∧
      bindings.map CodedSpace.shownDoor =
        (doors.map (DeclaredDoor.map Prod.fst)).map fun door =>
          (door.map (DeclaredSpace.settled registry)).settled registry := by
  induction doors generalizing number count bindings with
  | nil =>
    cases bound
    exact ⟨List.forall_mem_nil _, rfl⟩
  | cons door rest ih =>
    obtain ⟨⟨⟩, here, later⟩ := Except.of_bind passed
    obtain ⟨endpoint, chosen, bound⟩ := Except.of_bind bound
    obtain ⟨grammar, read, bound⟩ := Except.of_bind bound
    obtain ⟨further, after, same⟩ := Except.of_bind bound
    cases same
    have own := bind_door_ok (corridors door List.mem_cons_self) (plain door List.mem_cons_self)
      here chosen read
    obtain ⟨each, shown⟩ := ih
      (fun other inside => corridors other (List.mem_cons_of_mem _ inside))
      (fun other inside => plain other (List.mem_cons_of_mem _ inside)) later after
    refine ⟨List.forall_mem_cons.mpr ⟨⟨_, own⟩, each⟩, ?_⟩
    rw [List.map_cons, List.map_cons, List.map_cons, own.shown, shown]

omit [IriSyntax] in
/-- What a family a limiter is put together with is. -/
theorem bound_family_ok {me family : Text} {kind : MatchKind} {carved : Family}
    (listed : kind ≠ .custom) (bound : boundFamily me family kind = .ok carved) :
    carved.Made ∧ carved.pattern = family ∧ carved.matchKind = kind := by
  cases kind with
  | exact =>
    cases bound
    exact ⟨.grammar _ (.exact family), rfl, rfl⟩
  | headed =>
    cases bound
    exact ⟨.headed family, rfl, rfl⟩
  | custom => exact absurd rfl listed
  | template =>
    cases parsed : UriTemplate.parse family with
    | error refusal =>
      rw [boundFamily, template, parsed] at bound
      cases bound
    | ok pattern =>
      rw [boundFamily, template, parsed] at bound
      cases bound
      exact ⟨.grammar _ (.template _ pattern parsed),
        ((UriTemplate.parse_eq_ok_iff _ _).mp parsed).2.2, rfl⟩

omit [IriSyntax] in
/-- A layer that encloses what it needs has as many children as its kind takes. -/
theorem encloses_ok {τ : Type} {me : Text} {layer : DeclaredLayer τ} {count : Nat}
    (passed : encloses me layer count = .ok ()) : layer.children.length = count := by
  unfold encloses at passed
  split at passed
  · assumption
  · cases passed

/-- A node that passed its check is put together as it says, from what was built of what it
encloses. -/
theorem assemble_ok {registry : Registry ε} {me other : Text} {mountedAt : Option Text}
    {layer : DeclaredLayer (DeclaredSpace × CodedSpace ε)} {serial : Nat} {space : CodedSpace ε}
    (inside : ∀ pair ∈ layer.enclosed, BuiltFrom registry pair.1 pair.2)
    (plain : ∀ door ∈ layer.kind.doors, door.confined = none → ∀ endpoint,
      registry.get door.endpoint = some endpoint → CodedSpace.confinement endpoint = none)
    (passed : check registry (layer.map Prod.fst) other mountedAt = .ok ())
    (built : assemble registry me layer serial = .ok space) :
    BuiltFrom registry (.node (layer.map Prod.fst)) space := by
  obtain ⟨id, kind, children⟩ := layer
  have below : ∀ pair ∈ children, BuiltFrom registry pair.1 pair.2 := fun pair listed =>
    inside pair (List.mem_append_left _ listed)
  have settledBelow : (children.map Prod.fst).map (DeclaredSpace.settled registry) =
      (children.map Prod.snd).map CodedSpace.topology := by
    rw [List.map_map, List.map_map]
    exact List.map_congr_left fun pair listed => (below pair listed).topology.symm
  have single : encloses other (DeclaredLayer.map Prod.fst ⟨id, kind, children⟩) 1 = .ok () →
      ∃ pair, children = [pair] := by
    intro one
    refine List.length_eq_one_iff.mp ?_
    rw [← encloses_ok one]
    exact (List.length_map _).symm
  cases kind with
  | endpointSpace doors =>
    obtain ⟨⟨⟩, none, doorsPassed⟩ := Except.of_bind passed
    obtain ⟨bindings, bound, same⟩ := Except.of_bind built
    cases same
    obtain ⟨held, shown⟩ := bind_doors_ok
      (fun door listed pair confined => inside pair (List.mem_append_right _
        (List.mem_filterMap.mpr ⟨door, listed, confined⟩))) plain doorsPassed bound
    obtain rfl : children = [] :=
      List.map_eq_nil_iff.mp (List.length_eq_zero_iff.mp (encloses_ok none))
    refine ⟨.endpointSpace bindings id ?_ ?_ ?_ ?_, ?_⟩
    · exact fun binding listed => (held binding listed).elim fun _ own => own.grammar
    · exact fun binding listed => (held binding listed).elim fun _ own => own.bound
    · exact fun binding listed => (held binding listed).elim fun _ own => own.corridor
    · exact fun binding listed => (held binding listed).elim fun _ own => own.claim
    · rw [DeclaredSpace.settled_node, CodedSpace.topology, CodedSpace.shown_doors_eq, shown,
        ← Function.comp_def (DeclaredDoor.settled registry), ← List.map_map]
      rfl
  | fallback =>
    cases built
    refine ⟨.fallback _ id fun space listed => ?_, ?_⟩
    · obtain ⟨pair, inside, rfl⟩ := List.mem_map.mp listed
      exact (below pair inside).composed
    · rw [CodedSpace.topology, CodedSpace.topologies_eq, ← settledBelow,
        DeclaredSpace.settled_node]
      rfl
  | mount head =>
    obtain ⟨pair, rfl⟩ := single passed
    cases built
    have own := below pair List.mem_cons_self
    refine ⟨.mount head _ id own.composed, ?_⟩
    rw [DeclaredSpace.settled_node, CodedSpace.topology, own.topology]
    rfl
  | «alias» rules maxHops =>
    obtain ⟨⟨⟩, one, _⟩ := Except.of_bind passed
    obtain ⟨pair, rfl⟩ := single one
    obtain ⟨table, read, same⟩ := Except.of_bind built
    cases same
    have own := below pair List.mem_cons_self
    refine ⟨.«alias» table _ id (AliasTable.made_of_declared read) own.composed, ?_⟩
    rw [DeclaredSpace.settled_node, CodedSpace.topology, own.topology]
    simp only [DeclaredSpace.layer_node, DeclaredLayer.map, DeclaredLayer.settled,
      DeclaredKind.withDoors, DeclaredKind.settled, read]
    rfl
  | limit family kind =>
    obtain ⟨⟨⟩, none, shape⟩ := Except.of_bind passed
    obtain ⟨carved, bound, same⟩ := Except.of_bind built
    cases same
    have listed : kind ≠ .custom := by
      rintro rfl
      cases shape
    obtain ⟨made, pattern, matched⟩ := bound_family_ok listed bound
    obtain rfl : children = [] :=
      List.map_eq_nil_iff.mp (List.length_eq_zero_iff.mp (encloses_ok none))
    refine ⟨.limit carved id made, ?_⟩
    rw [CodedSpace.topology, pattern, matched, DeclaredSpace.settled_node]
    rfl
  | level seals home =>
    obtain ⟨⟨⟩, one, named⟩ := Except.of_bind passed
    obtain ⟨pair, rfl⟩ := single one
    have own := below pair List.mem_cons_self
    cases id with
    | none => cases named
    | some name =>
      cases built
      refine ⟨.level name serial _ seals home own.composed, ?_⟩
      rw [DeclaredSpace.settled_node, CodedSpace.topology, own.topology]
      rfl
  | hidden => cases passed
  | rewrite => cases passed
  | confine => cases passed
  | dynamic declaration => cases passed
  | chain severed => cases passed

end Declared

namespace DeclaredLayer

variable {τ υ : Type}

/-- Changing what the doors enclose changes nothing else of them. -/
theorem doors_map (change : τ → υ) (layer : DeclaredLayer τ) :
    (layer.map change).kind.doors = layer.kind.doors.map (DeclaredDoor.map change) := by
  obtain ⟨id, kind, children⟩ := layer
  cases kind <;> rfl

/-- A layer filled with what it encloses beside something else is the layer beside it. -/
theorem fill_zip (layer : DeclaredLayer τ) (others : List υ)
    (enough : others.length = layer.enclosed.length) :
    (layer.fill (layer.enclosed.zip others)).map Prod.fst = layer ∧
      (layer.fill (layer.enclosed.zip others)).enclosed = layer.enclosed.zip others := by
  have full : (layer.enclosed.zip others).length = layer.enclosed.length := by
    rw [List.length_zip, enough, Nat.min_self]
  have inside := layer.fill_enclosed _ full
  refine ⟨eq_of_shape _ _ ?_ ?_, inside⟩
  · rw [shape_map, layer.fill_shape _ full]
  · rw [enclosed_map, inside, List.map_fst_zip (Nat.le_of_eq enough.symm)]

end DeclaredLayer

namespace Builder

variable {ε : Type} [Registrable ε] [IriSyntax]

/-- Whatever was entered was built of its node. -/
def Kept (registry : Registry ε) (builder : Builder ε) : Prop :=
  ∀ name node space, builder.named.lookup name = some (node, space) →
    BuiltFrom registry node space

/-- What is built of a node, whatever was built before. -/
def BuildsOf (registry : Registry ε) (node : DeclaredSpace) (builds : Builds ε) : Prop :=
  ∀ mountedAt (builder after : Builder ε) space, builder.Kept registry →
    builds mountedAt builder = .ok (space, after) →
      BuiltFrom registry node space ∧ after.Kept registry

/-- Building a node visits its layer, with what is inside it built before. -/
theorem space_node (registry : Registry ε) (node : DeclaredSpace) :
    space registry node = visit registry node.layer (node.enclosed.map (space registry)) :=
  DeclaredSpace.fold_node _ node

/-- A builder that keeps what it has built keeps it when one node more is built. -/
theorem Kept.enter {registry : Registry ε} {builder : Builder ε} {node : DeclaredSpace}
    {space : CodedSpace ε} (kept : builder.Kept registry) (built : BuiltFrom registry node space) :
    (builder.enter node space).Kept registry := by
  intro name other known held
  unfold Builder.enter at held
  cases claimed : node.layer.id with
  | none =>
    rw [claimed] at held
    exact kept name other known held
  | some me =>
    rw [claimed] at held
    simp only [List.lookup_cons] at held
    split at held
    · cases held
      exact built
    · exact kept name other known held

/-- What stands in order is built in order. -/
theorem in_order_ok (registry : Registry ε) (pairs : List (DeclaredSpace × Option Text))
    (each : ∀ pair ∈ pairs, BuildsOf registry pair.1 (space registry pair.1))
    (builder after : Builder ε) (spaces : List (CodedSpace ε)) (kept : builder.Kept registry)
    (ran : inOrder (pairs.map fun pair => space registry pair.1 pair.2) builder =
      .ok (spaces, after)) :
    spaces.length = pairs.length ∧
      (∀ pair ∈ (pairs.map Prod.fst).zip spaces, BuiltFrom registry pair.1 pair.2) ∧
      after.Kept registry := by
  induction pairs generalizing builder spaces with
  | nil =>
    cases ran
    exact ⟨rfl, List.forall_mem_nil _, kept⟩
  | cons pair rest ih =>
    obtain ⟨⟨first, between⟩, here, ran⟩ := Except.of_bind ran
    obtain ⟨⟨others, last⟩, later, same⟩ := Except.of_bind ran
    cases same
    obtain ⟨built, keptBetween⟩ := each pair List.mem_cons_self _ _ _ _ kept here
    obtain ⟨length, zipped, keptAfter⟩ := ih (fun other inside =>
      each other (List.mem_cons_of_mem _ inside)) between others keptBetween later
    refine ⟨congrArg (· + 1) length, ?_, keptAfter⟩
    rw [List.map_cons, List.zip_cons_cons]
    exact List.forall_mem_cons.mpr ⟨built, zipped⟩

/-- What a node encloses, each with the prefix it is mounted at. -/
def enclosedAt (layer : DeclaredLayer DeclaredSpace) : List (DeclaredSpace × Option Text) :=
  layer.children.map (fun child => (child, mountOf layer)) ++
    layer.kind.corridors.map fun corridor => (corridor, none)

omit [Registrable ε] [IriSyntax] in
/-- What a layer encloses, by place, is what it encloses. -/
theorem enclosed_at_fst (layer : DeclaredLayer DeclaredSpace) :
    (enclosedAt layer).map Prod.fst = layer.enclosed := by
  rw [enclosedAt, List.map_append, List.map_map, List.map_map, DeclaredLayer.enclosed]
  exact congrArg₂ _ (List.map_id _) (List.map_id _)

/-- The children are mounted as the layer says, and the corridors behind them as they are. -/
theorem below_eq (registry : Registry ε) (layer : DeclaredLayer DeclaredSpace) :
    (((layer.enclosed.map (space registry)).take layer.children.length).map
        fun build => build (mountOf layer)) ++
      ((layer.enclosed.map (space registry)).drop layer.children.length).map
        (fun build => build none) =
      (enclosedAt layer).map fun pair => space registry pair.1 pair.2 := by
  rw [DeclaredLayer.enclosed, List.map_append,
    List.take_left' (List.length_map _), List.drop_left' (List.length_map _), enclosedAt,
    List.map_append, List.map_map, List.map_map, List.map_map, List.map_map]
  rfl

omit [Registrable ε] [IriSyntax] in
/-- What was met again was entered for the same node. -/
theorem met_again_some {builder : Builder ε} {node : DeclaredSpace} {shared : CodedSpace ε}
    (again : builder.metAgain node = .ok (some shared)) :
    ∃ name, builder.named.lookup name = some (node, shared) := by
  unfold metAgain at again
  split at again
  · cases again
  · rename_i me _
    split at again
    · cases again
    · rename_i first space held
      split at again
      · rename_i same
        cases again
        exact ⟨me, same ▸ held⟩
      · cases again

omit [Registrable ε] [IriSyntax] in
/-- A number given to an anonymous node is nothing to what was built. -/
theorem iri_named (builder : Builder ε) (id : Option Iri) :
    (builder.iri id).2.named = builder.named := by
  cases id <;> rfl

/-- What a node is built as shows it, settled, and is composed of registered endpoints. -/
theorem space_ok (registry : Registry ε) (tree : DeclaredSpace) (plain : tree.Unwrapped registry) :
    BuildsOf registry tree (space registry tree) := by
  induction tree using DeclaredSpace.enclosed_induction with
  | step tree ih =>
    intro mountedAt builder after built kept ran
    rw [space_node] at ran
    obtain ⟨met, again, ran⟩ := Except.of_bind ran
    have keptNamed : (builder.iri tree.layer.id).2.Kept registry := by
      unfold Kept
      rw [iri_named]
      exact kept
    cases met with
    | some shared =>
      cases ran
      obtain ⟨name, held⟩ := met_again_some again
      rw [DeclaredSpace.node_layer] at held
      exact ⟨keptNamed name tree built held, keptNamed⟩
    | none =>
      obtain ⟨⟨⟩, passed, ran⟩ := Except.of_bind ran
      obtain ⟨⟨inner, between⟩, inside, ran⟩ := Except.of_bind ran
      obtain ⟨space, assembled, same⟩ := Except.of_bind ran
      cases same
      rw [DeclaredSpace.enclosed, below_eq] at inside
      have within : ∀ pair ∈ enclosedAt tree.layer,
          BuildsOf registry pair.1 (Builder.space registry pair.1) := by
        intro pair listed
        have enclosed : pair.1 ∈ tree.enclosed := by
          rw [DeclaredSpace.enclosed, ← enclosed_at_fst]
          exact List.mem_map_of_mem listed
        exact ih pair.1 enclosed fun node occurs =>
          plain node (.deeper tree pair.1 enclosed occurs)
      obtain ⟨length, zipped, keptAfter⟩ :=
        in_order_ok registry _ within _ _ inner keptNamed inside
      have enough : inner.length = tree.layer.enclosed.length := by
        rw [length, ← enclosed_at_fst, List.length_map]
      obtain ⟨layer, filled⟩ := tree.layer.fill_zip inner enough
      have own : BuiltFrom registry (.node tree.layer) built := by
        rw [← layer]
        refine Declared.assemble_ok ?_ ?_ (layer.symm ▸ passed) assembled
        · rw [filled, ← enclosed_at_fst]
          exact zipped
        · intro door listed unconfined endpoint held
          have shown : door.map Prod.fst ∈ tree.layer.kind.doors := by
            rw [← layer, DeclaredLayer.doors_map]
            exact List.mem_map_of_mem listed
          exact plain tree .here _ shown (by rw [DeclaredDoor.map, unconfined]; rfl) endpoint held
      exact ⟨tree.node_layer ▸ own, keptAfter.enter own⟩

end Builder

section Building

variable {ε : Type} [Registrable ε] [IriSyntax]

/-- What a build that succeeds returns. -/
theorem build_ok {registry : Registry ε} {serial : Nat} {declaration : DeclaredSpace}
    {built : CodedSpace ε} (plain : declaration.Unwrapped registry)
    (accepted : build registry serial declaration = .ok built) :
    BuiltFrom registry declaration built := by
  obtain ⟨⟨⟩, _, accepted⟩ := Except.of_bind accepted
  obtain ⟨⟨⟩, _, accepted⟩ := Except.of_bind accepted
  obtain ⟨⟨space, after⟩, ran, accepted⟩ := Except.of_bind accepted
  have same : space = built := by
    dsimp only at accepted
    cases sealed : Seals.fromTopology space.topology.reduced registry.sealed with
    | error error =>
      rw [sealed] at accepted
      cases accepted
    | ok seals =>
      rw [sealed] at accepted
      exact Except.ok.inj accepted
  have kept : (({ serial := serial } : Builder ε)).Kept registry := by
    intro name node space held
    cases held
  exact same ▸ (Builder.space_ok registry declaration plain none _ after space kept ran).1

end Building

namespace CodedSpace

variable {ε : Type} [Registrable ε]

/-- What a door binds is registered under the name the door states, and is described alike. -/
theorem bound_registered {registry : Registry ε} {endpoint : CodedEndpoint ε}
    (bound : endpoint.Bound registry.get) :
    ∃ held, registry.get endpoint.name = some held ∧
      held.describe = endpoint.describe ∧
      (endpoint = held ∨ ∃ name corridor, endpoint = .confine name corridor held) := by
  cases bound with
  | itself _ held => exact ⟨endpoint, held, rfl, .inl rfl⟩
  | confined name corridor inner held => exact ⟨inner, held, rfl, .inr ⟨name, corridor, rfl⟩⟩

variable [IriSyntax]

/-- What a composed space shows is settled. -/
theorem settled_topology {registry : Registry ε} {space : CodedSpace ε}
    (composed : space.Composed registry.get) :
    space.topology.settled registry = space.topology := by
  induction composed with
  | endpointSpace bindings id grammars bound corridors claims ih =>
    have doors : (bindings.map shownDoor).map (fun door =>
        (door.map (DeclaredSpace.settled registry)).settled registry) =
          bindings.map shownDoor := by
      rw [List.map_map]
      refine List.map_congr_left fun binding listed => ?_
      obtain ⟨held, found, described, _⟩ := bound_registered (bound binding listed)
      have confined : (confinement binding.2).map (DeclaredSpace.settled registry) =
          confinement binding.2 := by
        cases shape : binding.2 with
        | endpoint object => rfl
        | confine name corridor inner =>
          simp only [confinement, Option.map_some, DeclaredSpace.settled_with_id,
            ih binding listed name corridor inner shape]
      simp only [Function.comp_apply, shownDoor, DeclaredDoor.map, DeclaredDoor.settled, confined,
        found, Option.any_some, described]
    rw [topology, shown_doors_eq, DeclaredSpace.settled_node]
    conv_rhs => rw [← doors, ← Function.comp_def (DeclaredDoor.settled registry), ← List.map_map]
    rfl
  | mount head inner id composed ih =>
    rw [topology, DeclaredSpace.settled_node]
    conv_rhs => rw [← ih]
    rfl
  | fallback spaces id composed ih =>
    have each : (spaces.map topology).map (DeclaredSpace.settled registry) =
        spaces.map topology := by
      rw [List.map_map]
      exact List.map_congr_left ih
    rw [topology, topologies_eq, DeclaredSpace.settled_node]
    conv_rhs => rw [← each]
    rfl
  | limit family id made =>
    rw [topology, DeclaredSpace.settled_node]
    rfl
  | level name serial inner seals home composed ih =>
    rw [topology, DeclaredSpace.settled_node]
    conv_rhs => rw [← ih]
    rfl
  | «alias» table inner id made composed ih =>
    rw [topology, DeclaredSpace.settled_node]
    simp only [DeclaredSpace.layer_node, DeclaredLayer.map, DeclaredLayer.settled,
      DeclaredKind.withDoors, DeclaredKind.settled, AliasTable.of_declared_summaries table made,
      List.map_cons, List.map_nil, ih]

/-- A composed space declares no corridor that an endpoint brings of its own. -/
theorem topology_unwrapped {registry : Registry ε} {space : CodedSpace ε}
    (composed : space.Composed registry.get) : space.topology.Unwrapped registry := by
  induction composed with
  | endpointSpace bindings id grammars bound corridors claims ih =>
    rw [topology, shown_doors_eq]
    refine DeclaredSpace.unwrapped_of _ ?_ ?_
    · intro door listed unconfined endpoint held
      obtain ⟨binding, inside, rfl⟩ := List.mem_map.mp listed
      obtain ⟨own, found, _, itself | ⟨name, corridor, within⟩⟩ :=
        bound_registered (bound binding inside)
      · obtain rfl : own = endpoint := Option.some.inj (found.symm.trans held)
        rw [← itself]
        exact unconfined
      · rw [shownDoor, within] at unconfined
        cases unconfined
    · intro inner inside
      obtain ⟨door, listed, confined⟩ := List.mem_filterMap.mp inside
      obtain ⟨binding, bindingListed, rfl⟩ := List.mem_map.mp listed
      cases shape : binding.2 with
      | endpoint object =>
        rw [shownDoor, shape] at confined
        cases confined
      | confine name corridor own =>
        rw [shownDoor, shape] at confined
        cases confined
        exact (ih binding bindingListed name corridor own shape).with_id _
  | mount head inner id composed ih =>
    rw [topology]
    refine DeclaredSpace.unwrapped_of _ (by rintro doors ⟨⟩) fun other inside => ?_
    rw [List.mem_singleton.mp inside]
    exact ih
  | fallback spaces id composed ih =>
    rw [topology, topologies_eq]
    refine DeclaredSpace.unwrapped_of _ (by rintro doors ⟨⟩) fun other inside => ?_
    rw [DeclaredSpace.enclosed_node, DeclaredLayer.enclosed, List.mem_append] at inside
    obtain ⟨space, listed, rfl⟩ := List.mem_map.mp (inside.resolve_right List.not_mem_nil)
    exact ih space listed
  | limit family id made =>
    rw [topology]
    exact DeclaredSpace.unwrapped_of _ (by rintro doors ⟨⟩) (List.forall_mem_nil _)
  | level name serial inner seals home composed ih =>
    rw [topology]
    refine DeclaredSpace.unwrapped_of _ (by rintro doors ⟨⟩) fun other inside => ?_
    rw [List.mem_singleton.mp inside]
    exact ih
  | «alias» table inner id made composed ih =>
    rw [topology]
    refine DeclaredSpace.unwrapped_of _ (by rintro doors ⟨⟩) fun other inside => ?_
    rw [List.mem_singleton.mp inside]
    exact ih

/-- A space under an identity; a level keeps its name. -/
def named (name : Iri) : CodedSpace ε → CodedSpace ε
  | .endpointSpace bindings _ => .endpointSpace bindings (some name)
  | .mount head inner _ => .mount head inner (some name)
  | .fallback spaces _ => .fallback spaces (some name)
  | .limit family _ => .limit family (some name)
  | .level own serial inner seals home => .level own serial inner seals home
  | .«alias» table inner _ => .«alias» table inner (some name)

/-- A space under a name is composed of what it was composed of. -/
theorem Composed.named {registry : Registry ε} {space : CodedSpace ε}
    (composed : space.Composed registry.get) (name : Iri) :
    (space.named name).Composed registry.get := by
  cases composed with
  | endpointSpace bindings id grammars bound corridors claims =>
    exact .endpointSpace bindings _ grammars bound corridors claims
  | mount head inner id composed => exact .mount head inner _ composed
  | fallback spaces id composed => exact .fallback spaces _ composed
  | limit family id made => exact .limit family _ made
  | level own serial inner seals home composed =>
    exact .level own serial inner seals home composed
  | «alias» table inner id made composed => exact .«alias» table inner _ made composed

omit [IriSyntax] in
/-- A space that bears a name or none shows under the name what it shows. -/
theorem topology_named {space : CodedSpace ε} {name : Iri}
    (claim : space.id = none ∨ space.id = some name) :
    (space.named name).topology = space.topology.withId (some name) := by
  cases space with
  | level own serial inner seals home =>
    obtain rfl : own = name := Option.some.inj (claim.resolve_left (Option.some_ne_none own))
    rw [named, topology]
    rfl
  | _ => rw [named, topology, topology]; rfl

variable [Blake3] [IriPath]

omit [Registrable ε] in
/-- Under the name it answers as before, but that the name fills in for an answerer. -/
theorem resolve_named {space : CodedSpace ε} {name : Iri}
    (claim : space.id = none ∨ space.id = some name) (chain : Scope (CodedSpace ε))
    (request : Request) :
    (space.named name).resolve chain request =
      (space.resolve chain request).map (Reached.answeredAs (some name)) := by
  have filled : ∀ {id : Option Iri}, id = none ∨ id = some name →
      ∀ answer : Option (Reached (CodedEndpoint ε) (LevelCore (CodedSpace ε))),
        answer.map (Reached.answeredAs (some name)) =
          (answer.map (Reached.answeredAs id)).map (Reached.answeredAs (some name)) := by
    rintro id (rfl | rfl) (_ | hit)
    · rfl
    · exact congrArg some (hit.answered_as_twice none (some name)).symm
    · rfl
    · exact congrArg some (hit.answered_as_twice (some name) (some name)).symm
  cases space with
  | level own serial inner seals home =>
    obtain rfl : own = name := Option.some.inj (claim.resolve_left (Option.some_ne_none own))
    rw [named, resolve, Option.map_map]
    congr 1
    funext hit
    obtain ⟨endpoint, bindings, canonical, answeredBy, levels⟩ := hit
    cases answeredBy <;> rfl
  | endpointSpace bindings id =>
    rw [named, resolve, resolve]
    exact filled claim _
  | mount head inner id =>
    rw [named, resolve, resolve]
    split
    · exact filled claim _
    · rfl
  | fallback spaces id =>
    rw [named, resolve, resolve]
    exact filled claim _
  | limit family id =>
    rw [named, resolve, resolve]
    split
    · exact filled claim (some { endpoint := .bottom })
    · rfl
  | «alias» table inner id =>
    rw [named, resolve, resolve]
    exact filled claim _

/-- A door's endpoint as it stands in a composed space. -/
structure Standing (registry : Registry ε) (endpoint : CodedEndpoint ε) : Prop where
  bound : endpoint.Bound registry.get
  corridor : ∀ name corridor inner, endpoint = .confine name corridor inner →
    corridor.Composed registry.get
  claim : ∀ name corridor inner, endpoint = .confine name corridor inner →
    corridor.id = none ∨ corridor.id = some name

/-- An answer hands a request only to endpoints that stand. -/
def HandsOn {ν : Type} (registry : Registry ε) (answer : Option (Reached (CodedEndpoint ε) ν)) :
    Prop :=
  ∀ hit, answer = some hit → ∀ endpoint, hit.endpoint = .door endpoint →
    Standing registry endpoint

omit [Blake3] [IriPath] in
/-- A change that leaves the endpoint leaves where it is from. -/
theorem HandsOn.map {ν : Type} {registry : Registry ε}
    {answer : Option (Reached (CodedEndpoint ε) ν)} (hands : HandsOn registry answer)
    (change : Reached (CodedEndpoint ε) ν → Reached (CodedEndpoint ε) ν)
    (kept : ∀ hit, (change hit).endpoint = hit.endpoint) : HandsOn registry (answer.map change) := by
  intro hit found endpoint door
  obtain ⟨inner, before, rfl⟩ := Option.map_eq_some_iff.mp found
  exact hands inner before endpoint ((kept inner).symm.trans door)

omit [Blake3] in
/-- What a table leads to hands on what it is handed. -/
theorem HandsOn.through {ν : Type} {registry : Registry ε} (table : AliasTable)
    {behind : Request → Option (Reached (CodedEndpoint ε) ν)}
    (hands : ∀ request, HandsOn registry (behind request)) (request : Request) :
    HandsOn registry (table.through behind request) := by
  unfold AliasTable.through
  split
  · exact hands request
  · split
    · split
      · rintro hit ⟨⟩ endpoint ⟨⟩
      · rintro hit ⟨⟩ endpoint ⟨⟩
    · exact (hands _).map _ fun _ => rfl
  · rintro hit ⟨⟩ endpoint ⟨⟩

/-- The first of some spaces that answers hands on what that one does. -/
theorem HandsOn.first {registry : Registry ε} (chain : Scope (CodedSpace ε)) (request : Request)
    (spaces : List (CodedSpace ε))
    (hands : ∀ space ∈ spaces, HandsOn registry (space.resolve chain request)) :
    HandsOn registry (resolveFirst chain spaces request) := by
  induction spaces with
  | nil => rintro hit ⟨⟩
  | cons space rest ih =>
    rw [resolveFirst]
    cases answer : space.resolve chain request with
    | none => exact ih fun other inside => hands other (List.mem_cons_of_mem _ inside)
    | some hit =>
      have own := hands space List.mem_cons_self
      rw [answer] at own
      exact own

omit [Blake3] [IriPath] in
/-- A binding hands on the endpoint standing at it. -/
theorem HandsOn.bound {ν : Type} {registry : Registry ε} (target : Iri)
    (bindings : List (Grammar × CodedEndpoint ε))
    (stand : ∀ binding ∈ bindings, Standing registry binding.2) :
    HandsOn registry (firstBound (ν := ν) target bindings) := by
  induction bindings with
  | nil => rintro hit ⟨⟩
  | cons binding rest ih =>
    obtain ⟨grammar, own⟩ := binding
    rw [firstBound]
    split
    · rintro hit ⟨⟩ endpoint ⟨⟩
      exact stand _ List.mem_cons_self
    · exact ih fun other inside => stand other (List.mem_cons_of_mem _ inside)

/-- A composed space hands a request only to endpoints that stand in it. -/
theorem hands_on {registry : Registry ε} {space : CodedSpace ε}
    (composed : space.Composed registry.get) (chain : Scope (CodedSpace ε)) (request : Request) :
    HandsOn registry (space.resolve chain request) := by
  induction composed generalizing request with
  | endpointSpace bindings id grammars bound corridors claims _ =>
    rw [resolve]
    exact (HandsOn.bound request.target bindings fun binding listed =>
      ⟨bound binding listed, corridors binding listed, claims binding listed⟩).map _ fun _ => rfl
  | mount head inner id composed ih =>
    rw [resolve]
    split
    · exact (ih request).map _ fun _ => rfl
    · rintro hit ⟨⟩
  | fallback spaces id composed ih =>
    rw [resolve]
    exact (HandsOn.first chain request spaces fun space listed => ih space listed request).map _
      fun _ => rfl
  | limit family id made =>
    rw [resolve]
    split
    · rintro hit ⟨⟩ endpoint ⟨⟩
    · rintro hit ⟨⟩
  | level name serial inner seals home composed ih =>
    rw [resolve]
    exact (ih request).map _ fun _ => rfl
  | «alias» table inner id made composed ih =>
    rw [resolve]
    exact (HandsOn.through table ih request).map _ fun _ => rfl

end CodedSpace

namespace CodedSpace

variable {ε : Type} [Registrable ε] [Blake3] [IriSyntax] [IriPath]

/-- Two spaces answer alike, each in whatever chain. -/
def AnswersAlike (first second : CodedSpace ε) : Prop :=
  ∀ chain other request, (first.resolve chain request).map shown =
    (second.resolve other request).map shown

/-- Two endpoints are one registered endpoint, each as it is or confined, in corridors of one
name and one arrangement that answer alike. -/
structure SameDoor (registry : Registry ε) (first second : CodedEndpoint ε) : Prop where
  registered : ∃ held, registry.get first.name = some held ∧
    (first = held ∨ ∃ name corridor, first = .confine name corridor held) ∧
    (second = held ∨ ∃ name corridor, second = .confine name corridor held)
  confinement : confinement first = confinement second
  corridor : ∀ name corridor inner name' corridor' inner',
    first = .confine name corridor inner → second = .confine name' corridor' inner' →
      name = name' ∧ AnswersAlike (corridor.named name) (corridor'.named name')

/-- Two answers are one outcome: both a miss, or hits that read alike and, at a door, are handed
to one registered endpoint. -/
inductive SameOutcome (registry : Registry ε) :
    Option (Reached (CodedEndpoint ε) (LevelCore (CodedSpace ε))) →
      Option (Reached (CodedEndpoint ε) (LevelCore (CodedSpace ε))) → Prop where
  | miss : SameOutcome registry none none
  | hit (first second : Reached (CodedEndpoint ε) (LevelCore (CodedSpace ε)))
      (alike : shown first = shown second)
      (doors : ∀ endpoint other, first.endpoint = .door endpoint →
        second.endpoint = .door other → SameDoor registry endpoint other) :
      SameOutcome registry (some first) (some second)

/-- Composed spaces that show one topology answer alike. -/
theorem alike_of_topology {registry : Registry ε} {first second : CodedSpace ε}
    (composed : first.Composed registry.get) (other : second.Composed registry.get)
    (same : first.topology = second.topology) : AnswersAlike first second := by
  intro chain chain' request
  rw [resolve_shown composed, resolve_shown other, same]

/-- Standing endpoints that a door states alike are one. -/
theorem same_door {registry : Registry ε} {first second : CodedEndpoint ε}
    (stands : Standing registry first) (other : Standing registry second)
    (alike : first.shown = second.shown) : SameDoor registry first second := by
  obtain ⟨names, corridors⟩ := Prod.mk.inj alike
  obtain ⟨held, found, _, own⟩ := bound_registered stands.bound
  obtain ⟨held', found', _, own'⟩ := bound_registered other.bound
  obtain rfl : held = held' := by
    rw [names, found'] at found
    exact (Option.some.inj found).symm
  refine ⟨⟨held, found, own, own'⟩, corridors, ?_⟩
  rintro name corridor inner name' corridor' inner' rfl rfl
  have shown := Option.some.inj corridors
  obtain rfl : name = name' :=
    Option.some.inj (congrArg (fun space : DeclaredSpace => space.layer.id) shown)
  refine ⟨rfl, alike_of_topology ((stands.corridor name corridor inner rfl).named name)
    ((other.corridor name corridor' inner' rfl).named name) ?_⟩
  rw [topology_named (stands.claim name corridor inner rfl),
    topology_named (other.claim name corridor' inner' rfl)]
  exact shown

/-- Composed spaces that show one topology come to the same outcome. -/
theorem outcome_of_topology {registry : Registry ε} {first second : CodedSpace ε}
    (composed : first.Composed registry.get) (other : second.Composed registry.get)
    (same : first.topology = second.topology) (chain chain' : Scope (CodedSpace ε))
    (request : Request) :
    SameOutcome registry (first.resolve chain request) (second.resolve chain' request) := by
  have alike := alike_of_topology composed other same chain chain' request
  cases found : first.resolve chain request with
  | none =>
    rw [found] at alike
    rw [Option.map_eq_none_iff.mp alike.symm]
    exact .miss
  | some hit =>
    rw [found] at alike
    obtain ⟨hit', found', shown⟩ := Option.map_eq_some_iff.mp alike.symm
    rw [found']
    refine .hit hit hit' shown.symm fun endpoint endpoint' door door' => ?_
    refine same_door (hands_on composed chain request hit found endpoint door)
      (hands_on other chain' request hit' found' endpoint' door') ?_
    have handed := congrArg Reached.endpoint shown
    simp only [CodedSpace.shown, Reached.map, door, door', Handed.map, Handed.door.injEq] at handed
    exact handed.symm

end CodedSpace

/-- Building inverts showing: what is built from the topology of a composed space shows that
topology, and comes to the same outcome for every request in every chain. -/
theorem build_inverts_topology {ε : Type} [Registrable ε] [Blake3] [IriSyntax] [IriPath]
    (registry : Registry ε) (serial : Nat) (space built : CodedSpace ε)
    (composed : space.Composed registry.get)
    (accepted : build registry serial space.topology = .ok built) :
    built.topology = space.topology ∧
      ∀ chain chain' request, CodedSpace.SameOutcome registry (built.resolve chain request)
        (space.resolve chain' request) := by
  have own := build_ok (CodedSpace.topology_unwrapped composed) accepted
  have same : built.topology = space.topology := by
    rw [own.topology, CodedSpace.settled_topology composed]
  exact ⟨same, CodedSpace.outcome_of_topology own.composed composed same⟩

section Meaning

variable {ε : Type} [Registrable ε] [IriSyntax] [IriPath]

/-- An answer of a declaration, as the settled declaration gives it. -/
def settledHit (registry : Registry ε) (hit : DeclaredReached) : DeclaredReached :=
  hit.map (Prod.map id (Option.map (DeclaredSpace.settled registry)))
    (DeclaredSpace.settled registry)

omit [IriPath] in
/-- Settling the doors changes neither which door is first nor its bindings. -/
theorem first_door_settled (registry : Registry ε) (target : Iri)
    (doors : List (DeclaredDoor DeclaredSpace)) :
    firstDoor target (doors.map fun door =>
        (door.map (DeclaredSpace.settled registry)).settled registry) =
      (firstDoor target doors).map (settledHit registry) := by
  induction doors with
  | nil => rfl
  | cons door rest ih =>
    rw [List.map_cons, firstDoor, firstDoor]
    dsimp only [DeclaredDoor.settled, DeclaredDoor.map]
    cases (Grammar.ofPattern door.kind door.pattern).bind (Grammar.matchIri · target) with
    | none => exact ih
    | some bindings => rfl

omit [IriPath] in
/-- A table stated in its own order is the table. -/
theorem AliasTable.of_declared_again {rules : List DeclaredRule} {maxHops : Nat}
    {table : AliasTable} (read : AliasTable.ofDeclared rules maxHops = .ok table) :
    AliasTable.ofDeclared (table.rules.map AliasRule.summary) table.maxHops = .ok table :=
  table.of_declared_summaries (AliasTable.made_of_declared read)

omit [IriPath] in
/-- Settling a layer keeps what it encloses. -/
theorem DeclaredLayer.settled_enclosed {τ : Type} (registry : Registry ε)
    (layer : DeclaredLayer τ) : (layer.settled registry).enclosed = layer.enclosed := by
  obtain ⟨id, kind, children⟩ := layer
  rw [enclosed, enclosed]
  congr 1
  cases kind with
  | endpointSpace doors => exact List.filterMap_map
  | «alias» rules maxHops =>
    simp only [settled, DeclaredKind.settled]
    cases AliasTable.ofDeclared rules maxHops <;> rfl
  | _ => rfl

/-- Where each space answers as its settled one does, so does the only one. -/
theorem only_answer_settled (registry : Registry ε) (below : List DeclaredSpace)
    (each : ∀ inner ∈ below, ∀ request, (inner.settled registry).answer request =
      (inner.answer request).map (settledHit registry)) (request : Request) :
    onlyAnswer ((below.map (DeclaredSpace.settled registry)).map DeclaredSpace.answer) request =
      (onlyAnswer (below.map DeclaredSpace.answer) request).map (settledHit registry) := by
  cases below with
  | nil => rfl
  | cons inner rest => exact each inner List.mem_cons_self request

/-- And so does the first of them that answers. -/
theorem find_answer_settled (registry : Registry ε) (below : List DeclaredSpace)
    (each : ∀ inner ∈ below, ∀ request, (inner.settled registry).answer request =
      (inner.answer request).map (settledHit registry)) (request : Request) :
    (((below.map (DeclaredSpace.settled registry)).map DeclaredSpace.answer).findSome?
        fun answer => answer request) =
      ((below.map DeclaredSpace.answer).findSome? fun answer => answer request).map
        (settledHit registry) := by
  induction below with
  | nil => rfl
  | cons inner rest ih =>
    have later := ih fun other inside => each other (List.mem_cons_of_mem _ inside)
    rw [List.map_cons, List.map_cons, List.map_cons, List.findSome?_cons, List.findSome?_cons,
      each inner List.mem_cons_self, later]
    cases inner.answer request <;> rfl

/-- What settles keeps its meaning. -/
theorem DeclaredSpace.settled_answer (registry : Registry ε) (space : DeclaredSpace) :
    ∀ request, (space.settled registry).answer request =
      (space.answer request).map (settledHit registry) := by
  induction space using DeclaredSpace.enclosed_induction with
  | step space ih =>
    intro request
    have enclosed : (space.settled registry).enclosed =
        space.enclosed.map (DeclaredSpace.settled registry) := by
      rw [settled_node, enclosed_node, DeclaredLayer.settled_enclosed, DeclaredLayer.enclosed_map]
      rfl
    rw [answer_node, answer_node, enclosed]
    have only := only_answer_settled registry space.enclosed ih
    obtain ⟨id, kind, children⟩ := space
    rw [settled_node]
    simp only [DeclaredLayer.answer, layer_node, DeclaredLayer.settled, DeclaredLayer.map]
    cases kind with
    | endpointSpace doors =>
      simp only [DeclaredKind.withDoors, DeclaredKind.settled, DeclaredKind.doors, List.map_map]
      rw [Function.comp_def, first_door_settled, Option.map_map, Option.map_map]
      rfl
    | mount head =>
      simp only [DeclaredKind.withDoors, DeclaredKind.settled]
      split
      · rw [only, Option.map_map, Option.map_map]
        rfl
      · rfl
    | fallback =>
      simp only [DeclaredKind.withDoors, DeclaredKind.settled]
      rw [find_answer_settled registry _ ih, Option.map_map, Option.map_map]
      rfl
    | limit family kind =>
      simp only [DeclaredKind.withDoors, DeclaredKind.settled]
      split <;> rfl
    | level seals home =>
      simp only [DeclaredKind.withDoors, DeclaredKind.settled]
      rw [only, Option.map_map, Option.map_map]
      congr 1
      funext hit
      simp only [Function.comp_apply, settledHit, Reached.map_within, Reached.map_answered_as,
        settled_node]
      rfl
    | «alias» rules maxHops =>
      simp only [DeclaredKind.withDoors, DeclaredKind.settled]
      cases read : AliasTable.ofDeclared rules maxHops with
      | error refusal => simp only [read]; rfl
      | ok table =>
        simp only [AliasTable.of_declared_again read]
        rw [← table.map_through _ _ _ _ fun request => (only request).symm, Option.map_map,
          Option.map_map]
        rfl
    | _ => rfl

/-- What is built is composed of registered endpoints, shows the declaration, settled, and answers
every request in every chain as the declaration does. -/
theorem built_as_declared [Blake3] (registry : Registry ε) (serial : Nat)
    (declaration : DeclaredSpace) (built : CodedSpace ε) (plain : declaration.Unwrapped registry)
    (accepted : build registry serial declaration = .ok built) :
    built.Composed registry.get ∧ built.topology = declaration.settled registry ∧
      ∀ chain request, (built.resolve chain request).map CodedSpace.shown =
        (declaration.answer request).map (settledHit registry) := by
  have own := build_ok plain accepted
  refine ⟨own.composed, own.topology, fun chain request => ?_⟩
  rw [CodedSpace.resolve_shown own.composed, own.topology, DeclaredSpace.settled_answer]

end Meaning

namespace BuiltDoor

local instance anyIri : IriSyntax := ⟨fun _ => true, fun _ => []⟩

local instance anyPath : IriPath := ⟨fun _ => []⟩

local instance anyDigest : Blake3 := ⟨fun bytes => bytes.length.toUInt64⟩

/-- A host with one endpoint. -/
local instance named : Registrable Unit := ⟨fun _ => "page".toList, fun _ => { id := "page".toList }⟩

def page : CodedEndpoint Unit := .endpoint ()

def registry : Registry Unit where
  endpoints := (∅ : KeyedMap Text (CodedEndpoint Unit)).insert "page".toList page
  named := by
    intro name endpoint held
    by_cases own : name = "page".toList
    · subst own
      rw [AList.lookup_insert] at held
      exact Option.some.inj held ▸ rfl
    · rw [AList.lookup_insert_ne own] at held
      cases held

/-- One page beside a hole. -/
def root : CodedSpace Unit :=
  .fallback [.limit (.headed "urn:personal:".toList) none,
    .endpointSpace [(.exact "urn:public:page".toList, page)] none] none

/-- The example's root is composed of what its registry holds. -/
theorem root_composed : root.Composed registry.get := by
  refine .fallback _ none fun space listed => ?_
  rcases List.mem_cons.mp listed with rfl | listed
  · exact .limit _ none (.headed _)
  · rw [List.mem_singleton.mp listed]
    refine .endpointSpace _ none ?_ ?_ ?_ ?_
    · intro binding inside
      rw [List.mem_singleton.mp inside]
      exact .exact _
    · intro binding inside
      rw [List.mem_singleton.mp inside]
      exact .itself _ rfl
    · intro binding inside
      rw [List.mem_singleton.mp inside]
      rintro name corridor inner ⟨⟩
    · intro binding inside
      rw [List.mem_singleton.mp inside]
      rintro name corridor inner ⟨⟩

/-- It is within the bounds of a declaration. -/
theorem root_measured : measure root.topology = .ok () :=
  (measure_iff _).mpr ⟨by decide, by decide, by decide⟩

/-- Nothing in it has an id. -/
theorem root_anonymous (node : DeclaredSpace) (occurs : node.Occurs root.topology) :
    node.layer.id = none := by
  rcases (DeclaredSpace.occurs_iff _ _).mp occurs with rfl | ⟨next, enclosed, within⟩
  · rfl
  · rcases (DeclaredSpace.occurs_iff _ _).mp within with rfl | ⟨inner, deeper, _⟩
    · rcases List.mem_cons.mp enclosed with rfl | enclosed
      · rfl
      · rw [List.mem_singleton.mp enclosed]
        rfl
    · rcases List.mem_cons.mp enclosed with rfl | enclosed
      · cases deeper
      · rw [List.mem_singleton.mp enclosed] at deeper
        cases deeper

/-- So it claims no name twice. -/
theorem root_claimed : claims root.topology = .ok () := by
  refine (claims_iff _).mpr ⟨?_, by decide⟩
  intro first second occurs _ name named
  rw [root_anonymous first occurs] at named
  cases named

/-- A root is built from what it shows. -/
theorem root_rebuilt : build registry 0 root.topology = .ok root ∧
    ∀ chain chain' request, CodedSpace.SameOutcome registry (root.resolve chain request)
      (root.resolve chain' request) := by
  have accepted : build registry 0 root.topology = .ok root := by
    rw [build, root_measured, root_claimed]
    rfl
  exact ⟨accepted, (build_inverts_topology registry 0 root root root_composed accepted).2⟩

/-- What is built of a root's topology means what the root shows. -/
theorem root_as_declared : root.Composed registry.get ∧
    root.topology = root.topology.settled registry ∧
    ∀ chain request, (root.resolve chain request).map CodedSpace.shown =
      (root.topology.answer request).map (settledHit registry) := by
  refine built_as_declared registry 0 root.topology root
    (CodedSpace.topology_unwrapped root_composed) ?_
  rw [build, root_measured, root_claimed]
  rfl

end BuiltDoor

end Ikigai
