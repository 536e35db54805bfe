import Ikigai.DeclarationReader

/-!
# One size for a declaration

What a node states does not depend on what was read before it, only whether it is accepted
does. So a document describes at most one tree, the tree that is read is the one described,
and it is charged as the tree is: the reader and the builder hold it to the same bounds.
-/

namespace Ikigai

open Declared (ik rdfType rdfFirst rdfRest rdfNil xsd malformed short)

/-- The refusals of a reading: each names the node it is about. -/
def NamesNode (error : DeclarationError) : Prop := ∃ node reason, error = malformed node reason

/-- What is malformed names the node it was found at. -/
theorem names_node (node reason : Text) : NamesNode (malformed node reason) := ⟨node, reason, rfl⟩

namespace DeclarationGraph

/-- A reading that marks do no harm to, and that names the node it refuses. -/
abbrev Steady {α : Type} (reading : Read α) : Prop := MarkedReading.Steady NamesNode reading

/-- A refusal that names its node is steady. -/
theorem steady_throw {α : Type} (node reason : Text) :
    Steady (throw (malformed node reason) : Read α) :=
  .throw _ (names_node node reason)

variable (graph : DeclarationGraph)

/-- Taking the objects of a predicate is steady. -/
theorem steady_take (subject predicate : Text) : Steady (graph.take subject predicate) :=
  (MarkedReading.Steady.mark _).bind fun _ => .pure _

/-- So is taking exactly one object. -/
theorem steady_one (subject predicate : Text) : Steady (graph.one subject predicate) := by
  refine (graph.steady_take subject predicate).bind fun terms => ?_
  match terms with
  | [] => exact steady_throw _ _
  | [term] => exact .pure term
  | _ :: _ :: _ => exact steady_throw _ _

/-- At most one object. -/
theorem steady_optional (subject predicate : Text) : Steady (graph.optional subject predicate) := by
  refine (graph.steady_take subject predicate).bind fun terms => ?_
  match terms with
  | [] => exact .pure none
  | [term] => exact .pure (some term)
  | _ :: _ :: _ => exact steady_throw _ _

variable [TurtleSyntax]

/-- That nothing is left unread is told steadily. -/
theorem steady_no_more (subject : Text) : Steady (graph.noMore subject) := by
  refine MarkedReading.Steady.refuseBy _ ?_ ?_
  · intro marks more covers
    simp only [Option.map_eq_none_iff, List.find?_eq_none, decide_eq_true_eq, not_and, not_not]
    exact fun all triple listed about => covers (all triple listed about)
  · intro marks error stopped
    obtain ⟨triple, -, rfl⟩ := Option.map_eq_some_iff.mp stopped
    exact names_node _ _

/-- A term read as an IRI. -/
theorem steady_iri_of (subject predicate : Text) (term : RdfTerm) :
    Steady (iriOf subject predicate term) := by
  cases term with
  | named iri => exact .pure iri
  | blank label => exact steady_throw _ _
  | literal value datatype language => exact steady_throw _ _

/-- A term read as a literal of a datatype. -/
theorem steady_literal_of (subject predicate : Text) (term : RdfTerm) (datatype : Text) :
    Steady (literalOf subject predicate term datatype) := by
  unfold literalOf
  dsimp only
  split
  · split
    · exact .pure _
    · exact steady_throw _ _
  · exact steady_throw _ _

theorem steady_one_iri (subject predicate : Text) : Steady (graph.oneIri subject predicate) :=
  (graph.steady_one subject predicate).bind fun term => steady_iri_of subject predicate term

theorem steady_one_str (subject predicate : Text) : Steady (graph.oneStr subject predicate) :=
  (graph.steady_one subject predicate).bind fun term => steady_literal_of subject predicate term _

theorem steady_strs (subject predicate : Text) : Steady (graph.strs subject predicate) :=
  (graph.steady_take subject predicate).bind fun terms =>
    .mapM (fun term => steady_literal_of subject predicate term _) terms

theorem steady_iris (subject predicate : Text) : Steady (graph.iris subject predicate) :=
  (graph.steady_take subject predicate).bind fun terms =>
    (MarkedReading.Steady.mapM (fun term => steady_iri_of subject predicate term) terms).bind
      fun _ => .pure _

omit [TurtleSyntax] in
/-- A value that may be absent is read steadily if every value is. -/
theorem steady_optionally {α : Type} (subject predicate : Text) {read : RdfTerm → Read α}
    (each : ∀ term, Steady (read term)) : Steady (graph.optionally subject predicate read) := by
  refine (graph.steady_optional subject predicate).bind fun term => ?_
  cases term with
  | none => exact .pure none
  | some term => exact (each term).map some

theorem steady_optional_str (subject predicate : Text) :
    Steady (graph.optionalStr subject predicate) :=
  graph.steady_optionally subject predicate fun term => steady_literal_of subject predicate term _

theorem steady_optional_iri (subject predicate : Text) :
    Steady (graph.optionalIri subject predicate) :=
  graph.steady_optionally subject predicate (steady_iri_of subject predicate)

/-- The two spellings of each truth value are read, and no other. -/
theorem steady_boolean_of (subject predicate : Text) (term : RdfTerm) :
    Steady (booleanOf subject predicate term) := by
  refine (steady_literal_of subject predicate term _).bind fun value => ?_
  split
  · exact .pure true
  · split
    · exact .pure false
    · exact steady_throw _ _

theorem steady_optional_boolean (subject predicate : Text) :
    Steady (graph.optionalBoolean subject predicate) :=
  graph.steady_optionally subject predicate (steady_boolean_of subject predicate)

/-- A list's cells are followed by steps counted ahead, and each cell is looked up steadily. -/
theorem steady_cells (subject word : Text) (steps : Nat) :
    ∀ (cell : Text) (seen members : List Text),
      Steady (graph.cells subject word steps cell seen members) := by
  induction steps with
  | zero => exact fun _ _ members => .pure members
  | succ steps ih =>
    intro cell seen members
    unfold cells
    split
    · exact .pure members
    · split
      · exact steady_throw _ _
      · exact (graph.steady_one_iri cell rdfFirst).bind fun member =>
          (graph.steady_one_iri cell rdfRest).bind fun rest =>
            (graph.steady_no_more cell).bind fun _ => ih rest (cell :: seen) (members ++ [member])

theorem steady_list (subject word : Text) : Steady (graph.list subject word) :=
  (graph.steady_one_iri subject _).bind fun cell => graph.steady_cells subject word _ cell [] []

/-- The type of a node is read against what is expected. -/
theorem steady_kind (subject : Text) (expected : List Text) :
    Steady (graph.kind subject expected) := by
  refine (graph.steady_one_iri subject rdfType).bind fun named => ?_
  dsimp only
  split
  · split
    · exact .pure _
    · exact steady_throw _ _
  · exact steady_throw _ _

theorem steady_match_kind (subject : Text) : Steady (graph.matchKind subject) := by
  refine (graph.steady_one_str subject _).bind fun keyword => ?_
  split
  · exact .pure _
  · exact steady_throw _ _

/-- A door is read from its own node, without going into another. -/
theorem steady_door (subject : Text) : Steady (graph.door subject) := by
  refine (graph.steady_kind subject _).bind fun _ => ?_
  refine (graph.steady_one_str subject _).bind fun pattern => ?_
  refine (graph.steady_match_kind subject).bind fun kind => ?_
  refine (graph.steady_one_str subject _).bind fun endpoint => ?_
  refine (graph.steady_optional_boolean subject _).bind fun existenceSensitive => ?_
  refine (graph.steady_optional_iri subject _).bind fun confined => ?_
  split
  · exact steady_throw _ _
  · exact (graph.steady_no_more subject).bind fun _ => .pure _

/-- Where an input comes from. -/
theorem steady_input_source (subject : Text) : Steady (graph.inputSource subject) := by
  refine (graph.steady_optional_str subject _).bind fun source => ?_
  cases source with
  | none => exact .pure ()
  | some source =>
    dsimp only
    split
    · exact .pure ()
    · exact steady_throw _ _

/-- An input, with its flags and its values. -/
theorem steady_input (subject : Text) : Steady (graph.input subject) := by
  refine (graph.steady_one_str subject _).bind fun name => ?_
  refine (graph.steady_input_source subject).bind fun _ => ?_
  refine (graph.steady_optional_str subject _).bind fun summary => ?_
  refine (graph.steady_optional_iri subject _).bind fun valueClass => ?_
  refine (graph.steady_optional_str subject _).bind fun default => ?_
  refine (graph.steady_strs subject _).bind fun oneOf => ?_
  refine (graph.steady_optionally subject _ fun term =>
    steady_literal_of subject _ term _).bind fun enumerated => ?_
  refine (graph.steady_optional_boolean subject _).bind fun required => ?_
  exact (graph.steady_no_more subject).bind fun _ => .pure _

/-- A verb by its word. -/
theorem steady_verb_of (subject word : Text) : Steady (verbOf subject word) := by
  unfold verbOf
  split
  · exact .pure _
  split
  · exact .pure _
  split
  · exact .pure _
  split
  · exact .pure _
  split
  · exact .pure _
  · exact steady_throw _ _

theorem steady_rule_kind (subject : Text) : Steady (graph.ruleKind subject) := by
  refine (graph.steady_one_str subject _).bind fun word => ?_
  split
  · exact .pure _
  split
  · exact .pure _
  split
  · exact .pure _
  · exact steady_throw _ _

theorem steady_place (subject : Text) : Steady (graph.place subject) := by
  refine (graph.steady_optional_str subject _).bind fun word => ?_
  cases word with
  | none => exact .pure _
  | some word =>
    dsimp only
    split
    · exact .pure _
    split
    · exact .pure _
    · exact steady_throw _ _

theorem steady_max_hops (subject : Text) : Steady (graph.maxHops subject) := by
  refine (graph.steady_one subject _).bind fun term => ?_
  refine (steady_literal_of subject _ term _).bind fun hops => ?_
  split
  · exact .pure _
  · exact steady_throw _ _

theorem steady_leaf (subject : Text) : Steady (graph.leaf subject) := by
  refine (graph.steady_strs subject _).bind fun flat => ?_
  refine (graph.steady_list subject _).bind fun listed => ?_
  refine (MarkedReading.Steady.mapM graph.steady_door listed).bind fun doors => ?_
  split
  · exact .pure _
  · exact steady_throw _ _

variable [IriSyntax]

/-- A fixed argument's value, inline, captured or a reference. -/
theorem steady_fixed_value (subject : Text) : Steady (graph.fixedValue subject) := by
  refine (graph.steady_optional subject _).bind fun value => ?_
  refine (graph.steady_optional subject _).bind fun reference => ?_
  refine (graph.steady_optional subject _).bind fun capture => ?_
  refine (graph.steady_optional subject _).bind fun referenceTemplate => ?_
  split
  · exact (steady_literal_of subject _ _ _).map _
  · refine (steady_iri_of subject _ _).bind fun iri => ?_
    split
    · exact .pure _
    · exact steady_throw _ _
  · exact (steady_literal_of subject _ _ _).map _
  · refine (steady_literal_of subject _ _ _).bind fun text => ?_
    split
    · exact .pure _
    · exact steady_throw _ _
  · exact steady_throw _ _

/-- A fixed argument of a rule. -/
theorem steady_argument (subject : Text) : Steady (graph.argument subject) := by
  refine (graph.steady_kind subject _).bind fun _ => ?_
  refine (graph.steady_one_str subject _).bind fun name => ?_
  refine (graph.steady_fixed_value subject).bind fun value => ?_
  exact (graph.steady_no_more subject).bind fun _ => .pure _

/-- A rule, with its arguments and inputs. -/
theorem steady_rule (subject : Text) : Steady (graph.rule subject) := by
  refine (graph.steady_kind subject _).bind fun _ => ?_
  refine (graph.steady_rule_kind subject).bind fun kind => ?_
  refine (graph.steady_one_str subject _).bind fun source => ?_
  refine (graph.steady_one_str subject _).bind fun target => ?_
  refine (graph.steady_place subject).bind fun resolveAt => ?_
  refine (graph.steady_optionally subject _ fun term =>
    (steady_literal_of subject _ term _).bind (steady_verb_of subject)).bind fun verb => ?_
  refine (graph.steady_iris subject _).bind fun arguments => ?_
  refine (MarkedReading.Steady.mapM graph.steady_argument arguments).bind fun fixes => ?_
  refine (graph.steady_iris subject _).bind fun declared => ?_
  refine (MarkedReading.Steady.mapM graph.steady_input declared).bind fun inputs => ?_
  exact (graph.steady_no_more subject).bind fun _ => .pure _

/-- The rules of a table, each by its own node. -/
theorem steady_rules (subject : Text) (named : List Text) :
    Steady (graph.rules subject named) := by
  refine MarkedReading.Steady.mapM (fun index => ?_) _
  split
  · exact graph.steady_rule _
  · exact steady_throw _ _

omit [TurtleSyntax] in
theorem steady_id (subject : Text) : Steady (DeclarationGraph.id subject) := by
  unfold DeclarationGraph.id
  split
  · exact .pure none
  · split
    · exact .pure _
    · exact steady_throw _ _

omit [IriSyntax] in
/-- A kind, with the one node it encloses. -/
theorem steady_over_space {subject : Text} {kind : DeclaredKind Text} :
    Steady (do return (kind, [← graph.oneIri subject (ik "space".toList)])) :=
  (graph.steady_one_iri subject _).bind fun _ => .pure _

/-- What a node carries beside what encloses it: its id, its label and its doors. -/
theorem steady_carried (subject : Text) (id : Option Iri) (word : Text) :
    Steady (graph.carried subject id word) := by
  unfold carried
  refine .ite (.pure _) ?_
  refine .ite ((graph.steady_leaf subject).bind fun _ => .pure _) ?_
  refine .ite ((graph.steady_list subject _).bind fun _ => .pure _) ?_
  refine .ite ?_ ?_
  · refine (graph.steady_one subject _).bind fun term => ?_
    refine (steady_boolean_of subject _ term).bind fun severed => ?_
    exact (graph.steady_list subject _).bind fun _ => .pure _
  refine .ite ((graph.steady_one_str subject _).bind fun _ => graph.steady_over_space) ?_
  refine .ite graph.steady_over_space ?_
  refine .ite graph.steady_over_space ?_
  refine .ite ?_ ?_
  · refine (graph.steady_max_hops subject).bind fun hops => ?_
    refine (graph.steady_iris subject _).bind fun named => ?_
    exact (graph.steady_rules subject named).bind fun _ => graph.steady_over_space
  refine .ite ?_ ?_
  · refine (graph.steady_one_str subject _).bind fun family => ?_
    exact (graph.steady_match_kind subject).bind fun _ => .pure _
  refine .ite ?_ ?_
  · refine .ite (steady_throw _ _) ?_
    refine (graph.steady_strs subject _).bind fun seals => ?_
    exact (graph.steady_optional_str subject _).bind fun _ => graph.steady_over_space
  refine .ite ?_ (steady_throw _ _)
  refine .ite (steady_throw _ _) ?_
  refine (graph.steady_one_iri subject _).bind fun declaration => ?_
  split
  · exact graph.steady_over_space
  · exact steady_throw _ _

/-- What a node states does not depend on what was read before it. -/
theorem steady_shallow (subject : Text) : Steady (graph.shallow subject) := by
  refine (graph.steady_kind subject _).bind fun word => ?_
  refine (steady_id subject).bind fun id => ?_
  refine (graph.steady_carried subject id word).bind fun carried => ?_
  exact (graph.steady_no_more subject).bind fun _ => .pure _

omit [IriSyntax] in
/-- A property that is read is stated of its subject. -/
theorem stated_of_one_iri (subject predicate iri : Text) (marks after : List (Text × Text))
    (read : (graph.oneIri subject predicate).run marks = .ok (iri, after)) :
    subject ∈ graph.triples.map StatedTriple.subject := by
  obtain ⟨term, middle, one, -⟩ := MarkedReading.run_bind_ok read
  obtain ⟨terms, taken, take, rest⟩ := MarkedReading.run_bind_ok one
  obtain ⟨⟩ := take
  cases stated : graph.objects subject predicate with
  | nil =>
    rw [stated] at rest
    cases rest
  | cons term terms =>
    have inside : term ∈ graph.objects subject predicate := stated ▸ List.mem_cons_self
    obtain ⟨triple, listed, means⟩ := List.mem_filterMap.mp inside
    split at means
    · rename_i about
      exact List.mem_map.mpr ⟨triple, listed, about.1⟩
    · cases means

omit [IriSyntax] in
/-- The steps a list is given are more than it can use: cells are distinct subjects. -/
theorem cells_more (subject word : Text) (steps : Nat) :
    ∀ (cell : Text) (seen members : List Text), seen.Nodup →
      (∀ other ∈ seen, other ∈ graph.triples.map StatedTriple.subject) →
      graph.triples.length < steps + seen.length →
      graph.cells subject word (steps + 1) cell seen members =
        graph.cells subject word steps cell seen members := by
  induction steps with
  | zero =>
    intro cell seen members distinct subjects enough
    have few : seen.length ≤ (graph.triples.map StatedTriple.subject).length :=
      (List.subperm_of_subset distinct subjects).length_le
    rw [List.length_map] at few
    omega
  | succ steps ih =>
    intro cell seen members distinct subjects enough
    rw [cells.eq_def]
    conv_rhs => rw [cells.eq_def]
    dsimp only
    split
    · rfl
    split
    · rfl
    rename_i fresh
    funext marks
    change StateT.run _ marks = StateT.run _ marks
    rw [MarkedReading.run_bind, MarkedReading.run_bind]
    cases read : (graph.oneIri cell rdfFirst).run marks with
    | error error => rfl
    | ok went =>
      have listed := graph.stated_of_one_iri cell rdfFirst went.1 marks went.2 read
      have further : ∀ rest, graph.cells subject word (steps + 1) rest (cell :: seen)
          (members ++ [went.1]) =
            graph.cells subject word steps rest (cell :: seen) (members ++ [went.1]) := by
        intro rest
        refine ih rest _ _ (List.nodup_cons.mpr ⟨fresh, distinct⟩)
          (List.forall_mem_cons.mpr ⟨listed, subjects⟩) ?_
        rw [List.length_cons]
        omega
      simp only [Except.bind, further]

omit [IriSyntax] in
/-- A list is read to its end: more steps would change nothing. -/
theorem list_ends (subject word cell : Text) (more : Nat) :
    graph.cells subject word (graph.triples.length + 1 + more) cell [] [] =
      graph.cells subject word (graph.triples.length + 1) cell [] [] := by
  induction more with
  | zero => rfl
  | succ more ih =>
    rw [← Nat.add_assoc, graph.cells_more subject word _ cell [] [] List.nodup_nil nofun, ih]
    rw [List.length_nil]
    omega

/-- What a node states about itself, whatever else is accepted. -/
def States (subject : Text) (layer : DeclaredLayer Text) : Prop :=
  ∃ marks after, (graph.shallow subject).run marks = .ok (layer, after)

/-- A node states one thing. -/
theorem states_unique {subject : Text} {layer other : DeclaredLayer Text}
    (states : graph.States subject layer) (states' : graph.States subject other) :
    layer = other := by
  obtain ⟨marks, after, read⟩ := states
  obtain ⟨marks', after', read'⟩ := states'
  have steady := graph.steady_shallow subject
  obtain ⟨_, here, -⟩ :=
    steady.accepts marks layer after read (marks ++ marks') (List.subset_append_left _ _)
  obtain ⟨_, there, -⟩ :=
    steady.accepts marks' other after' read' (marks ++ marks') (List.subset_append_right _ _)
  rw [here] at there
  exact (Prod.mk.inj (Except.ok.inj there)).1

/-- A tree is what the triples describe at a node: its layers are what the nodes state, a
shared node expanded wherever it is used. -/
def Describes (space : DeclaredSpace) : Text → Prop :=
  space.fold fun layer below subject =>
    ∃ stated, graph.States subject stated ∧ stated.shape = layer.shape ∧
      List.Forall₂ (fun name described => described name) stated.enclosed below

/-- A space is described by a node exactly when the node states its shape and its enclosed nodes
describe, in order, the spaces inside it. -/
theorem describes_node (space : DeclaredSpace) (subject : Text) :
    graph.Describes space subject ↔
      ∃ stated, graph.States subject stated ∧ stated.shape = space.layer.shape ∧
        List.Forall₂ (fun name inner => graph.Describes inner name) stated.enclosed
          space.enclosed := by
  unfold Describes
  rw [DeclaredSpace.fold_node]
  simp only [List.forall₂_map_right_iff]

/-- A node is described as one tree. -/
theorem describes_unique (space : DeclaredSpace) :
    ∀ (other : DeclaredSpace) (subject : Text), graph.Describes space subject →
      graph.Describes other subject → space = other := by
  induction space using DeclaredSpace.enclosed_induction with
  | step space ih =>
    intro other subject described described'
    obtain ⟨stated, states, shape, below⟩ := (graph.describes_node space subject).mp described
    obtain ⟨stated', states', shape', below'⟩ := (graph.describes_node other subject).mp described'
    obtain rfl := graph.states_unique states states'
    have same : ∀ (names : List Text) (spaces others : List DeclaredSpace),
        spaces ⊆ space.enclosed →
        List.Forall₂ (fun name inner => graph.Describes inner name) names spaces →
        List.Forall₂ (fun name inner => graph.Describes inner name) names others →
        spaces = others := by
      intro names spaces others within here
      induction here generalizing others with
      | nil =>
        rintro ⟨⟩
        rfl
      | cons first _ ihRest =>
        rintro (_ | ⟨first', rest'⟩)
        obtain rfl := ih _ (within List.mem_cons_self) _ _ first first'
        rw [ihRest _ (fun _ inside => within (List.mem_cons_of_mem _ inside)) rest']
    have enclosed := same _ _ _ (List.Subset.refl _) below below'
    have layers := DeclaredLayer.eq_of_shape _ _ (shape.symm.trans shape') enclosed
    rw [← space.node_layer, layers, other.node_layer]

end DeclarationGraph

namespace DeclaredLayer

variable {τ υ : Type}

/-- Doors keep what is said of them, and are confined to what they are given. -/
theorem fill_doors_spec (doors : List (DeclaredDoor τ)) (spaces : List υ)
    (enough : spaces.length = (doors.filterMap DeclaredDoor.confined).length) :
    (fillDoors doors spaces).filterMap DeclaredDoor.confined = spaces ∧
      (fillDoors doors spaces).map bareDoor = doors.map bareDoor := by
  induction doors generalizing spaces with
  | nil =>
    obtain rfl := List.length_eq_zero_iff.mp enough
    exact ⟨rfl, rfl⟩
  | cons door rest ih =>
    obtain ⟨shown, endpoint, confined, sensitive⟩ := door
    cases confined with
    | none =>
      obtain ⟨corridors, bare⟩ := ih spaces enough
      exact ⟨corridors, congrArg (_ :: ·) bare⟩
    | some corridor =>
      obtain ⟨space, spaces, rfl⟩ := List.exists_cons_of_length_eq_add_one enough
      obtain ⟨corridors, bare⟩ := ih spaces (Nat.succ.inj enough)
      exact ⟨congrArg (space :: ·) corridors, congrArg (_ :: ·) bare⟩

variable (layer : DeclaredLayer τ) (spaces : List υ)
  (enough : spaces.length = layer.enclosed.length)

include enough

/-- Filling a layer keeps its shape's kind, and hands its corridors what its children leave over.
-/
theorem fill_kind :
    (layer.fill spaces).kind.corridors = spaces.drop layer.children.length ∧
      (layer.fill spaces).shape.kind = layer.shape.kind := by
  obtain ⟨id, kind, children⟩ := layer
  rw [enclosed, List.length_append] at enough
  have left : (spaces.drop children.length).length = kind.corridors.length := by
    rw [List.length_drop, enough, Nat.add_sub_cancel_left]
  cases kind with
  | endpointSpace doors =>
    obtain ⟨corridors, bare⟩ := fill_doors_spec doors _ left
    exact ⟨corridors, congrArg DeclaredKind.endpointSpace bare⟩
  | _ => exact ⟨(List.length_eq_zero_iff.mp left).symm, rfl⟩

/-- A layer encloses what it is filled with. -/
theorem fill_enclosed : (layer.fill spaces).enclosed = spaces := by
  rw [enclosed, (layer.fill_kind spaces enough).1]
  exact List.take_append_drop _ _

/-- Nothing else about it changes. -/
theorem fill_shape : (layer.fill spaces).shape = layer.shape := by
  have kinds := (layer.fill_kind spaces enough).2
  have some' : layer.children.length ≤ spaces.length := by
    rw [enough, enclosed, List.length_append]
    exact Nat.le_add_right _ _
  have children : (layer.fill spaces).shape.children = layer.shape.children := by
    simp only [shape, fill]
    apply List.ext_getElem
    · rw [List.length_map, List.length_map, List.length_take, Nat.min_eq_left some']
    · intros
      rfl
  rw [show (layer.fill spaces).shape = ⟨layer.shape.id, (layer.fill spaces).shape.kind,
    (layer.fill spaces).shape.children⟩ from rfl, kinds, children]

end DeclaredLayer

namespace DeclaredLayer

variable {τ υ : Type}

/-- A layer is charged by its shape. -/
theorem shares_of_shape (layer : DeclaredLayer τ) (other : DeclaredLayer υ)
    (same : layer.shape = other.shape) :
    layer.nodeShare = other.nodeShare ∧ layer.textShare = other.textShare := by
  have nodes : ∀ {ω : Type} (layer : DeclaredLayer ω), layer.shape.nodeShare = layer.nodeShare := by
    intro ω layer
    obtain ⟨id, kind, children⟩ := layer
    cases kind with
    | endpointSpace doors => exact congrArg (1 + ·) (List.length_map _)
    | _ => rfl
  have text : ∀ {ω : Type} (layer : DeclaredLayer ω), layer.shape.textShare = layer.textShare := by
    intro ω layer
    obtain ⟨id, kind, children⟩ := layer
    cases kind with
    | endpointSpace doors =>
      have shares : ((doors.map bareDoor).map fun door =>
          door.pattern.byteLen + door.endpoint.byteLen) =
            doors.map fun door => door.pattern.byteLen + door.endpoint.byteLen := List.map_map
      exact congrArg (fun shares => (id.map Text.byteLen).getD 0 + List.sum shares) shares
    | _ => rfl
  exact ⟨by rw [← nodes layer, same, nodes], by rw [← text layer, same, text]⟩

end DeclaredLayer

/-- A size within the bounds, or one layer that was read past such a size. -/
inductive DeclarationGraph.Charged [TurtleSyntax] [IriSyntax] (graph : DeclarationGraph) :
    DeclarationBudget → Prop where
  | within (budget : DeclarationBudget) (within : budget.Within) : Charged graph budget
  | past (budget : DeclarationBudget) (subject : Text) (layer : DeclaredLayer Text)
      (within : budget.Within) (states : graph.States subject layer) :
      Charged graph (budget.add layer)

namespace DeclarationGraph

variable [TurtleSyntax] [IriSyntax] (graph : DeclarationGraph)

/-- Trees that stand within what is left of the bounds. -/
def Stands (room : Nat) (spaces : List DeclaredSpace) (budget : DeclarationBudget) : Prop :=
  (∀ space ∈ spaces, space.depth ≤ room) ∧ (budget.addAll spaces).Within

/-- What reading nodes comes to: the trees they are described as, which stand within the
bounds and are charged, or an error, which is about a bound only if they do not stand. -/
def Comes (room : Nat) (names : List Text) (budget : DeclarationBudget) :
    Except DeclarationError (List DeclaredSpace) × DeclarationWalk → Prop
  | (.ok spaces, after) =>
    List.Forall₂ (fun name space => graph.Describes space name) names spaces ∧
      Stands room spaces budget ∧ after.budget = budget.addAll spaces
  | (.error error, after) =>
    (NamesNode error ∨ ∀ spaces,
      List.Forall₂ (fun name space => graph.Describes space name) names spaces →
        ¬ Stands room spaces budget) ∧ graph.Charged after.budget

/-- The same, of one node. -/
def ComesOne (room : Nat) (name : Text) (budget : DeclarationBudget)
    (result : Except DeclarationError DeclaredSpace × DeclarationWalk) : Prop :=
  graph.Comes room [name] budget (result.1.map fun space => [space], result.2)

/-- Trees read one after another. -/
theorem below_comes (room : Nat)
    (read : Text → DeclarationWalk → Except DeclarationError DeclaredSpace × DeclarationWalk)
    (each : ∀ name (state : DeclarationWalk), state.budget.Within →
      graph.ComesOne room name state.budget (read name state))
    (names : List Text) (state : DeclarationWalk) (within : state.budget.Within) :
    graph.Comes room names state.budget (below read names state) := by
  induction names generalizing state with
  | nil => exact ⟨.nil, ⟨nofun, within⟩, rfl⟩
  | cons name rest ih =>
    have here := each name state within
    rw [below]
    cases went : read name state with
    | mk result after =>
    rw [went] at here
    cases result with
    | error error =>
      obtain ⟨kind, charged⟩ := here
      refine ⟨kind.imp_right fun none spaces described stands => ?_, charged⟩
      obtain ⟨space, spaces, first, -, rfl⟩ := List.forall₂_cons_left_iff.mp described
      refine none [space] (.cons first .nil) ⟨?_, ?_⟩
      · exact List.forall_mem_singleton.mpr (stands.1 space List.mem_cons_self)
      · exact DeclarationBudget.within_of_add_all _ spaces
          (by rw [← state.budget.add_all_append [space] spaces]; exact stands.2)
    | ok space =>
      obtain ⟨described, stands, charged⟩ := here
      obtain ⟨first, -⟩ := List.forall₂_cons.mp described
      have there := ih after (charged ▸ stands.2)
      cases ended : below read rest after with
      | mk results last =>
      rw [ended] at there
      dsimp only
      rw [ended]
      cases results with
      | error error =>
        obtain ⟨kind, charged'⟩ := there
        refine ⟨kind.imp_right fun none spaces described stands' => ?_, charged'⟩
        obtain ⟨other, spaces, first', later, rfl⟩ := List.forall₂_cons_left_iff.mp described
        obtain rfl := graph.describes_unique other space name first' first
        refine none spaces later ⟨fun inner inside => ?_, ?_⟩
        · exact stands'.1 inner (List.mem_cons_of_mem _ inside)
        · rw [charged, ← state.budget.add_all_append [other] spaces]
          exact stands'.2
      | ok spaces =>
        obtain ⟨later, stands', charged'⟩ := there
        have whole : after.budget.addAll spaces = state.budget.addAll (space :: spaces) := by
          rw [charged]
          exact (state.budget.add_all_append [space] spaces).symm
        refine ⟨.cons first later, ⟨?_, ?_⟩, charged'.trans whole⟩
        · exact List.forall_mem_cons.mpr ⟨stands.1 space List.mem_cons_self, stands'.1⟩
        · exact whole ▸ stands'.2

omit [TurtleSyntax] [IriSyntax] in
/-- A node stands exactly when its layer is within the bounds and what it encloses stands
after it, one less deep. -/
theorem stands_node (room : Nat) (space : DeclaredSpace) (budget : DeclarationBudget) :
    Stands (room + 1) [space] budget ↔
      Stands room space.enclosed (budget.add space.layer) := by
  have charged : budget.addAll [space] = (budget.add space.layer).addAll space.enclosed := by
    rw [DeclarationBudget.add_all_cons, DeclarationBudget.add_all_nil]
  simp only [Stands, List.forall_mem_singleton, charged, DeclaredSpace.depth_le_iff]

omit [TurtleSyntax] [IriSyntax] in
/-- A budget is charged a layer by its shape. -/
theorem add_of_shape {τ υ : Type} (budget : DeclarationBudget) (layer : DeclaredLayer τ)
    (other : DeclaredLayer υ) (same : layer.shape = other.shape) :
    budget.add layer = budget.add other := by
  obtain ⟨nodes, text⟩ := layer.shares_of_shape other same
  rw [DeclarationBudget.add, DeclarationBudget.add, nodes, text]

/-- One node, read with all that it encloses. -/
theorem node_comes (room : Nat) :
    ∀ (path : List Text) (subject : Text) (state : DeclarationWalk), state.budget.Within →
      graph.ComesOne room subject state.budget (graph.node room path subject state) := by
  induction room with
  | zero =>
    intro path subject state within
    refine ⟨.inr fun spaces described stands => ?_, .within _ within⟩
    obtain ⟨space, rest, -, -, rfl⟩ := List.forall₂_cons_left_iff.mp described
    have shallow := stands.1 space List.mem_cons_self
    rw [DeclaredSpace.depth_node] at shallow
    omega
  | succ room ih =>
    intro path subject state within
    rw [node]
    split
    · exact ⟨.inl (names_node _ _), .within _ within⟩
    cases read : (graph.shallow subject).run state.marks with
    | error error =>
      exact ⟨.inl ((graph.steady_shallow subject).refuses _ _ read), .within _ within⟩
    | ok went =>
      obtain ⟨layer, marks⟩ := went
      have states : graph.States subject layer := ⟨_, _, read⟩
      -- what is described at the node has the layer that was read
      have one : ∀ spaces,
          List.Forall₂ (fun name space => graph.Describes space name) [subject] spaces →
            ∃ space, spaces = [space] ∧
              state.budget.add space.layer = state.budget.add layer ∧
              List.Forall₂ (fun name inner => graph.Describes inner name) layer.enclosed
                space.enclosed := by
        intro spaces described
        obtain ⟨space, rest, first, last, rfl⟩ := List.forall₂_cons_left_iff.mp described
        obtain rfl := List.forall₂_nil_left_iff.mp last
        obtain ⟨stated, states', shape, below⟩ := (graph.describes_node space subject).mp first
        obtain rfl := graph.states_unique states' states
        exact ⟨space, rfl, add_of_shape _ _ _ shape.symm, below⟩
      by_cases charged : (state.budget.add layer).Within
      · have further := graph.below_comes room (graph.node room (path ++ [subject]))
          (fun name state within => ih _ name state within) layer.enclosed
          ⟨state.budget.add layer, marks⟩ charged
        dsimp only
        rw [DeclarationBudget.check_within _ _ charged]
        cases ended : below (graph.node room (path ++ [subject])) layer.enclosed
            ⟨state.budget.add layer, marks⟩ with
        | mk results after =>
        rw [ended] at further
        cases results with
        | error error =>
          obtain ⟨kind, size⟩ := further
          refine ⟨kind.imp_right fun none spaces described stands => ?_, size⟩
          obtain ⟨space, rfl, same, below⟩ := one spaces described
          rw [stands_node, same] at stands
          exact none _ below stands
        | ok spaces =>
          obtain ⟨described, stands, size⟩ := further
          have enough : spaces.length = layer.enclosed.length := described.length_eq.symm
          have enclosed := layer.fill_enclosed spaces enough
          have shape := layer.fill_shape spaces enough
          have same := add_of_shape state.budget _ _ shape
          refine ⟨.cons ((graph.describes_node _ subject).mpr
            ⟨layer, states, shape.symm, ?_⟩) .nil, ?_, ?_⟩
          · rw [DeclaredSpace.enclosed_node, enclosed]
            exact described
          · rw [stands_node, DeclaredSpace.layer_node, DeclaredSpace.enclosed_node, same, enclosed]
            exact stands
          · change after.budget = state.budget.addAll [.node (layer.fill spaces)]
            rw [DeclarationBudget.add_all_cons, DeclarationBudget.add_all_nil,
              DeclaredSpace.layer_node, DeclaredSpace.enclosed_node, same, enclosed, size]
      · obtain ⟨bound, refused⟩ := DeclarationBudget.check_past _ subject charged
        dsimp only
        rw [refused]
        refine ⟨.inr fun spaces described stands => ?_, .past _ _ _ within states⟩
        obtain ⟨space, rfl, same, -⟩ := one spaces described
        rw [stands_node, same] at stands
        exact charged (DeclarationBudget.within_of_add_all _ _ stands.2)

end DeclarationGraph

namespace DeclaredSpace

variable [TurtleSyntax] [IriSyntax]

/-- A document describes a tree: its triples have one root, and describe the tree there. -/
def DescribedBy (turtle : Text) (space : DeclaredSpace) : Prop :=
  ∃ graph root, DeclarationGraph.parse turtle = .ok graph ∧ graph.root = .ok root ∧
    graph.Describes space root

/-- What a document has been charged when it is answered. -/
def ChargedBy (turtle : Text) (budget : DeclarationBudget) : Prop :=
  budget = {} ∨ ∃ graph, DeclarationGraph.parse turtle = .ok graph ∧ graph.Charged budget

omit [TurtleSyntax] [IriSyntax] in
/-- The bounds on a declaration's parts, and its standing under the reader's budget, are one
condition. -/
theorem bounded_iff_stands (space : DeclaredSpace) :
    space.Bounded ↔ DeclarationGraph.Stands DeclarationBound.depth.limit [space] {} := by
  simp only [DeclarationGraph.Stands, List.forall_mem_singleton, DeclarationBudget.addAll,
    DeclarationBudget.Within, List.map_cons, List.map_nil, List.sum_cons, List.sum_nil,
    Nat.zero_add, Nat.add_zero]
  exact ⟨fun bounded => ⟨bounded.depth, bounded.nodes, bounded.text⟩,
    fun stands => ⟨stands.1, stands.2.1, stands.2.2⟩⟩

/-- The tree at a root: the one that is described, within the bounds, or an error that is
about a bound only if no tree within the bounds is described. -/
theorem tree_comes (graph : DeclarationGraph) (root : Text) :
    graph.Charged (graph.tree root).2.budget ∧
      (∀ space, (graph.tree root).1 = .ok space → graph.Describes space root ∧ space.Bounded) ∧
      ∀ error, (graph.tree root).1 = .error error →
        NamesNode error ∨ ∀ space, graph.Describes space root → ¬ space.Bounded := by
  have comes := graph.node_comes DeclarationBound.depth.limit [] root {}
    ⟨Nat.zero_le _, Nat.zero_le _⟩
  unfold DeclarationGraph.tree
  cases went : graph.node DeclarationBound.depth.limit [] root {} with
  | mk result after =>
  rw [went] at comes
  cases result with
  | error error =>
    obtain ⟨kind, charged⟩ := comes
    refine ⟨charged, nofun, fun other same => ?_⟩
    cases same
    refine kind.imp_right fun none space described bounded => ?_
    exact none [space] (.cons described .nil) (space.bounded_iff_stands.mp bounded)
  | ok tree =>
    obtain ⟨described, stands, size⟩ := comes
    have charged : after.budget = DeclarationBudget.addAll {} [tree] := size
    dsimp only
    refine ⟨.within _ (charged ▸ stands.2), ?_, ?_⟩
    · intro space same
      cases used : graph.allUsed after.marks with
      | error error =>
        rw [used] at same
        cases same
      | ok marked =>
        rw [used] at same
        cases same
        exact ⟨(List.forall₂_cons.mp described).1, tree.bounded_iff_stands.mpr stands⟩
    · intro error same
      unfold DeclarationGraph.allUsed at same
      split at same
      · cases same
        exact .inl (names_node _ _)
      · cases same

/-- A document that describes a tree has one graph, with one root. -/
theorem described_at {turtle : Text} {space : DeclaredSpace} (described : DescribedBy turtle space) :
    ∃ graph root, DeclarationGraph.parse turtle = .ok graph ∧ graph.root = .ok root ∧
      walkTurtle turtle = graph.tree root ∧ graph.Describes space root := by
  obtain ⟨graph, root, parsed, rooted, describes⟩ := described
  refine ⟨graph, root, parsed, rooted, ?_, describes⟩
  simp only [walkTurtle, parsed, rooted]

/-- A document whose tree is read describes it, and the tree is within the bounds. -/
theorem read_described (turtle : Text) (space : DeclaredSpace)
    (read : fromTurtle turtle = .ok space) : DescribedBy turtle space ∧ space.Bounded := by
  unfold fromTurtle walkTurtle at read
  split at read
  · cases read
  · rename_i graph parsed
    split at read
    · cases read
    · rename_i root rooted
      obtain ⟨describes, bounded⟩ := (tree_comes graph root).2.1 space read
      exact ⟨⟨graph, root, parsed, rooted, describes⟩, bounded⟩

/-- Whatever a document says, it is charged at most the bounds and one layer it states. -/
theorem walk_charged (turtle : Text) : ChargedBy turtle (walkTurtle turtle).2.budget := by
  unfold walkTurtle
  split
  · exact .inl rfl
  · rename_i graph parsed
    split
    · exact .inl rfl
    · rename_i root rooted
      exact .inr ⟨graph, parsed, (tree_comes graph root).1⟩

end DeclaredSpace

/-- The reader and the builder hold a declaration to one size. A document is charged at most
the bounds and the share of one node it states; the lists it walks end; what is read passes
the builder's measure; a document that describes a tree past a bound is refused, and one that
describes a tree within the bounds is never refused as too large. -/
theorem one_size_for_declarations [TurtleSyntax] [IriSyntax] (turtle : Text) :
    DeclaredSpace.ChargedBy turtle (DeclaredSpace.walkTurtle turtle).2.budget ∧
      (∀ (graph : DeclarationGraph) (subject word cell : Text) (more : Nat),
        graph.cells subject word (graph.triples.length + 1 + more) cell [] [] =
          graph.cells subject word (graph.triples.length + 1) cell [] []) ∧
      (∀ space, DeclaredSpace.fromTurtle turtle = .ok space → measure space = .ok ()) ∧
      ∀ space, DeclaredSpace.DescribedBy turtle space →
        (¬ space.Bounded → ∃ error, DeclaredSpace.fromTurtle turtle = .error error) ∧
          (space.Bounded → ∀ bound limit node,
            DeclaredSpace.fromTurtle turtle ≠ .error (.tooLarge bound limit node)) := by
  refine ⟨DeclaredSpace.walk_charged turtle, fun graph => graph.list_ends, fun space read => ?_,
    fun space described => ?_⟩
  · exact (measure_iff space).mpr (DeclaredSpace.read_described turtle space read).2
  · obtain ⟨graph, root, -, -, walked, describes⟩ := DeclaredSpace.described_at described
    obtain ⟨-, read, refused⟩ := DeclaredSpace.tree_comes graph root
    simp only [DeclaredSpace.fromTurtle, walked]
    constructor
    · intro past
      cases answered : (graph.tree root).1 with
      | error error => exact ⟨error, rfl⟩
      | ok other =>
        obtain ⟨describes', bounded⟩ := read other answered
        exact absurd (graph.describes_unique other space root describes' describes ▸ bounded) past
    · intro bounded bound limit node same
      rcases refused _ same with ⟨_, _, impossible⟩ | none
      · cases impossible
      · exact none space describes bounded

end Ikigai
