import Ikigai.BuiltSpaces

/-!
# Which declarations are built

A build refuses, and skips nothing: what is accepted is a tree within the bounds, of one
arrangement for each name, in which every node that occurs can be rebuilt by itself, and whose
arrangement keeps to the seals. Whatever was shared and wherever it was mounted is nothing to it.
-/

namespace Ikigai

section Nodes

variable {ε : Type} [Registrable ε]

/-- A door that can be bound: its endpoint is registered, its corridor is named, and its pattern
is an exact name or a template that parses. -/
structure DeclaredDoor.Bindable (registry : Registry ε) (door : DeclaredDoor DeclaredSpace) :
    Prop where
  registered : ∃ endpoint, registry.get door.endpoint = some endpoint
  named : ∀ corridor, door.confined = some corridor → ∃ name, corridor.layer.id = some name
  matched : door.kind = .exact ∨ door.kind = .template ∧
    ∃ parsed, UriTemplate.parse door.pattern = .ok parsed

variable [IriSyntax]

/-- Every view among the rules of a table terminates, for a name it matches. -/
def AliasTable.ViewsEnd (table : AliasTable) (rules : List DeclaredRule) : Prop :=
  ∀ rule ∈ rules, rule.resolveAt = .root → ∀ name, Declared.sampleName rule = some name →
    ∀ refusal, table.canonicalize name ≠ .refused refusal

/-- A node that can be rebuilt by itself. -/
def DeclaredLayer.Buildable (registry : Registry ε) (layer : DeclaredLayer DeclaredSpace) : Prop :=
  match layer.kind with
  | .endpointSpace doors => layer.children = [] ∧ ∀ door ∈ doors, door.Bindable registry
  | .fallback => True
  | .mount _ => layer.children.length = 1
  | .«alias» rules maxHops => layer.children.length = 1 ∧ 0 < maxHops ∧
    ∃ table, AliasTable.ofDeclared rules maxHops = .ok table ∧ table.ViewsEnd rules
  | .limit family kind => layer.children = [] ∧ kind ≠ .custom ∧
    (kind = .template → ∃ parsed, UriTemplate.parse family = .ok parsed)
  | .level _ _ => layer.children.length = 1 ∧ ∃ name, layer.id = some name
  | .hidden | .rewrite | .confine | .dynamic _ | .chain _ => False

end Nodes

namespace Declared

variable {ε : Type} [Registrable ε]

/-- A door passes its check exactly when it can be bound. -/
theorem check_door_iff (registry : Registry ε) (place : Text) (door : DeclaredDoor DeclaredSpace) :
    checkDoor registry place door = .ok () ↔ door.Bindable registry := by
  constructor
  · intro passed
    obtain ⟨registered, named, matched⟩ := check_door_ok passed
    exact ⟨registered, named, matched⟩
  · rintro ⟨⟨endpoint, found⟩, named, matched⟩
    have bears : (door.confined.any fun corridor => corridor.layer.id.isNone) = false := by
      cases confined : door.confined with
      | none => rfl
      | some corridor =>
        obtain ⟨name, own⟩ := named corridor confined
        rw [Option.any_some, own]
        rfl
    rw [checkDoor, found, bears]
    rcases matched with kind | ⟨kind, parsed, read⟩
    · rw [kind]
      rfl
    · rw [kind, template, read]
      rfl

/-- Doors pass exactly when each can be bound. -/
theorem check_doors_iff (registry : Registry ε) (me : Text) (number : Nat)
    (doors : List (DeclaredDoor DeclaredSpace)) :
    checkDoors registry me number doors = .ok () ↔ ∀ door ∈ doors, door.Bindable registry := by
  induction doors generalizing number with
  | nil => exact ⟨fun _ => List.forall_mem_nil _, fun _ => rfl⟩
  | cons door rest ih =>
    rw [checkDoors, List.forall_mem_cons, ← ih (number + 1),
      ← check_door_iff registry (me ++ ":door:".toList ++ Nat.toDigits 10 number) door]
    cases checkDoor registry (me ++ ":door:".toList ++ Nat.toDigits 10 number) door with
    | error refusal => exact ⟨by rintro ⟨⟩, by rintro ⟨⟨⟩, _⟩⟩
    | ok passed => exact ⟨fun later => ⟨rfl, later⟩, And.right⟩

/-- A layer passes exactly when it has as many children as its kind takes. -/
theorem encloses_iff {τ : Type} (me : Text) (layer : DeclaredLayer τ) (count : Nat) :
    encloses me layer count = .ok () ↔ layer.children.length = count := by
  refine ⟨encloses_ok, fun same => ?_⟩
  rw [encloses, if_pos same]

variable [IriSyntax]

/-- Rules pass exactly when every view of the table comes to an end. -/
theorem check_views_iff (table : AliasTable) (me : Text) (number : Nat)
    (rules : List DeclaredRule) :
    checkViews table me number rules = .ok () ↔ table.ViewsEnd rules := by
  induction rules generalizing number with
  | nil => exact ⟨fun _ => List.forall_mem_nil _, fun _ => rfl⟩
  | cons rule rest ih =>
    have cons : table.ViewsEnd (rule :: rest) ↔
        (rule.resolveAt = .root → ∀ name, sampleName rule = some name →
          ∀ refusal, table.canonicalize name ≠ .refused refusal) ∧ table.ViewsEnd rest :=
      List.forall_mem_cons
    rw [checkViews, cons, ← ih (number + 1)]
    by_cases rooted : rule.resolveAt = .root
    · rw [if_pos rooted]
      cases sampled : sampleName rule with
      | none => exact ⟨fun later => ⟨by rintro _ name ⟨⟩, later⟩, And.right⟩
      | some name =>
        cases walked : table.canonicalize name with
        | refused refusal =>
          simp only [Option.map_some, walked]
          exact ⟨by rintro ⟨⟩, fun both => absurd walked (both.1 rooted name rfl refusal)⟩
        | direct =>
          simp only [Option.map_some, walked]
          refine ⟨fun later => ⟨?_, later⟩, And.right⟩
          rintro _ _ ⟨⟩ refusal refused
          rw [walked] at refused
          cases refused
        | aliased hop =>
          simp only [Option.map_some, walked]
          refine ⟨fun later => ⟨?_, later⟩, And.right⟩
          rintro _ _ ⟨⟩ refusal refused
          rw [walked] at refused
          cases refused
    · rw [if_neg rooted]
      exact ⟨fun later => ⟨fun root => absurd root rooted, later⟩, And.right⟩

/-- Rules that make a table pass one by one. -/
theorem rules_pass {rules : List DeclaredRule} {maxHops : Nat} {table : AliasTable}
    (read : AliasTable.ofDeclared rules maxHops = .ok table) (me : Text) (number : Nat) :
    checkRules me number rules = .ok () := by
  have run : ∀ (rules : List DeclaredRule) (number : Nat) (start : AliasTable),
      rules.foldlM AliasTable.withRule start = .ok table → checkRules me number rules = .ok () := by
    intro rules
    induction rules with
    | nil => exact fun _ _ _ => rfl
    | cons rule rest ih =>
      intro number start read
      rw [List.foldlM_cons] at read
      obtain ⟨next, added, later⟩ := Except.of_bind read
      have part : ∃ part, rule.requestPart = .ok part := by
        cases named : rule.toRule with
        | error refusal =>
          rw [AliasTable.withRule, named] at added
          cases added
        | ok own => exact ⟨_, (rule.to_rule_states own named).2.2.2.2⟩
      obtain ⟨part, read⟩ := part
      rw [checkRules, read]
      exact ih (number + 1) next later
  exact run rules number _ read

/-- A table passes exactly when it has hops, its rules make a table, and every view of it ends. -/
theorem check_table_iff (me : Text) (rules : List DeclaredRule) (maxHops : Nat) :
    checkTable me rules maxHops = .ok () ↔
      0 < maxHops ∧ ∃ table, AliasTable.ofDeclared rules maxHops = .ok table ∧
        table.ViewsEnd rules := by
  rw [checkTable]
  constructor
  · intro passed
    split at passed
    · cases passed
    · rename_i some
      obtain ⟨⟨⟩, _, passed⟩ := Except.of_bind passed
      obtain ⟨table, read, views⟩ := Except.of_bind passed
      exact ⟨Nat.pos_of_ne_zero some, table, read, (check_views_iff table me 1 rules).mp views⟩
  · rintro ⟨some, table, read, views⟩
    rw [if_neg (Nat.ne_of_gt some), rules_pass read me 1, read]
    exact (check_views_iff table me 1 rules).mpr views

/-- A node passes its check exactly when it can be rebuilt, whatever it is called and wherever it
is mounted. -/
theorem check_iff (registry : Registry ε) (layer : DeclaredLayer DeclaredSpace) (me : Text)
    (mountedAt : Option Text) :
    check registry layer me mountedAt = .ok () ↔ layer.Buildable registry := by
  obtain ⟨id, kind, children⟩ := layer
  have bare : ∀ {α : Type} (list : List α), list.length = 0 ↔ list = [] := fun _ =>
    List.length_eq_zero_iff
  have both : ∀ {τ : Type} {count : Nat} {layer : DeclaredLayer τ}
      {next : Except DeclarationError Unit},
      ((encloses me layer count >>= fun _ => next) = .ok ()) ↔
        layer.children.length = count ∧ next = .ok () := by
    intro τ count layer next
    rw [← encloses_iff me layer count]
    cases encloses me layer count with
    | error refusal => exact ⟨by rintro ⟨⟩, by rintro ⟨⟨⟩, _⟩⟩
    | ok passed => exact ⟨fun later => ⟨rfl, later⟩, And.right⟩
  cases kind with
  | endpointSpace doors =>
    exact both.trans (and_congr (bare children) (check_doors_iff registry me 1 doors))
  | fallback => exact ⟨fun _ => trivial, fun _ => rfl⟩
  | mount head => exact encloses_iff me _ 1
  | «alias» rules maxHops => exact both.trans (and_congr Iff.rfl (check_table_iff me rules maxHops))
  | limit family kind =>
    refine both.trans (and_congr (bare children) ?_)
    cases kind with
    | exact => exact ⟨fun _ => ⟨by rintro ⟨⟩, by rintro ⟨⟩⟩, fun _ => rfl⟩
    | headed => exact ⟨fun _ => ⟨by rintro ⟨⟩, by rintro ⟨⟩⟩, fun _ => rfl⟩
    | custom => exact ⟨by rintro ⟨⟩, fun listed => absurd rfl listed.1⟩
    | template =>
      dsimp only
      rw [template]
      cases UriTemplate.parse family with
      | error refusal =>
        refine ⟨by rintro ⟨⟩, fun listed => ?_⟩
        obtain ⟨parsed, ⟨⟩⟩ := listed.2 rfl
      | ok parsed => exact ⟨fun _ => ⟨by rintro ⟨⟩, fun _ => ⟨parsed, rfl⟩⟩, fun _ => rfl⟩
  | level seals home =>
    refine both.trans (and_congr Iff.rfl ?_)
    cases id with
    | none => exact ⟨by rintro ⟨⟩, by rintro ⟨name, ⟨⟩⟩⟩
    | some name => exact ⟨fun _ => ⟨name, rfl⟩, fun _ => rfl⟩
  | _ => exact ⟨by rintro ⟨⟩, by rintro ⟨⟩⟩

omit [IriSyntax] in
/-- Doors that can be bound are bound, in order. -/
theorem bind_doors_some {registry : Registry ε} (me : Text) (number : Nat)
    (doors : List (DeclaredDoor (DeclaredSpace × CodedSpace ε)))
    (each : ∀ door ∈ doors, (door.map Prod.fst).Bindable registry) :
    ∃ bindings, bindDoors registry me number doors = .ok bindings := by
  induction doors generalizing number with
  | nil => exact ⟨[], rfl⟩
  | cons door rest ih =>
    obtain ⟨bindings, later⟩ :=
      ih (number + 1) fun other inside => each other (List.mem_cons_of_mem _ inside)
    obtain ⟨⟨endpoint, found⟩, _, matched⟩ := each door List.mem_cons_self
    have bound : ∀ place, ∃ endpoint, boundEndpoint registry place door = .ok endpoint := by
      intro place
      rw [boundEndpoint, show registry.get door.endpoint = some endpoint from found]
      cases door.confined with
      | none => exact ⟨endpoint, rfl⟩
      | some pair =>
        obtain ⟨declared, corridor⟩ := pair
        cases named : declared.layer.id with
        | none => exact ⟨endpoint, by simp [named]⟩
        | some name => exact ⟨.confine name corridor endpoint, by simp [named]⟩
    have read : ∀ place, ∃ grammar, boundGrammar place door = .ok grammar := by
      intro place
      rcases matched with kind | ⟨kind, parsed, read⟩
      · exact ⟨.exact door.pattern, by rw [boundGrammar, show door.kind = .exact from kind]⟩
      · refine ⟨.template parsed, ?_⟩
        rw [boundGrammar, show door.kind = .template from kind, template,
          show UriTemplate.parse door.pattern = .ok parsed from read]
        rfl
    obtain ⟨endpoint, chosen⟩ := bound (me ++ ":door:".toList ++ Nat.toDigits 10 number)
    obtain ⟨grammar, read⟩ := read (me ++ ":door:".toList ++ Nat.toDigits 10 number)
    refine ⟨(grammar, endpoint) :: bindings, ?_⟩
    rw [bindDoors, Except.bind_of_ok chosen, Except.bind_of_ok read,
      Except.bind_of_ok later]
    rfl

/-- A node that can be rebuilt is put together. -/
theorem assemble_some {registry : Registry ε} (me : Text)
    {layer : DeclaredLayer (DeclaredSpace × CodedSpace ε)} (serial : Nat)
    (buildable : (layer.map Prod.fst).Buildable registry) :
    ∃ space, assemble registry me layer serial = .ok space := by
  obtain ⟨id, kind, children⟩ := layer
  have single : (children.map Prod.fst).length = 1 → ∃ pair, children = [pair] := by
    intro one
    rw [List.length_map] at one
    exact List.length_eq_one_iff.mp one
  cases kind with
  | endpointSpace doors =>
    obtain ⟨bindings, bound⟩ := bind_doors_some me 1 doors fun door listed =>
      buildable.2 _ (List.mem_map_of_mem listed)
    exact ⟨.endpointSpace bindings id, Except.bind_of_ok bound _⟩
  | fallback => exact ⟨_, rfl⟩
  | mount head =>
    obtain ⟨pair, rfl⟩ := single buildable
    exact ⟨_, rfl⟩
  | «alias» rules maxHops =>
    obtain ⟨one, _, table, read, _⟩ := buildable
    obtain ⟨pair, rfl⟩ := single one
    exact ⟨.«alias» table pair.2 id, Except.bind_of_ok read _⟩
  | limit family kind =>
    obtain ⟨_, listed, parses⟩ := buildable
    cases kind with
    | exact => exact ⟨_, rfl⟩
    | headed => exact ⟨_, rfl⟩
    | custom => exact absurd rfl listed
    | template =>
      obtain ⟨parsed, read⟩ := parses rfl
      have carved : boundFamily me family .template = .ok (.grammar (.template parsed)) := by
        simp only [boundFamily, template, read]
        rfl
      exact ⟨.limit (.grammar (.template parsed)) id, Except.bind_of_ok carved _⟩
  | level seals home =>
    obtain ⟨one, name, rfl⟩ := buildable
    obtain ⟨pair, rfl⟩ := single one
    exact ⟨_, rfl⟩
  | _ => exact buildable.elim

end Declared

namespace Builder

variable {ε : Type} [Registrable ε] [IriSyntax]

/-- Every node that occurs in a tree can be rebuilt. -/
def Sound (registry : Registry ε) (tree : DeclaredSpace) : Prop :=
  ∀ node : DeclaredSpace, node.Occurs tree → node.layer.Buildable registry

/-- Whatever was entered is sound. -/
def Sounds (registry : Registry ε) (builder : Builder ε) : Prop :=
  ∀ name node space, builder.named.lookup name = some (node, space) → Sound registry node

/-- Whatever was entered occurs in a tree, under its own name. -/
def Within (root : DeclaredSpace) (builder : Builder ε) : Prop :=
  ∀ name node space, builder.named.lookup name = some (node, space) →
    node.Occurs root ∧ node.layer.id = some name

omit [Registrable ε] [IriSyntax] in
/-- What holds of all that is entered holds after one more is. -/
theorem entered_all {builder : Builder ε} {node : DeclaredSpace} {space : CodedSpace ε}
    (holds : Text → DeclaredSpace → Prop)
    (before : ∀ name node space, builder.named.lookup name = some (node, space) → holds name node)
    (own : ∀ name, node.layer.id = some name → holds name node) :
    ∀ name other known, (builder.enter node space).named.lookup name = some (other, known) →
      holds name other := by
  intro name other known held
  unfold enter at held
  cases claimed : node.layer.id with
  | none =>
    rw [claimed] at held
    exact before name other known held
  | some me =>
    rw [claimed] at held
    simp only [List.lookup_cons] at held
    split at held
    · rename_i same
      cases held
      rw [beq_iff_eq.mp same]
      exact own me claimed
    · exact before name other known held

/-- What is built is sound. -/
theorem space_sound (registry : Registry ε) (tree : DeclaredSpace) :
    ∀ mountedAt (builder after : Builder ε) space, builder.Sounds registry →
      Builder.space registry tree mountedAt builder = .ok (space, after) →
        Sound registry tree ∧ after.Sounds registry := by
  induction tree using DeclaredSpace.enclosed_induction with
  | step tree ih =>
    intro mountedAt builder after built sounds ran
    rw [space_node] at ran
    obtain ⟨met, again, ran⟩ := Except.of_bind ran
    have soundsNamed : (builder.iri tree.layer.id).2.Sounds registry := by
      unfold Sounds
      rw [iri_named]
      exact sounds
    cases met with
    | some shared =>
      cases ran
      obtain ⟨name, held⟩ := met_again_some again
      rw [DeclaredSpace.node_layer] at held
      exact ⟨soundsNamed name tree built held, soundsNamed⟩
    | none =>
      obtain ⟨⟨⟩, passed, ran⟩ := Except.of_bind ran
      obtain ⟨⟨inner, between⟩, inside, ran⟩ := Except.of_bind ran
      obtain ⟨space, assembled, same⟩ := Except.of_bind ran
      cases same
      rw [DeclaredSpace.enclosed, below_eq] at inside
      have run : ∀ (pairs : List (DeclaredSpace × Option Text)),
          (∀ pair ∈ pairs, pair.1 ∈ tree.enclosed) → ∀ (builder after : Builder ε) spaces,
            builder.Sounds registry →
              inOrder (pairs.map fun pair => Builder.space registry pair.1 pair.2) builder =
                .ok (spaces, after) →
              (∀ pair ∈ pairs, Sound registry pair.1) ∧ after.Sounds registry := by
        intro pairs
        induction pairs with
        | nil =>
          intro _ builder after spaces sounds ran
          cases ran
          exact ⟨List.forall_mem_nil _, sounds⟩
        | cons pair rest ihRest =>
          intro enclosed builder after spaces sounds ran
          obtain ⟨⟨first, middle⟩, here, ran⟩ := Except.of_bind ran
          obtain ⟨⟨others, last⟩, later, same⟩ := Except.of_bind ran
          cases same
          obtain ⟨own, soundsMiddle⟩ :=
            ih pair.1 (enclosed pair List.mem_cons_self) _ _ _ _ sounds here
          obtain ⟨each, soundsLast⟩ := ihRest
            (fun other inside => enclosed other (List.mem_cons_of_mem _ inside)) _ _ _
            soundsMiddle later
          exact ⟨List.forall_mem_cons.mpr ⟨own, each⟩, soundsLast⟩
      have listed : ∀ inner ∈ tree.enclosed, ∃ pair ∈ enclosedAt tree.layer, pair.1 = inner := by
        intro inner inside
        rw [DeclaredSpace.enclosed, ← enclosed_at_fst] at inside
        obtain ⟨pair, among, rfl⟩ := List.mem_map.mp inside
        exact ⟨pair, among, rfl⟩
      obtain ⟨each, soundsAfter⟩ := run (enclosedAt tree.layer) (by
        intro pair among
        rw [DeclaredSpace.enclosed, ← enclosed_at_fst]
        exact List.mem_map_of_mem among) _ _ _ soundsNamed inside
      have sound : Sound registry tree := by
        intro node occurs
        rcases (DeclaredSpace.occurs_iff _ _).mp occurs with rfl | ⟨next, enclosed, within⟩
        · exact (Declared.check_iff registry _ _ _).mp passed
        · obtain ⟨pair, among, rfl⟩ := listed next enclosed
          exact each pair among node within
      refine ⟨sound, entered_all (fun _ node => Sound registry node) soundsAfter ?_⟩
      intro name _
      rw [DeclaredSpace.node_layer]
      exact sound

/-- What the walk does of a node that occurs in a tree of one arrangement for each name, every
node of which can be rebuilt. -/
def Succeeds (registry : Registry ε) (root node : DeclaredSpace) : Prop :=
  ∀ mountedAt (builder : Builder ε), builder.Within root →
    ∃ space after, Builder.space registry node mountedAt builder = .ok (space, after) ∧
      after.Within root

/-- Spaces that each can be built are built one after the other, within the root. -/
theorem in_order_some (registry : Registry ε) (root : DeclaredSpace)
    (pairs : List (DeclaredSpace × Option Text))
    (each : ∀ pair ∈ pairs, Succeeds registry root pair.1) (builder : Builder ε)
    (within : builder.Within root) :
    ∃ spaces after, inOrder (pairs.map fun pair => Builder.space registry pair.1 pair.2) builder =
      .ok (spaces, after) ∧ spaces.length = pairs.length ∧ after.Within root := by
  induction pairs generalizing builder with
  | nil => exact ⟨[], builder, rfl, rfl, within⟩
  | cons pair rest ih =>
    obtain ⟨first, middle, here, between⟩ := each pair List.mem_cons_self pair.2 builder within
    obtain ⟨others, last, later, length, after⟩ :=
      ih (fun other inside => each other (List.mem_cons_of_mem _ inside)) middle between
    refine ⟨first :: others, last, ?_, congrArg (· + 1) length, after⟩
    exact (Except.bind_of_ok here _).trans (Except.bind_of_ok later _)

/-- A sound tree of one arrangement for each name is built. -/
theorem space_some (registry : Registry ε) (root : DeclaredSpace) (claim : root.OneClaim)
    (sound : Sound registry root) (tree : DeclaredSpace) (occurs : tree.Occurs root) :
    Succeeds registry root tree := by
  induction tree using DeclaredSpace.enclosed_induction with
  | step tree ih =>
    intro mountedAt builder within
    have withinNamed : (builder.iri tree.layer.id).2.Within root := by
      unfold Within
      rw [iri_named]
      exact within
    have met : (∃ shared, (builder.iri tree.layer.id).2.metAgain (.node tree.layer) =
        .ok (some shared)) ∨
          (builder.iri tree.layer.id).2.metAgain (.node tree.layer) = .ok none := by
      unfold metAgain
      rw [DeclaredSpace.layer_node, DeclaredSpace.node_layer]
      cases claimed : tree.layer.id with
      | none => exact .inr rfl
      | some me =>
        rw [claimed] at withinNamed
        simp only
        cases held : (builder.iri (some me)).2.named.lookup me with
        | none => exact .inr rfl
        | some entry =>
          obtain ⟨first, space⟩ := entry
          obtain ⟨occurred, own⟩ := withinNamed me first space held
          rw [claim first tree occurred occurs me own claimed]
          exact .inl ⟨space, if_pos rfl⟩
    rw [space_node]
    rcases met with ⟨shared, again⟩ | fresh
    · exact ⟨shared, _, Except.bind_of_ok again _, withinNamed⟩
    · have passed := (Declared.check_iff registry tree.layer
        (builder.iri tree.layer.id).1 mountedAt).mpr (sound tree occurs)
      have each : ∀ pair ∈ enclosedAt tree.layer, Succeeds registry root pair.1 := by
        intro pair among
        have enclosed : pair.1 ∈ tree.enclosed := by
          rw [DeclaredSpace.enclosed, ← enclosed_at_fst]
          exact List.mem_map_of_mem among
        exact ih pair.1 enclosed ((DeclaredSpace.Occurs.deeper tree pair.1 enclosed .here).trans
          occurs)
      obtain ⟨inner, between, inside, length, after⟩ :=
        in_order_some registry root _ each _ withinNamed
      have enough : inner.length = tree.layer.enclosed.length := by
        rw [length, ← enclosed_at_fst, List.length_map]
      obtain ⟨layer, _⟩ := tree.layer.fill_zip inner enough
      obtain ⟨space, assembled⟩ := Declared.assemble_some
        (builder.iri tree.layer.id).1 between.serial (layer.symm ▸ sound tree occurs)
      rw [← below_eq] at inside
      refine ⟨space, between.enter (.node tree.layer) space, ?_, ?_⟩
      · refine (Except.bind_of_ok fresh _).trans ?_
        refine (Except.bind_of_ok passed _).trans ?_
        refine (Except.bind_of_ok inside _).trans ?_
        exact Except.bind_of_ok assembled _
      · refine entered_all (fun name node => node.Occurs root ∧
          node.layer.id = some name) after ?_
        intro name named
        rw [DeclaredSpace.node_layer]
        exact ⟨occurs, named⟩

end Builder

section Building

variable {ε : Type} [Registrable ε] [IriSyntax]

/-- What is asked of a declaration: the bounds, one arrangement for each name, no name that is a
cell, every node one that can be rebuilt, and an arrangement that keeps to the seals. -/
structure DeclaredSpace.Acceptable (registry : Registry ε) (declaration : DeclaredSpace) :
    Prop where
  bounded : declaration.Bounded
  claim : declaration.OneClaim
  cells : declaration.cellCollision = none
  sound : ∀ node : DeclaredSpace, node.Occurs declaration → node.layer.Buildable registry
  sealing : ∃ seals,
    Seals.fromTopology (declaration.settled registry).reduced registry.sealed = .ok seals

/-- A build accepts exactly what is acceptable: what cannot be rebuilt is refused wherever it
stands, and nothing else is. -/
theorem build_accepts_iff (registry : Registry ε) (serial : Nat) (declaration : DeclaredSpace)
    (plain : declaration.Unwrapped registry) :
    (∃ built, build registry serial declaration = .ok built) ↔
      declaration.Acceptable registry := by
  constructor
  · rintro ⟨built, accepted⟩
    have own := build_ok plain accepted
    obtain ⟨⟨⟩, measured, accepted⟩ := Except.of_bind accepted
    obtain ⟨⟨⟩, claimed, accepted⟩ := Except.of_bind accepted
    obtain ⟨⟨space, after⟩, ran, accepted⟩ := Except.of_bind accepted
    obtain ⟨claim, cells⟩ := (claims_iff declaration).mp claimed
    have fresh : ({ serial := serial } : Builder ε).Sounds registry := by
      intro name node space held
      cases held
    refine ⟨(measure_iff declaration).mp measured, claim, cells,
      (Builder.space_sound registry declaration none _ after space fresh ran).1, ?_⟩
    dsimp only at accepted
    cases kept : Seals.fromTopology space.topology.reduced registry.sealed with
    | error error =>
      rw [kept] at accepted
      cases accepted
    | ok seals =>
      rw [kept] at accepted
      obtain rfl : space = built := Except.ok.inj accepted
      exact ⟨seals, own.topology ▸ kept⟩
  · rintro ⟨bounded, claim, cells, sound, seals, sealing⟩
    have within : ({ serial := serial } : Builder ε).Within declaration := by
      intro name node space held
      cases held
    have kept : ({ serial := serial } : Builder ε).Kept registry := by
      intro name node space held
      cases held
    obtain ⟨space, after, ran, _⟩ := Builder.space_some registry declaration claim sound
      declaration .here none _ within
    have own := (Builder.space_ok registry declaration plain none _ after space kept ran).1
    refine ⟨space, ?_⟩
    refine (Except.bind_of_ok ((measure_iff declaration).mpr bounded) _).trans ?_
    refine (Except.bind_of_ok ((claims_iff declaration).mpr ⟨claim, cells⟩) _).trans ?_
    refine (Except.bind_of_ok ran _).trans ?_
    simp only [own.topology, sealing]
    rfl

end Building

namespace BuiltHome

local instance anyIri : IriSyntax := BuiltDoor.anyIri

local instance pages : Registrable Unit := BuiltDoor.named

/-- The one registered page, at an exact door. -/
def door : DeclaredDoor DeclaredSpace :=
  { pattern := "urn:public:page".toList, kind := .exact, endpoint := "page".toList }

/-- A shelf of it, which has a name. -/
def shelf : DeclaredSpace :=
  .node ⟨some "urn:iki:space:shelf".toList, .endpointSpace [door], []⟩

/-- A view of the page under another name. -/
def view : DeclaredRule :=
  { kind := .exact, source := "urn:home".toList, target := "urn:public:page".toList,
    resolveAt := .root }

/-- The shelf behind a table with the view. -/
def viewed : DeclaredSpace := .node ⟨none, .«alias» [view] 2, [shelf]⟩

/-- A hole. -/
def hole : DeclaredSpace := .node ⟨none, .limit "urn:personal:".toList .headed, []⟩

/-- The viewed shelf, the hole, and the same shelf once more. -/
def home : DeclaredSpace := .node ⟨none, .fallback, [viewed, hole, shelf]⟩

/-- The nodes of the arrangement. -/
theorem home_nodes {node : DeclaredSpace} (occurs : node.Occurs home) :
    node ∈ [home, viewed, hole, shelf] := by
  have shelved : ∀ inner : DeclaredSpace, inner.Occurs shelf → inner = shelf := by
    intro inner within
    rcases (DeclaredSpace.occurs_iff _ _).mp within with rfl | ⟨next, enclosed, _⟩
    · rfl
    · cases enclosed
  rcases (DeclaredSpace.occurs_iff _ _).mp occurs with rfl | ⟨next, enclosed, within⟩
  · exact List.mem_cons_self
  · have member : next ∈ [viewed, hole, shelf] := enclosed
    simp only [List.mem_cons, List.not_mem_nil, or_false] at member ⊢
    rcases member with rfl | rfl | rfl
    · rcases (DeclaredSpace.occurs_iff _ _).mp within with rfl | ⟨inner, deeper, there⟩
      · exact .inr (.inl rfl)
      · have only : inner ∈ [shelf] := deeper
        obtain rfl := List.mem_singleton.mp only
        exact .inr (.inr (.inr (shelved node there)))
    · rcases (DeclaredSpace.occurs_iff _ _).mp within with rfl | ⟨inner, deeper, _⟩
      · exact .inr (.inr (.inl rfl))
      · cases deeper
    · exact .inr (.inr (.inr (shelved node within)))

/-- A shelf under a name, met twice and once behind a view, beside a hole: the door is
registered, the table read, its view ends, and both shelves are one arrangement. -/
theorem home_accepted : home.Acceptable BuiltDoor.registry := by
  have plain : home.Unwrapped BuiltDoor.registry := by
    intro node occurs listed member _ endpoint held
    have bound : listed = door := by
      have nodes := home_nodes occurs
      simp only [List.mem_cons, List.not_mem_nil, or_false] at nodes
      rcases nodes with rfl | rfl | rfl | rfl
      · cases member
      · cases member
      · cases member
      · exact List.mem_singleton.mp member
    subst bound
    obtain rfl : BuiltDoor.page = endpoint := Option.some.inj held
    rfl
  have measured : measure home = .ok () := (measure_iff home).mpr ⟨by decide, by decide, by decide⟩
  have claimed : claims home = .ok () := by
    refine (claims_iff home).mpr ⟨?_, by decide⟩
    intro first second occurs other name named shared
    have names : ∀ node : DeclaredSpace, node.Occurs home → node.layer.id = some name →
        node = shelf := by
      intro node within own
      have nodes := home_nodes within
      simp only [List.mem_cons, List.not_mem_nil, or_false] at nodes
      rcases nodes with rfl | rfl | rfl | rfl
      · cases own
      · cases own
      · cases own
      · rfl
    rw [names first occurs named, names second other shared]
  have built : ∃ built, build BuiltDoor.registry 0 home = .ok built := by
    rw [build, measured, claimed]
    exact ⟨_, rfl⟩
  exact (build_accepts_iff BuiltDoor.registry 0 home plain).mp built

end BuiltHome

end Ikigai
