import Ikigai.AliasText
import Ikigai.StackLoops

/-!
# The arrangement as data

The whole of what a node of an arrangement states: the identity it claims, its kind with
what that kind carries, and the nodes it encloses, as children or as the corridors its doors
are confined to. One layer is a node over whatever stands for what it encloses: trees, once
they are built, or the names a document gives them.

A declaration is held to three bounds, on its depth and on the nodes and the text of the
expanded tree. A layer is charged its own share, and a tree is measured layer by layer, from
a stack.
-/

namespace Ikigai

/-- A door in full: what matches, the endpoint it binds by name, the corridor it is confined
to, and whether the endpoint hides its existence. -/
structure DeclaredDoor (τ : Type) extends Door where
  endpoint : Text
  confined : Option τ := none
  existenceSensitive : Bool := false
deriving DecidableEq, Repr

/-- What kind of space a node is, and what that kind carries. -/
inductive DeclaredKind (τ : Type) where
  | hidden
  | endpointSpace (doors : List (DeclaredDoor τ))
  | fallback
  | mount (head : Text)
  | rewrite
  | «alias» (rules : List DeclaredRule) (maxHops : Nat)
  | limit (family : Text) (kind : MatchKind)
  | confine
  | level (seals : List Text) (home : Option Text)
  | dynamic (declaration : Iri)
  | chain (severed : Bool)
deriving DecidableEq, Repr

/-- One node, over what stands for the nodes it encloses. -/
structure DeclaredLayer (τ : Type) where
  id : Option Iri := none
  kind : DeclaredKind τ
  children : List τ := []
deriving DecidableEq, Repr

/-- The arrangement, by value. -/
inductive DeclaredSpace where
  | node (layer : DeclaredLayer DeclaredSpace)

namespace DeclaredKind

variable {τ υ : Type}

/-- The doors of a leaf; no other kind has any. -/
def doors : DeclaredKind τ → List (DeclaredDoor τ)
  | .endpointSpace doors => doors
  | _ => []

/-- The corridors of the doors, in door order. -/
def corridors (kind : DeclaredKind τ) : List τ := kind.doors.filterMap DeclaredDoor.confined

/-- The same kind, with other doors if it has any. -/
def withDoors (kind : DeclaredKind τ) (doors : List (DeclaredDoor υ)) : DeclaredKind υ :=
  match kind with
  | .hidden => .hidden
  | .endpointSpace _ => .endpointSpace doors
  | .fallback => .fallback
  | .mount head => .mount head
  | .rewrite => .rewrite
  | .«alias» rules maxHops => .«alias» rules maxHops
  | .limit family kind => .limit family kind
  | .confine => .confine
  | .level seals home => .level seals home
  | .dynamic declaration => .dynamic declaration
  | .chain severed => .chain severed

end DeclaredKind

/-- The same door, over something else for its corridor. -/
def DeclaredDoor.map {τ υ : Type} (change : τ → υ) (door : DeclaredDoor τ) : DeclaredDoor υ :=
  ⟨door.toDoor, door.endpoint, door.confined.map change, door.existenceSensitive⟩

namespace DeclaredLayer

variable {τ υ : Type}

/-- The same layer, over something else for what it encloses. -/
def map (change : τ → υ) (layer : DeclaredLayer τ) : DeclaredLayer υ :=
  ⟨layer.id, layer.kind.withDoors (layer.kind.doors.map (DeclaredDoor.map change)),
    layer.children.map change⟩

/-- What a node encloses, in the order it is walked: its children, then its corridors. -/
def enclosed (layer : DeclaredLayer τ) : List τ := layer.children ++ layer.kind.corridors

/-- A door with nothing said of its corridor but that there is one. -/
def bareDoor (door : DeclaredDoor τ) : DeclaredDoor Unit :=
  ⟨door.toDoor, door.endpoint, door.confined.map fun _ => (), door.existenceSensitive⟩

/-- A layer with nothing said of what it encloses but how much that is. -/
def shape (layer : DeclaredLayer τ) : DeclaredLayer Unit :=
  ⟨layer.id, layer.kind.withDoors (layer.kind.doors.map bareDoor),
    layer.children.map fun _ => ()⟩

/-- Doors are what is said of each, with their corridors in order. -/
theorem doors_eq (doors others : List (DeclaredDoor τ))
    (bare : doors.map bareDoor = others.map bareDoor)
    (corridors : doors.filterMap DeclaredDoor.confined = others.filterMap DeclaredDoor.confined) :
    doors = others := by
  induction doors generalizing others with
  | nil => exact (List.map_eq_nil_iff.mp bare.symm).symm
  | cons door rest ih =>
    obtain ⟨other, further, rfl⟩ : ∃ other further, others = other :: further := by
      cases others with
      | nil => cases bare
      | cons other further => exact ⟨other, further, rfl⟩
    obtain ⟨shown, endpoint, confined, sensitive⟩ := door
    obtain ⟨shown', endpoint', confined', sensitive'⟩ := other
    obtain ⟨head, tail⟩ := List.cons.inj bare
    simp only [bareDoor, DeclaredDoor.mk.injEq] at head
    obtain ⟨rfl, rfl, both, rfl⟩ := head
    cases confined with
    | none =>
      cases confined' with
      | none => rw [ih further tail corridors]
      | some _ => cases both
    | some corridor =>
      cases confined' with
      | none => cases both
      | some corridor' =>
        obtain ⟨rfl, after⟩ := List.cons.inj corridors
        rw [ih further tail after]

/-- A layer is its shape, with what it encloses in order. -/
theorem eq_of_shape (layer other : DeclaredLayer τ) (shapes : layer.shape = other.shape)
    (enclosed : layer.enclosed = other.enclosed) : layer = other := by
  obtain ⟨id, kind, children⟩ := layer
  obtain ⟨id', kind', children'⟩ := other
  simp only [shape, DeclaredLayer.mk.injEq] at shapes
  obtain ⟨rfl, kinds, lengths⟩ := shapes
  have same : children.length = children'.length := by
    simpa only [List.length_map] using congrArg List.length lengths
  obtain ⟨rfl, corridors⟩ := List.append_inj enclosed same
  have kindsEq : kind = kind' := by
    cases kind <;> cases kind' <;>
      simp_all [DeclaredKind.withDoors, DeclaredKind.corridors, DeclaredKind.doors]
    exact doors_eq _ _ kinds corridors
  rw [kindsEq]

/-- Changing what a layer encloses changes just that. -/
theorem enclosed_map (change : τ → υ) (layer : DeclaredLayer τ) :
    (layer.map change).enclosed = layer.enclosed.map change := by
  obtain ⟨id, kind, children⟩ := layer
  have doors : ∀ doors : List (DeclaredDoor τ),
      (doors.map (DeclaredDoor.map change)).filterMap DeclaredDoor.confined =
        (doors.filterMap DeclaredDoor.confined).map change := by
    intro doors
    rw [List.filterMap_map, List.map_filterMap]
    rfl
  rw [enclosed, enclosed, List.map_append]
  congr 1
  cases kind with
  | endpointSpace shown => exact doors shown
  | _ => rfl

/-- A layer's shape does not depend on what it encloses. -/
theorem shape_map (change : τ → υ) (layer : DeclaredLayer τ) :
    (layer.map change).shape = layer.shape := by
  obtain ⟨id, kind, children⟩ := layer
  have bare : bareDoor ∘ DeclaredDoor.map change = bareDoor := by
    funext door
    simp [bareDoor, DeclaredDoor.map]
  have doors : ∀ doors : List (DeclaredDoor τ),
      (doors.map (DeclaredDoor.map change)).map bareDoor = doors.map bareDoor := by
    intro doors
    rw [List.map_map, bare]
  simp only [map, shape, List.map_map]
  congr 1
  cases kind with
  | endpointSpace shown => exact congrArg DeclaredKind.endpointSpace (doors shown)
  | _ => rfl

/-- Two changes are one after the other. -/
theorem map_map {ω : Type} (change : τ → υ) (further : υ → ω) (layer : DeclaredLayer τ) :
    (layer.map change).map further = layer.map (further ∘ change) := by
  refine eq_of_shape _ _ ?_ ?_
  · rw [shape_map, shape_map, shape_map]
  · rw [enclosed_map, enclosed_map, enclosed_map, List.map_map]

/-- A bare door is confined where the door was. -/
theorem length_bare (doors : List (DeclaredDoor τ)) :
    ((doors.map bareDoor).filterMap DeclaredDoor.confined).length =
      (doors.filterMap DeclaredDoor.confined).length := by
  induction doors with
  | nil => rfl
  | cons door rest ih =>
    obtain ⟨shown, endpoint, confined, sensitive⟩ := door
    cases confined with
    | none => exact ih
    | some corridor => exact congrArg (· + 1) ih

/-- A shape encloses as much as the layer does. -/
theorem length_shape (layer : DeclaredLayer τ) :
    layer.shape.enclosed.length = layer.enclosed.length := by
  obtain ⟨id, kind, children⟩ := layer
  simp only [enclosed, shape, List.length_append, List.length_map, DeclaredKind.corridors]
  congr 1
  cases kind with
  | endpointSpace doors => exact length_bare doors
  | _ => rfl

end DeclaredLayer

namespace DeclaredSpace

/-- The layer at the top. -/
def layer : DeclaredSpace → DeclaredLayer DeclaredSpace
  | .node layer => layer

/-- A node's layer is the layer it is made of. -/
@[simp] theorem layer_node (layer : DeclaredLayer DeclaredSpace) :
    (node layer).layer = layer := rfl

/-- A space is the node made of its layer. -/
@[simp] theorem node_layer (space : DeclaredSpace) : node space.layer = space := by
  cases space
  rfl

/-- What the top encloses. -/
def enclosed (space : DeclaredSpace) : List DeclaredSpace := space.layer.enclosed

/-- A node encloses what its layer does. -/
@[simp] theorem enclosed_node (layer : DeclaredLayer DeclaredSpace) :
    (node layer).enclosed = layer.enclosed := rfl

section Fold

variable {α : Type} (combine : DeclaredLayer DeclaredSpace → List α → α)

mutual

/-- Fold a tree: each layer with what its enclosed nodes came to, in walk order. -/
def fold : DeclaredSpace → α
  | .node ⟨id, kind, children⟩ => combine ⟨id, kind, children⟩ (foldAll children ++ foldKind kind)

def foldAll : List DeclaredSpace → List α
  | [] => []
  | space :: rest => fold space :: foldAll rest

def foldKind : DeclaredKind DeclaredSpace → List α
  | .endpointSpace doors => foldDoors doors
  | _ => []

def foldDoors : List (DeclaredDoor DeclaredSpace) → List α
  | [] => []
  | ⟨_, _, some corridor, _⟩ :: rest => fold corridor :: foldDoors rest
  | ⟨_, _, none, _⟩ :: rest => foldDoors rest

end

/-- Folding all spaces folds each. -/
theorem fold_all_eq (spaces : List DeclaredSpace) :
    foldAll combine spaces = spaces.map (fold combine) := by
  induction spaces with
  | nil => rw [foldAll, List.map_nil]
  | cons space rest ih => rw [foldAll, ih, List.map_cons]

/-- Folding the doors folds what they are confined by. -/
theorem fold_doors_eq (doors : List (DeclaredDoor DeclaredSpace)) :
    foldDoors combine doors = (doors.filterMap DeclaredDoor.confined).map (fold combine) := by
  induction doors with
  | nil => rw [foldDoors, List.filterMap_nil, List.map_nil]
  | cons door rest ih =>
    obtain ⟨shown, endpoint, confined, sensitive⟩ := door
    cases confined with
    | none => rw [foldDoors, ih, List.filterMap_cons_none rfl]
    | some corridor => rw [foldDoors, ih]; rfl

/-- Folding a kind folds its corridors. -/
theorem fold_kind_eq (kind : DeclaredKind DeclaredSpace) :
    foldKind combine kind = kind.corridors.map (fold combine) := by
  cases kind with
  | endpointSpace doors => rw [foldKind, fold_doors_eq, DeclaredKind.corridors, DeclaredKind.doors]
  | _ => simp [foldKind, DeclaredKind.corridors, DeclaredKind.doors]

/-- The fold of a node, by its layer. -/
theorem fold_node (space : DeclaredSpace) :
    fold combine space = combine space.layer (space.enclosed.map (fold combine)) := by
  obtain ⟨id, kind, children⟩ := space
  rw [fold, fold_all_eq, fold_kind_eq, enclosed_node, DeclaredLayer.enclosed, List.map_append]
  rfl

end Fold

/-- What a node encloses is smaller than the node. -/
theorem size_of_enclosed (space : DeclaredSpace) :
    ∀ inner ∈ space.enclosed, sizeOf inner < sizeOf space := by
  obtain ⟨id, kind, children⟩ := space
  intro inner inside
  rcases List.mem_append.mp inside with child | corridor
  · have smaller : sizeOf inner < sizeOf children := List.sizeOf_lt_of_mem child
    simp only [node.sizeOf_spec, DeclaredLayer.mk.sizeOf_spec]
    omega
  · cases kind with
    | endpointSpace doors =>
      obtain ⟨door, listed, confined⟩ := List.mem_filterMap.mp corridor
      obtain ⟨shown, endpoint, within, sensitive⟩ := door
      have member : ⟨shown, endpoint, within, sensitive⟩ ∈ doors := listed
      have smaller := List.sizeOf_lt_of_mem member
      cases confined
      simp only [DeclaredDoor.mk.sizeOf_spec, Option.some.sizeOf_spec] at smaller
      simp only [node.sizeOf_spec, DeclaredLayer.mk.sizeOf_spec,
        DeclaredKind.endpointSpace.sizeOf_spec]
      omega
    | _ => cases corridor

/-- What holds of a node whenever it holds of all that the node encloses holds of every
tree. -/
theorem enclosed_induction {holds : DeclaredSpace → Prop}
    (step : ∀ space : DeclaredSpace, (∀ inner ∈ space.enclosed, holds inner) → holds space)
    (space : DeclaredSpace) : holds space := by
  induction measured : sizeOf space using Nat.strong_induction_on generalizing space with
  | _ size ih =>
    refine step space fun inner inside => ?_
    exact ih (sizeOf inner) (measured ▸ size_of_enclosed space inner inside) inner rfl

/-- How many nodes a tree has, a shared one counted wherever it is used. -/
def count : DeclaredSpace → Nat := fold fun _ below => 1 + below.sum

/-- How deep the tree nests: one for a node that encloses nothing. -/
def depth : DeclaredSpace → Nat := fold fun _ below => 1 + below.foldr max 0

/-- A space counts itself and the spaces inside it. -/
theorem count_node (space : DeclaredSpace) : space.count = 1 + (space.enclosed.map count).sum :=
  fold_node _ space

/-- A space is one deeper than the deepest inside it. -/
theorem depth_node (space : DeclaredSpace) :
    space.depth = 1 + (space.enclosed.map depth).foldr max 0 :=
  fold_node _ space

/-- A tree nests as deep as a bound exactly when what it encloses nests one less. -/
theorem depth_le_iff (space : DeclaredSpace) (bound : Nat) :
    space.depth ≤ bound + 1 ↔ ∀ inner ∈ space.enclosed, inner.depth ≤ bound := by
  rw [depth_node, Nat.add_comm, Nat.succ_le_succ_iff]
  induction space.enclosed with
  | nil => simp
  | cons first rest ih =>
    rw [List.map_cons, List.foldr_cons, max_le_iff, ih, List.forall_mem_cons]

/-- The shapes of the layers, each before what it encloses. -/
def shapes : DeclaredSpace → List (DeclaredLayer Unit) :=
  fold fun layer below => layer.shape :: below.flatten

/-- A space's shapes are its layer's and then those inside, in order. -/
theorem shapes_node (space : DeclaredSpace) :
    space.shapes = space.layer.shape :: (space.enclosed.map shapes).flatten :=
  fold_node _ space

/-- The shapes are read in one way: a shape says how many trees follow it. -/
theorem shapes_cut (space : DeclaredSpace) :
    ∀ (other : DeclaredSpace) (rest further : List (DeclaredLayer Unit)),
      space.shapes ++ rest = other.shapes ++ further → space = other ∧ rest = further := by
  induction space using enclosed_induction with
  | step space ih =>
    intro other rest further same
    rw [shapes_node, shapes_node other, List.cons_append, List.cons_append] at same
    obtain ⟨top, below⟩ := List.cons.inj same
    have counted : space.enclosed.length = other.enclosed.length := by
      rw [enclosed, enclosed, ← space.layer.length_shape, top, other.layer.length_shape]
    have each : ∀ (spaces others : List DeclaredSpace), spaces ⊆ space.enclosed →
        spaces.length = others.length →
        (spaces.map shapes).flatten ++ rest = (others.map shapes).flatten ++ further →
        spaces = others ∧ rest = further := by
      intro spaces
      induction spaces with
      | nil =>
        intro others _ length same
        obtain rfl := List.length_eq_zero_iff.mp length.symm
        exact ⟨rfl, same⟩
      | cons inner spaces ihSpaces =>
        intro others within length same
        obtain ⟨first, others, rfl⟩ := List.exists_cons_of_length_eq_add_one length.symm
        simp only [List.map_cons, List.flatten_cons, List.append_assoc] at same
        obtain ⟨rfl, after⟩ := ih inner (within List.mem_cons_self) first _ _ same
        obtain ⟨rfl, last⟩ := ihSpaces others
          (fun _ inside => within (List.mem_cons_of_mem _ inside)) (Nat.succ.inj length) after
        exact ⟨rfl, last⟩
    obtain ⟨inside, last⟩ := each _ _ (List.Subset.refl _) counted below
    have layers := DeclaredLayer.eq_of_shape _ _ top inside
    exact ⟨by rw [← node_layer space, layers, node_layer], last⟩

/-- A space is told by its shapes: each says how many spaces are inside it. -/
theorem shapes_injective (space other : DeclaredSpace) (same : space.shapes = other.shapes) :
    space = other :=
  (shapes_cut space other [] [] (by rw [same])).1

/-- Arrangements are compared by what they state. -/
instance : DecidableEq DeclaredSpace := fun space other =>
  decidable_of_iff (space.shapes = other.shapes)
    ⟨shapes_injective space other, congrArg shapes⟩

end DeclaredSpace

end Ikigai
