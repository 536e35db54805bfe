import Ikigai.DeclarationReader

/-!
# The names of a rendering

A tree is rendered as one block a node, each ahead of the blocks of what it encloses. An
anonymous node takes the next number in that order; a named node is written where it is
first met and only referred to after that. A block mints cells for its lists, its doors and
its rules, under the name of its node.

A name is a claim: two nodes of one name must be one arrangement, and no name may be that of
a cell. What a block states of its node and its cells is left out.
-/

namespace Ikigai

open Declared (malformed)

namespace Declared

/-- A cell that a node mints. -/
def cell (subject word : Text) (number : Nat) : Text :=
  subject ++ ':' :: word ++ ':' :: Nat.toDigits 10 number

/-- The cell of an argument or an input of a rule. -/
def part (rule word name : Text) : Text := rule ++ ':' :: word ++ ':' :: name

/-- The numbers of some items, from one. -/
def numbered {α : Type} (items : List α) : List (α × Nat) := items.zipIdx 1

/-- Every name a block mints beside its own. -/
def cells (me : Text) (layer : DeclaredLayer Text) : List Text :=
  match layer.kind with
  | .endpointSpace doors =>
    ((numbered doors).map fun (_, number) => cell me "door".toList number) ++
      (numbered doors).map fun (_, number) => cell me "doors".toList number
  | .«alias» rules _ =>
    ((numbered rules).map fun (_, number) => cell me "rule".toList number) ++
      (numbered rules).flatMap fun (rule, number) =>
        (rule.fixes.map fun argument =>
          part (cell me "rule".toList number) "arg".toList argument.name) ++
        rule.inputs.map fun input =>
          part (cell me "rule".toList number) "input".toList input.name
  | .fallback | .chain _ =>
    (numbered layer.children).map fun (_, number) => cell me "layer".toList number
  | _ => []

end Declared

/-- What a rendering carries: the last number given to an anonymous node, and the named
nodes that were written. -/
structure Rendering where
  skolem : Nat := 0
  seen : OrderedSet Text := .empty

/-- The name a node is written by, and the node over the names of what it encloses. -/
abbrev Block := Text × DeclaredLayer Text

/-- What rendering a node does: the name it is referred to by, the blocks that are written,
and the state after them. -/
abbrev Renders := Rendering → Text × List Block × Rendering

namespace Rendering

/-- The name a node is written by. -/
def nameFor (state : Rendering) (id : Option Iri) : Text × Rendering :=
  match id with
  | some id => (id, state)
  | none => (skolemName (state.skolem + 1), { state with skolem := state.skolem + 1 })

/-- Render one after another. -/
def all : List Renders → Rendering → List Text × List Block × Rendering
  | [], state => ([], [], state)
  | render :: rest, state =>
    let (name, blocks, after) := render state
    let (names, further, last) := all rest after
    (name :: names, blocks ++ further, last)

/-- Render a node by how what it encloses is rendered. -/
def visit (layer : DeclaredLayer DeclaredSpace) (below : List Renders) : Renders := fun state =>
  let (me, state) := state.nameFor layer.id
  if layer.id.isSome && decide (me ∈ state.seen) then (me, [], state)
  else
    let state := if layer.id.isSome then { state with seen := state.seen.insert me } else state
    let (names, blocks, after) := all below state
    (me, (me, layer.fill names) :: blocks, after)

end Rendering

namespace DeclaredSpace

/-- Render a node, then what it encloses. -/
def render : DeclaredSpace → Renders := fold Rendering.visit

/-- The first named node, in order, whose name is also that of a cell. -/
def cellCollision (tree : DeclaredSpace) : Option Text :=
  let (_, blocks, state) := tree.render {}
  let cells := blocks.flatMap fun (me, layer) => Declared.cells me layer
  state.seen.items.find? fun name => name ∈ cells

end DeclaredSpace

def claimedTwice (name : Text) : DeclarationError :=
  malformed name
    ("two different arrangements claim this one name (a name is a claim: same name, same " ++
      "doors)").toList

/-- The names met so far, with what was first met under each. -/
abbrev Claimed := List (Text × DeclaredSpace)

namespace Claimed

/-- Visit one node: what is met again is not entered. -/
def visit (first : Claimed) (node : DeclaredSpace) :
    Except DeclarationError (List DeclaredSpace × Claimed) :=
  match node.layer.id with
  | none => .ok (node.enclosed, first)
  | some id =>
    match first.lookup id with
    | none => .ok (node.enclosed, (id, node) :: first)
    | some earlier => if earlier = node then .ok ([], first) else .error (claimedTwice id)

def loop : StackLoop DeclaredSpace Claimed DeclarationError where
  step := visit
  rank := DeclaredSpace.count
  falls := by
    have below : ∀ node : DeclaredSpace, (node.enclosed.map DeclaredSpace.count).sum < node.count := by
      intro node
      rw [DeclaredSpace.count_node node]
      exact Nat.lt_one_add_iff.mpr (Nat.le_refl _)
    intro first node pushed after went
    unfold visit at went
    split at went
    · cases went
      exact below node
    · split at went
      · cases went
        exact below node
      · split at went
        · cases went
          exact Nat.lt_of_le_of_lt (Nat.zero_le _) (below node)
        · cases went

end Claimed

/-- Check that every name of a tree is one claim, and none is a cell. -/
def claims (tree : DeclaredSpace) : Except DeclarationError Unit :=
  match Claimed.loop.run [tree] [] with
  | .error error => .error error
  | .ok _ =>
    match tree.cellCollision with
    | some name =>
      .error (malformed name
        ("this name is also a cell the rendering mints under another node (`<node>:layer:<n>`, " ++
          "`:doors:<n>`, `:door:<n>` or `:rule:<n>`); name the space something else").toList)
    | none => .ok ()

end Ikigai
